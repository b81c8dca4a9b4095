import NativeBindings.Proofs.CType.ConstPlace
import NativeBindings.Proofs.Marshal.Typedef

/-!
# Bindings and the place of `const`

Texts without tags that spell one type bind alike, as parameters (`interchangeable_of_parse_eq`) and
as return types (`bound_mapReturn_congr`). So a plain name binds the same with `const` in front of
it and behind it. For the instance of a template the two texts spell different types
(`constPlace_iff`).
-/

namespace NativeBindings

open CType (parse IsMark IsPlainName IsTemplate constPrefix constSuffix)

namespace Mapper

variable {m : Mapper} {t t' : String}

/-- Texts without tags are interchangeable when they spell one type. -/
theorem interchangeable_of_parse_eq (ht : Tag.occurs m.policy.arrayTag.toList t.toList = false)
    (ht' : Tag.occurs m.policy.arrayTag.toList t'.toList = false)
    (h : parse t.toList = parse t'.toList) : Interchangeable m t t' := by
  rw [interchangeable_iff_of_untagged ht ht', h]
  exact ⟨rfl, .inr rfl⟩

/-- What a return type binds depends on the type that its text spells. -/
theorem bound_mapReturn_congr (h : parse t.toList = parse t'.toList) :
    (m.mapReturn t).bound = (m.mapReturn t').bound := by
  have htrim : ∀ t : String, parse (Text.trim t.toList) = parse t.toList := fun t =>
    CType.parse_congr (Text.collapse_trim t.toList)
  unfold mapReturn
  rw [bound_getD_unresolved, bound_getD_unresolved]
  congr 1
  unfold mapReturn?
  dsimp only
  rw [htrim, htrim, h]
  split
  · rfl
  · rw [Option.map_or, Option.map_or, bound_mapValue? m _ _ (String.ofList (Text.trim t'.toList))]
    congr 1
    split
    · split <;> rfl
    · rfl

/-- A function that returns either of two texts binds the same when they spell one type. -/
theorem sameBinding_returnType (h : parse t.toList = parse t'.toList) (d : Declaration) :
    (m.signature { d with returnType := t }).sameBinding
      (m.signature { d with returnType := t' }) := by
  rw [Signature.sameBinding_iff, binding_signature, binding_signature, bound_mapReturn_congr h]

/-- On either side of a name, with the same marks behind it, `const` gives the same type exactly
when the name is plain. Then both texts bind alike under every policy. The name of a template takes
`const` behind it along. -/
theorem constPlace_iff {b marks : Text} (hb : IsPlainName b ∨ IsTemplate b)
    (hmarks : ∀ c ∈ marks, IsMark c) :
    let before := constPrefix ++ b ++ marks
    let behind := b ++ constSuffix ++ marks
    (parse before = parse behind ↔ IsPlainName b) ∧
      (IsPlainName b → ∀ m : Mapper,
        Interchangeable m (String.ofList before) (String.ofList behind) ∧
        ∀ d : Declaration, (m.signature { d with returnType := String.ofList before }).sameBinding
          (m.signature { d with returnType := String.ofList behind })) ∧
      (IsTemplate b → ∃ name : String,
        (parse before).base = .named name ∧ (parse behind).base = .named (name ++ " const")) := by
  intro before behind
  have hplain : IsPlainName b → parse before = parse behind := fun h => h.parse_const_append hmarks
  have htemplate : IsTemplate b → ∃ name : String,
      (parse before).base = .named name ∧ (parse behind).base = .named (name ++ " const") := by
    intro h
    obtain ⟨name, -, hfront, hbehind⟩ := h.parse_const
    refine ⟨name, ?_, ?_⟩
    · rw [CType.base_parse_append_marks _ hmarks, hfront]
      rfl
    · rw [CType.base_parse_append_marks _ hmarks, hbehind]
      rfl
  refine ⟨⟨fun hsame => ?_, hplain⟩, fun h m => ?_, htemplate⟩
  · -- The name of a template would be the same with the word behind it.
    refine hb.resolve_right fun h => ?_
    obtain ⟨name, hfront, hbehind⟩ := htemplate h
    rw [hsame, hbehind, CType.named.injEq] at hfront
    have hlength := congrArg String.length hfront
    rw [String.length_append] at hlength
    have hconst : " const".length = 6 := by decide
    omega
  · -- There is no slash, so no tag either, and what binds depends on the parsed type alone.
    have hslash : '/' ∉ b := CType.not_mem_of_chars h.chars (by decide) (by decide) (by decide)
    have hmark : '/' ∉ marks := fun hmem => by rcases hmarks _ hmem with h | h <;> cases h
    have huntagged : ∀ t : Text, '/' ∉ t →
        Tag.occurs m.policy.arrayTag.toList (String.ofList t).toList = false := by
      intro t ht
      rw [String.toList_ofList]
      exact Tag.occurs_of_not_mem ht
    have hbefore : '/' ∉ before := by
      simp only [before, List.mem_append, not_or]
      exact ⟨⟨by decide, hslash⟩, hmark⟩
    have hbehind : '/' ∉ behind := by
      simp only [behind, List.mem_append, not_or]
      exact ⟨⟨hslash, by decide⟩, hmark⟩
    have hparse : parse (String.ofList before).toList = parse (String.ofList behind).toList := by
      rw [String.toList_ofList, String.toList_ofList]
      exact hplain h
    exact ⟨interchangeable_of_parse_eq (huntagged _ hbefore) (huntagged _ hbehind) hparse,
      sameBinding_returnType hparse⟩

/-- A builtin type of several words behind a reference to a pointer. -/
theorem constPlace_iff_long :
    let b : Text := "unsigned long long".toList
    let marks : Text := ['*', '&']
    (IsPlainName b ∨ IsTemplate b) ∧ (∀ c ∈ marks, IsMark c) ∧
      parse (constPrefix ++ b ++ marks) = parse (b ++ constSuffix ++ marks) := by
  intro b marks
  have hparse : parse b = .scalar .uint64 := by decide +kernel
  have hchars : b.all fun c => isBlank c || (isIdentChar c || c == ':') := by decide
  have hb : IsPlainName b :=
    ⟨by simpa using hchars, fun s hs => by rw [hparse] at hs; cases hs⟩
  have hmarks : ∀ c ∈ marks, IsMark c :=
    List.forall_mem_cons.2 ⟨.inl rfl, List.forall_mem_singleton.2 (.inr rfl)⟩
  exact ⟨.inl hb, hmarks, (constPlace_iff (.inl hb) hmarks).1.2 hb⟩

/-- Behind the arguments of a template `const` is taken into the name, although the pointer is read
as one to a constant. -/
theorem constPlace_of_template :
    let b : Text := "ON_SimpleArray<int>".toList
    IsTemplate b ∧
      parse (constPrefix ++ b ++ ['*']) = .pointer true (.named "ON_SimpleArray<int>") ∧
      parse (b ++ constSuffix ++ ['*']) = .pointer true (.named "ON_SimpleArray<int> const") ∧
      parse (constPrefix ++ b ++ ['*']) ≠ parse (b ++ constSuffix ++ ['*']) := by
  intro b
  exact ⟨⟨⟨"ON_SimpleArray".toList, "int>".toList, rfl, by decide, by decide +kernel⟩, rfl⟩,
    by decide +kernel, by decide +kernel, by decide +kernel⟩

end Mapper

end NativeBindings
