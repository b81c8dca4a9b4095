import NativeBindings.Declaration.Head
import NativeBindings.Proofs.Declaration.Parameter

/-!
# What is read from a head

Attribute macros are taken out of a head first. A call of one starts with an opening parenthesis and
ends with a closing one, so a head without parentheses stays as it is (`stripAttributes_eq`), and so
does the text behind the last one (`stripAttributes_append`). Of what is left only the words matter
(`Declaration.read_congr`): those that speak of neither linkage nor calling conventions are the
return type and, last, the name (`Declaration.read_ok`).
-/

namespace NativeBindings

/-! ## Taking attribute macros out -/

/-- Behind a closing parenthesis that is found no text is left out. -/
theorem exists_append_of_afterClosing? {depth : Nat} {t rest : Text}
    (h : afterClosing? depth t = some rest) : ∃ arguments, t = arguments ++ ')' :: rest := by
  fun_induction afterClosing? depth t with
  | case1 => cases h
  | case2 depth cs ih =>
    obtain ⟨arguments, rfl⟩ := ih h
    exact ⟨'(' :: arguments, rfl⟩
  | case3 cs =>
    cases h
    exact ⟨[], rfl⟩
  | case4 depth cs _ ih =>
    obtain ⟨arguments, rfl⟩ := ih h
    exact ⟨')' :: arguments, rfl⟩
  | case5 depth c cs _ _ ih =>
    obtain ⟨arguments, rfl⟩ := ih h
    exact ⟨c :: arguments, rfl⟩

/-- A call of an attribute macro ends with a closing parenthesis. -/
theorem exists_append_of_splitAttribute? {head before rest : Text} {name : String}
    (h : splitAttribute? head name = some (before, rest)) :
    ∃ call, head = call ++ ')' :: rest := by
  simp only [splitAttribute?, Option.bind_eq_bind, Option.bind_eq_some_iff] at h
  obtain ⟨⟨b, after⟩, hfind, h⟩ := h
  split at h
  · simp only [Option.bind_eq_some_iff, Option.pure_def, Option.some.injEq, Prod.mk.injEq] at h
    obtain ⟨rest', hclose, -, rfl⟩ := h
    obtain ⟨hhead, -⟩ := Text.standsAlone_of_findWord? hfind
    obtain ⟨arguments, harguments⟩ := exists_append_of_afterClosing? hclose
    -- The arguments stand behind the macro, with blanks between them.
    have hafter : after = after.takeWhile isBlank ++ after.trimLeft :=
      (List.takeWhile_append_dropWhile ..).symm
    refine ⟨b ++ name.toList ++ after.takeWhile isBlank ++ arguments, ?_⟩
    calc head = b ++ name.toList ++ (after.takeWhile isBlank ++ after.trimLeft) := hafter ▸ hhead
      _ = _ := by rw [harguments]; simp
  · cases h

/-- A head without a call of an attribute macro stays as it is. -/
theorem stripAttributes_of_none {head : Text}
    (h : attributeMacros.findSome? (splitAttribute? head) = none) :
    stripAttributes head = head := by
  rw [stripAttributes]
  split
  · rfl
  · rename_i hsome
    rw [h] at hsome
    cases hsome

/-- A head with a call of an attribute macro has a space in its place. -/
theorem stripAttributes_of_some {head before rest : Text}
    (h : attributeMacros.findSome? (splitAttribute? head) = some (before, rest)) :
    stripAttributes head = before ++ ' ' :: stripAttributes rest := by
  rw [stripAttributes]
  split
  · rename_i hnone
    rw [h] at hnone
    cases hnone
  · rename_i hsome
    obtain ⟨rfl, rfl⟩ := Prod.mk.inj (Option.some.inj (h.symm.trans hsome))
    rfl

/-- What stands behind all closing parentheses is no part of attribute macros. -/
theorem stripAttributes_append (t : Text) {s : Text} (hs : ')' ∉ s) :
    ∃ t', stripAttributes (t ++ s) = t' ++ s := by
  induction hn : t.length using Nat.strongRecOn generalizing t with
  | ind n ih =>
    cases hcalls : attributeMacros.findSome? (splitAttribute? (t ++ s)) with
    | none => exact ⟨t, stripAttributes_of_none hcalls⟩
    | some r =>
      obtain ⟨before, rest⟩ := r
      obtain ⟨name, -, hname⟩ := List.exists_of_findSome?_eq_some hcalls
      obtain ⟨call, hcall⟩ := exists_append_of_splitAttribute? hname
      -- The parenthesis that closes the call is one of `t`.
      obtain ⟨u, rfl, rfl⟩ : ∃ u, t = call ++ ')' :: u ∧ rest = u ++ s := by
        obtain ⟨u, -, hsplit⟩ | ⟨u, ht, hsplit⟩ := List.append_eq_append_iff.1 hcall
        · exact absurd (by rw [hsplit]; simp) hs
        · cases u with
          | nil => exact absurd (by rw [List.nil_append] at hsplit; rw [← hsplit]; simp) hs
          | cons c u =>
            obtain ⟨rfl, hrest⟩ := List.cons.inj hsplit
            exact ⟨u, ht, hrest⟩
      have hshorter : u.length < n := by
        rw [← hn, List.length_append, List.length_cons]
        omega
      obtain ⟨t', ht'⟩ := ih u.length hshorter u rfl
      refine ⟨before ++ ' ' :: t', ?_⟩
      rw [stripAttributes_of_some hcalls, ht', List.append_assoc, List.cons_append]

/-- A head without parentheses has no attribute macros to strip. -/
theorem stripAttributes_eq {head : Text} (h : '(' ∉ head) : stripAttributes head = head := by
  have hnone : attributeMacros.findSome? (splitAttribute? head) = none := by
    rw [List.findSome?_eq_none_iff]
    intro name _
    unfold splitAttribute?
    cases hfind : Text.findWord? name.toList head with
    | none => rfl
    | some r =>
      obtain ⟨before, after⟩ := r
      obtain ⟨hsplit, -⟩ := Text.standsAlone_of_findWord? hfind
      -- Arguments in parentheses would follow the macro.
      have harguments : after.trimLeft.head? ≠ some '(' := by
        intro hhead
        have hmem : '(' ∈ after :=
          (List.dropWhile_sublist isBlank).subset (List.mem_of_mem_head? hhead)
        exact h (by rw [hsplit]; simp [hmem])
      exact if_neg harguments
  exact stripAttributes_of_none hnone

/-! ## Reading the words -/

/-- Heads with the same words outside attribute macros and parameters that are read alike make
declarations alike. -/
theorem Declaration.read_congr {head head' params params' : Text}
    (hhead : (stripAttributes head).words = (stripAttributes head').words)
    (hparams : ∀ function, readParameters function params = readParameters function params')
    (location : Location) (doc : Option Text) :
    Declaration.read location head params doc = Declaration.read location head' params' doc := by
  unfold Declaration.read
  simp only [hhead, hparams]

section Read

variable {location : Location} {head params : Text} {doc : Option Text} {d : Declaration}

/-- The words of the return type and the name, one space apart. -/
def typeAndName (head : Text) : Text :=
  Text.unwords (((Text.words (stripAttributes head)).filter (String.ofList · ∉ linkageWords)).filter
    (!isConventionWord ·))

/-- The last word stands at the end of the return type and the name. -/
theorem exists_typeAndName_eq (head : Text) :
    ∃ type, typeAndName head = type ++ trailingWord (typeAndName head) := by
  have hspaced : Text.SingleSpaced (typeAndName head) := by
    refine (Text.SingleSpaced.unwords fun w hw => ?_).1
    exact Text.mem_words (List.mem_filter.1 (List.mem_filter.1 hw).1).1
  unfold trailingWord
  rw [Text.trimRight_eq hspaced.last]
  exact ⟨_, (dropTrailing_append_takeTrailing _ _).symm⟩

/-- Where a declaration is read, an identifier stands behind its return type, and its parameters are
read. -/
theorem Declaration.read_ok (h : Declaration.read location head params doc = .ok d) :
    ∃ type name, typeAndName head = type ++ name ∧ isIdentifier name ∧ d.name = String.ofList name ∧
      d.returnType = String.ofList (TypeText.tidy type) ∧
      readParameters d.name params = .ok d.params := by
  obtain ⟨type, hsplit⟩ := exists_typeAndName_eq head
  -- What stands in front of the last word is the type.
  have htake : (typeAndName head).take
      ((typeAndName head).length - (trailingWord (typeAndName head)).length) = type := by
    generalize trailingWord (typeAndName head) = name at hsplit
    rw [hsplit, List.length_append, Nat.add_sub_cancel, List.take_left]
  unfold Declaration.read at h
  change (if (!isIdentifier (trailingWord (typeAndName head))) = true then _ else _) = _ at h
  cases hident : isIdentifier (trailingWord (typeAndName head)) with
  | false =>
    rw [hident] at h
    cases h
  | true =>
    refine ⟨type, _, hsplit, hident, ?_⟩
    rw [hident, if_neg (by decide)] at h
    dsimp only at h
    split at h
    · cases h
    · change (readParameters (String.ofList (trailingWord (typeAndName head))) params).bind _ = _
        at h
      cases hps : readParameters (String.ofList (trailingWord (typeAndName head))) params with
      | error e =>
        rw [hps] at h
        cases h
      | ok ps =>
        rw [hps] at h
        cases h
        exact ⟨rfl, congrArg (fun t => String.ofList (TypeText.tidy t)) htake, hps⟩

/-- A word with a parenthesis is neither of linkage nor of calling conventions. -/
theorem stays_of_open_mem {w : Text} (hw : '(' ∈ w) :
    String.ofList w ∉ linkageWords ∧ isConventionWord w = false := by
  have hnot : ∀ t : String, '(' ∉ t.toList → String.ofList w ≠ t := by
    rintro t ht rfl
    rw [String.toList_ofList] at ht
    exact ht hw
  have hlinkage : ∀ t ∈ linkageWords, '(' ∉ t.toList := by decide
  refine ⟨fun hmem => hnot _ (hlinkage _ hmem) rfl, ?_⟩
  unfold isConventionWord Convention.ofKeyword?
  -- None of the eight words has a parenthesis.
  split
  iterate 8 exact absurd ‹String.ofList w = _› (hnot _ (by decide))
  rfl

theorem open_mem_typeAndName (head : Text) :
    '(' ∈ typeAndName head ↔ '(' ∈ stripAttributes head := by
  unfold typeAndName
  rw [Text.mem_unwords (by decide), Text.mem_iff_exists_word (by decide)]
  constructor
  · rintro ⟨w, hw, hopen⟩
    exact ⟨w, (List.mem_filter.1 (List.mem_filter.1 hw).1).1, hopen⟩
  · rintro ⟨w, hw, hopen⟩
    obtain ⟨hlinkage, hconvention⟩ := stays_of_open_mem hopen
    exact ⟨w, List.mem_filter.2 ⟨List.mem_filter.2 ⟨hw, by simpa using hlinkage⟩,
      by simpa using hconvention⟩, hopen⟩

/-- A parenthesis that stays in the head stands in the return type. -/
theorem Declaration.open_mem_returnType (h : Declaration.read location head params doc = .ok d) :
    '(' ∈ d.returnType.toList ↔ '(' ∈ stripAttributes head := by
  obtain ⟨type, name, hsplit, hident, -, htype, -⟩ := Declaration.read_ok h
  have hname : '(' ∉ name := (allIdent_of_isIdentifier hident).2.not_mem (by decide)
  rw [htype, String.toList_ofList, TypeText.mem_tidy (by decide), ← open_mem_typeAndName, hsplit,
    List.mem_append, or_iff_left hname]

end Read

end NativeBindings
