import NativeBindings.Proofs.Marshal.Interchange

/-!
# Typedefs

A name that a typedef gives to a text may stand for it, by itself or behind a pointer, but for
strings: these are recognized by the element as it is written, before any typedef is expanded, so a
typedef hides an element that the table of strings lists, and brings out one that it does not list.
`typedef_transparent` says for each way to write the name exactly when it may stand for the text.

A short chain of typedefs is followed to its end wherever its name stands (`expandWithin_eq`), so
the expanded types agree throughout, and only the encodings of strings and the word `const` in front
of the text are left to compare.
-/

namespace NativeBindings

open CType (parse isConstant)

namespace Mapper

variable {m : Mapper} {name u : String} {t e : CType}

/-! ## Expanding -/

/-- Whether no more than the given number of steps lead down to and into each name of a type. -/
def settlesWithin (typedefs : List (String × String)) : Nat → CType → Bool
  | 0, _ => false
  | steps + 1, .named name =>
    match typedefs.lookup name with
    | some text => settlesWithin typedefs steps (parse text.toList)
    | none => true
  | steps + 1, .pointer _ t | steps + 1, .reference _ t | steps + 1, .array t _ =>
    settlesWithin typedefs steps t
  | _ + 1, _ => true

/-- From a name that is listed a step leads to its text. -/
theorem settlesWithin_succ_named {typedefs : List (String × String)}
    (h : typedefs.lookup name = some u) (steps : Nat) :
    settlesWithin typedefs (steps + 1) (.named name) =
      settlesWithin typedefs steps (parse u.toList) := by
  rw [settlesWithin, h]

theorem expandWithin_succ_named {typedefs : List (String × String)}
    (h : typedefs.lookup name = some u) (fuel : Nat) :
    expandWithin typedefs (fuel + 1) (.named name) =
      expandWithin typedefs fuel (parse u.toList) := by
  rw [expandWithin, h]

/-- Behind the end of every chain further steps change nothing. -/
theorem expandWithin_of_settlesWithin {typedefs : List (String × String)} {steps fuel : Nat}
    (h : settlesWithin typedefs steps t) (hfuel : steps ≤ fuel) :
    expandWithin typedefs fuel t = expandWithin typedefs steps t := by
  induction steps generalizing t fuel with
  | zero => cases h
  | succ steps ih =>
    -- There is a step left as long as the chain has not ended.
    obtain ⟨fuel, rfl⟩ := Nat.exists_eq_add_of_le' (Nat.lt_of_lt_of_le (Nat.succ_pos steps) hfuel)
    have hless : steps ≤ fuel := Nat.le_of_succ_le_succ hfuel
    cases t with
    | named name =>
      unfold settlesWithin at h
      unfold expandWithin
      cases hname : typedefs.lookup name with
      | none => rfl
      | some text =>
        rw [hname] at h
        exact ih h hless
    | pointer constant t => exact congrArg (CType.pointer constant) (ih h hless)
    | reference constant t => exact congrArg (CType.reference constant) (ih h hless)
    | array t length => exact congrArg (CType.array · length) (ih h hless)
    | _ => rfl

/-- With enough steps a type that settles is expanded to the same type. -/
theorem expandWithin_eq {steps fuel : Nat} (h : settlesWithin m.policy.typedefs steps t)
    (hsteps : steps ≤ expansionSteps) (hfuel : steps ≤ fuel) :
    expandWithin m.policy.typedefs fuel t = m.expand t := by
  unfold expand
  rw [expandWithin_of_settlesWithin h hfuel, expandWithin_of_settlesWithin h hsteps]

/-- A pointer takes one of the steps, so what it leads to is expanded when that settles before. -/
theorem expand_pointer_of_settles {steps : Nat} (h : settlesWithin m.policy.typedefs steps t)
    (hsteps : steps < expansionSteps) (constant : Bool) :
    m.expand (.pointer constant t) = .pointer constant (m.expand t) := calc
  m.expand (.pointer constant t) =
      .pointer constant (expandWithin m.policy.typedefs (expansionSteps - 1) t) := rfl
  _ = .pointer constant (m.expand t) := by
    rw [expandWithin_eq h (Nat.le_of_lt hsteps) (Nat.le_sub_one_of_lt hsteps)]

/-! ## Types without pointers to them -/

/-- Expanding makes no type of a reference or an array to which there are pointers. -/
theorem isUnpointed_expandWithin (typedefs : List (String × String)) (fuel : Nat)
    (ht : t.isUnpointed) : (expandWithin typedefs fuel t).isUnpointed := by
  cases fuel with
  | zero => exact ht
  | succ fuel =>
    rcases CType.isUnpointed_iff.1 ht with ⟨_, _, rfl⟩ | ⟨_, _, rfl⟩ | ⟨_, rfl⟩ <;> rfl

/-- Such a type is no element of strings, and no rule knows a pointer to it. -/
theorem encoding?_of_isUnpointed (ht : t.isUnpointed) : m.encoding? t = none := by
  rcases CType.isUnpointed_iff.1 ht with ⟨_, _, rfl⟩ | ⟨_, _, rfl⟩ | ⟨_, rfl⟩ <;> rfl

theorem boundType_of_isUnpointed (constant : Bool) (ht : t.isUnpointed) :
    m.boundType none (.pointer constant t) = ("IntPtr", .opaquePointer) := by
  rcases CType.isUnpointed_iff.1 ht with ⟨_, _, rfl⟩ | ⟨_, _, rfl⟩ | ⟨_, rfl⟩ <;> rfl

/-! ## Texts without tags -/

/-- The encoding of the strings that a parameter of the type may receive. -/
def receivedEncoding? (m : Mapper) : CType → Option Encoding
  | .pointer false element => m.encoding? element
  | _ => none

/-- A parameter receives no strings through a pointer to something constant or to no element of
strings. -/
theorem receivedEncoding?_pointer_eq_none_iff {constant : Bool} :
    m.receivedEncoding? (.pointer constant e) = none ↔
      constant = true ∨ m.encoding? e = none := by
  cases constant with
  | true => exact ⟨fun _ => .inl rfl, fun _ => rfl⟩
  | false => exact ⟨.inr, fun hor => hor.resolve_left nofun⟩

/-- Neither the mark of a pointer nor `const` completes a tag. -/
theorem untagged_pointer {t : String}
    (ht : Tag.occurs m.policy.arrayTag.toList t.toList = false) :
    Tag.occurs m.policy.arrayTag.toList (t ++ "*").toList = false := by
  rw [String.toList_append]
  exact (Tag.occurs_concat (by decide) t.toList).trans ht

theorem untagged_constant {t : String}
    (ht : Tag.occurs m.policy.arrayTag.toList t.toList = false) :
    Tag.occurs m.policy.arrayTag.toList ("const " ++ t).toList = false := by
  rw [String.toList_append, Tag.occurs_append_left (by decide), ht]

/-- Texts without tags are interchangeable when the types are that they spell. -/
theorem interchangeable_iff_of_untagged {t t' : String}
    (ht : Tag.occurs m.policy.arrayTag.toList t.toList = false)
    (ht' : Tag.occurs m.policy.arrayTag.toList t'.toList = false) :
    Interchangeable m t t' ↔
      m.boundType (m.stringEncoding? (parse t.toList)) (m.expand (parse t.toList)) =
        m.boundType (m.stringEncoding? (parse t'.toList)) (m.expand (parse t'.toList)) ∧
      (m.policy.outBuffer = .never ∨
        m.receivedEncoding? (parse t.toList) = m.receivedEncoding? (parse t'.toList)) := by
  have hreceived : ∀ {t : String}, Tag.occurs m.policy.arrayTag.toList t.toList = false →
      m.outEncoding? t = m.receivedEncoding? (parse t.toList) := by
    intro t ht
    unfold outEncoding? receivedEncoding?
    refine (if_neg (ne_true_of_eq_false ht)).trans ?_
    cases parse t.toList with
    | pointer constant element => cases constant <;> rfl
    | _ => rfl
  rw [interchangeable_iff, bound_mapParam ht, bound_mapParam ht', hreceived ht, hreceived ht']

/-! ## Typedefs -/

/-- A name of a type and the text that a typedef gives it. -/
structure Typedef (m : Mapper) (name u : String) : Prop where
  /-- The name is an identifier. -/
  isIdentifier : isIdentifier name.toList
  /-- It is no word of the language. -/
  parse_name : parse name.toList = .named name
  /-- The table has the text under the name. -/
  lookup : m.policy.typedefs.lookup name = some u
  /-- The chain of typedefs that starts with the name ends, and a step is left for a pointer. -/
  settles : settlesWithin m.policy.typedefs (expansionSteps - 1) (.named name)
  /-- The text has no tag. -/
  untagged : Tag.occurs m.policy.arrayTag.toList u.toList = false
  /-- The name is no element of strings of its own. -/
  unlisted : m.policy.strings.lookup name = none

namespace Typedef

variable (h : Typedef m name u)
include h

theorem untagged_name : Tag.occurs m.policy.arrayTag.toList name.toList = false :=
  Tag.occurs_of_not_mem ((allIdent_of_isIdentifier h.isIdentifier).2.not_mem (by decide))

/-- The chain behind the name is a step shorter. -/
theorem settles_text : settlesWithin m.policy.typedefs (expansionSteps - 2) (parse u.toList) := by
  have hsettles := h.settles
  rwa [show expansionSteps - 1 = expansionSteps - 2 + 1 from rfl,
    settlesWithin_succ_named h.lookup] at hsettles

/-- The name is expanded to what its text is expanded to. -/
theorem expand_name : m.expand (.named name) = m.expand (parse u.toList) := calc
  m.expand (.named name) =
      expandWithin m.policy.typedefs (expansionSteps - 1) (parse u.toList) :=
    expandWithin_succ_named h.lookup _
  _ = m.expand (parse u.toList) := expandWithin_eq h.settles_text (by decide) (by decide)

/-- Behind a pointer it is as well. -/
theorem expand_pointer (constant : Bool) :
    m.expand (.pointer constant (.named name)) =
      .pointer constant (m.expand (parse u.toList)) := by
  rw [expand_pointer_of_settles h.settles (by decide), h.expand_name]

/-- And so is its text. -/
theorem expand_pointer_text (constant : Bool) :
    m.expand (.pointer constant (parse u.toList)) =
      .pointer constant (m.expand (parse u.toList)) :=
  expand_pointer_of_settles h.settles_text (by decide) constant

/-- Where the text spells a pointer, what it leads to is expanded. -/
theorem expand_of_pointer {constant : Bool} {e : CType}
    (hu : parse u.toList = .pointer constant e) :
    m.expand (parse u.toList) = .pointer constant (m.expand e) := by
  have hsettles := h.settles_text
  rw [hu] at hsettles ⊢
  have hinner : settlesWithin m.policy.typedefs (expansionSteps - 3) e := hsettles
  exact expand_pointer_of_settles hinner (by decide) constant

/-! ### By itself -/

/-- The name by itself points to strings when what it is expanded to does. -/
theorem stringEncoding?_name :
    m.stringEncoding? (.named name) =
      match m.expand (parse u.toList) with
      | .pointer _ target => m.encoding? target
      | _ => none := by
  unfold stringEncoding?
  rw [h.expand_name]
  rfl

/-- The name may stand for a text that spells no pointer. -/
theorem interchangeable_of_not_isPointer (hu : (parse u.toList).isPointer = false) :
    Interchangeable m name u := by
  -- Strings are known by pointers only, so neither text is one.
  have hencoding : m.stringEncoding? (.named name) = m.stringEncoding? (parse u.toList) := by
    rw [h.stringEncoding?_name]
    unfold stringEncoding?
    cases hp : parse u.toList with
    | pointer constant e =>
      rw [hp] at hu
      cases hu
    | _ => rfl
  have hreceived : m.receivedEncoding? (parse u.toList) = none := by
    cases hp : parse u.toList with
    | pointer constant e =>
      rw [hp] at hu
      cases hu
    | _ => rfl
  rw [interchangeable_iff_of_untagged h.untagged_name h.untagged, h.parse_name, hencoding,
    h.expand_name, hreceived]
  exact ⟨rfl, .inr rfl⟩

/-- The name and a text that spells a pointer are interchangeable when the pointer is to the same
strings before and after its typedefs are expanded, and strings are not written through it. -/
theorem interchangeable_iff_of_pointer {constant : Bool} {e : CType}
    (hu : parse u.toList = .pointer constant e) :
    Interchangeable m name u ↔
      m.boundType (m.encoding? (m.expand e)) (.pointer constant (m.expand e)) =
        m.boundType (m.encoding? e) (.pointer constant (m.expand e)) ∧
      (m.policy.outBuffer = .never ∨ constant = true ∨ m.encoding? e = none) := by
  have hexpand := h.expand_of_pointer hu
  have hname : m.stringEncoding? (.named name) = m.encoding? (m.expand e) := by
    rw [h.stringEncoding?_name, hexpand]
  have htext : m.stringEncoding? (.pointer constant e) = m.encoding? e := rfl
  have hreceived : m.receivedEncoding? (.named name) = none := rfl
  rw [interchangeable_iff_of_untagged h.untagged_name h.untagged, h.parse_name, h.expand_name,
    hexpand, hu, hname, htext, hreceived, eq_comm (a := none),
    receivedEncoding?_pointer_eq_none_iff]

/-! ### Behind a pointer -/

/-- Collapsing an identifier changes nothing. -/
theorem collapse_name : Text.collapse name.toList = name.toList :=
  (Text.SingleSpaced.of_solid (allIdent_of_isIdentifier h.isIdentifier).2.solid).collapse_eq

/-- With a mark behind it the name spells a pointer to the name. -/
theorem parse_pointer : parse (name ++ "*").toList = .pointer false (.named name) := by
  have hne : name.toList ≠ "const".toList := by
    intro hconst
    have hparse : parse "const".toList = .unparsed "const" := by decide +kernel
    rw [← hconst, h.parse_name] at hparse
    cases hparse
  have hconstant : isConstant name.toList = false :=
    CType.isConstant_of_allIdent (allIdent_of_isIdentifier h.isIdentifier).2 hne
  rw [String.toList_append]
  exact (CType.parse_concat_star name.toList).trans (by
    rw [h.collapse_name, hconstant, h.parse_name])

/-- With `const` in front it spells a pointer to something constant. -/
theorem parse_constant_pointer :
    parse ("const " ++ name ++ "*").toList = .pointer true (.named name) := by
  obtain ⟨hne, hident⟩ := allIdent_of_isIdentifier h.isIdentifier
  have hbracket : (Text.collapse name.toList).head? ≠ some '<' := by
    rw [h.collapse_name]
    intro hhead
    exact hident.not_mem (by decide) (List.mem_of_head? hhead)
  have hpointer : (parse name.toList).isPointer = false := by rw [h.parse_name]; rfl
  have hconst : parse (CType.constPrefix ++ name.toList) = .named name := by
    rcases CType.parse_constPrefix hpointer hbracket with heq | ⟨-, hunpointed⟩
    · rw [heq, h.parse_name]
    · rw [h.parse_name] at hunpointed
      cases hunpointed
  rw [String.toList_append, String.toList_append]
  exact (CType.parse_concat_star (CType.constPrefix ++ name.toList)).trans (by
    rw [CType.isConstant_constPrefix, hconst])

/-- Pointers to the name and pointers to its text. -/
theorem interchangeable_pointer_iff :
    Interchangeable m (name ++ "*") (u ++ "*") ↔
      m.boundType none (.pointer false (m.expand (parse u.toList))) =
        m.boundType (m.encoding? (parse u.toList))
          (.pointer (isConstant (Text.collapse u.toList)) (m.expand (parse u.toList))) ∧
      (m.policy.outBuffer = .never ∨ isConstant (Text.collapse u.toList) = true ∨
        m.encoding? (parse u.toList) = none) := by
  have hparse : parse (u ++ "*").toList =
      .pointer (isConstant (Text.collapse u.toList)) (parse u.toList) := by
    rw [String.toList_append]
    exact CType.parse_concat_star u.toList
  have hname : m.stringEncoding? (.pointer false (.named name)) = none := h.unlisted
  have htext : ∀ constant : Bool,
      m.stringEncoding? (.pointer constant (parse u.toList)) = m.encoding? (parse u.toList) :=
    fun _ => rfl
  have hreceived : m.receivedEncoding? (.pointer false (.named name)) = none := h.unlisted
  rw [interchangeable_iff_of_untagged (untagged_pointer h.untagged_name)
    (untagged_pointer h.untagged), h.parse_pointer, hparse, hname, htext, hreceived,
    h.expand_pointer, h.expand_pointer_text, eq_comm (a := none),
    receivedEncoding?_pointer_eq_none_iff]

/-- Pointers to the name and to its text, both made constant, when the text spells no pointer. -/
theorem interchangeable_constant_pointer_iff (hu : (parse u.toList).isPointer = false)
    (hbracket : (Text.collapse u.toList).head? ≠ some '<') :
    Interchangeable m ("const " ++ name ++ "*") ("const " ++ u ++ "*") ↔
      m.encoding? (parse u.toList) = none := by
  have hparse : parse ("const " ++ u ++ "*").toList =
      .pointer true (parse (CType.constPrefix ++ u.toList)) := by
    rw [String.toList_append, String.toList_append, ← CType.isConstant_constPrefix u.toList]
    exact CType.parse_concat_star (CType.constPrefix ++ u.toList)
  have hname : m.stringEncoding? (.pointer true (.named name)) = none := h.unlisted
  have htext : ∀ t : CType, m.stringEncoding? (.pointer true t) = m.encoding? t := fun _ => rfl
  have hreceived : ∀ t : CType, m.receivedEncoding? (.pointer true t) = none := fun _ => rfl
  rw [interchangeable_iff_of_untagged (untagged_pointer (untagged_constant h.untagged_name))
    (untagged_pointer (untagged_constant h.untagged)), h.parse_constant_pointer, hparse, hname,
    htext, hreceived, hreceived, h.expand_pointer]
  rcases CType.parse_constPrefix hu hbracket with heq | ⟨hconst, hunpointed⟩
  · -- The text with `const` in front spells the same type, and only strings are told apart.
    rw [heq, h.expand_pointer_text, boundType_constant_iff, eq_comm (a := none)]
    exact and_iff_left (.inr rfl)
  · -- No rule knows a pointer to either of them.
    have hexpand : m.expand (.pointer true (parse (CType.constPrefix ++ u.toList))) =
        .pointer true (expandWithin m.policy.typedefs (expansionSteps - 1)
          (parse (CType.constPrefix ++ u.toList))) := rfl
    have hunpointed' : (m.expand (parse u.toList)).isUnpointed :=
      isUnpointed_expandWithin _ _ hunpointed
    rw [encoding?_of_isUnpointed hunpointed, encoding?_of_isUnpointed hconst, hexpand,
      boundType_of_isUnpointed true hunpointed',
      boundType_of_isUnpointed true (isUnpointed_expandWithin _ _ hconst)]
    exact ⟨fun _ => rfl, fun _ => ⟨rfl, .inr rfl⟩⟩

end Typedef

/-- A name that a typedef gives to a text may stand for it by itself when the text spells no
pointer; when it spells a pointer, exactly when the pointer leads to the same strings before and
after its typedefs are expanded and none are written through it. Behind `const` and a pointer it may
exactly when the text is no element of strings, and behind a pointer alone when moreover the text is
not constant itself or it does not matter whether the pointer can be written through. -/
theorem typedef_transparent (h : Typedef m name u) :
    ((parse u.toList).isPointer = false → Interchangeable m name u) ∧
    (∀ e, parse u.toList = .pointer true e →
      (Interchangeable m name u ↔ m.encoding? (m.expand e) = m.encoding? e)) ∧
    (∀ e, parse u.toList = .pointer false e → m.encoding? (m.expand e) = m.encoding? e →
      (Interchangeable m name u ↔ m.policy.outBuffer = .never ∨ m.encoding? e = none)) ∧
    ((parse u.toList).isPointer = false → (Text.collapse u.toList).head? ≠ some '<' →
      (Interchangeable m ("const " ++ name ++ "*") ("const " ++ u ++ "*") ↔
        m.encoding? (parse u.toList) = none)) ∧
    (m.encoding? (parse u.toList) = none →
      (Interchangeable m (name ++ "*") (u ++ "*") ↔
        isConstant (Text.collapse u.toList) = false ∨
          m.isBuffered (m.expand (parse u.toList)) = false)) ∧
    (m.encoding? (parse u.toList) ≠ none → m.policy.outBuffer ≠ .never →
      ¬ Interchangeable m (name ++ "*") (u ++ "*")) := by
  refine ⟨h.interchangeable_of_not_isPointer, fun e hu => ?_, fun e hu hencoding => ?_,
    h.interchangeable_constant_pointer_iff, fun hnone => ?_, fun hsome hnever => ?_⟩
  · rw [h.interchangeable_iff_of_pointer hu, boundType_constant_iff]
    exact and_iff_left (.inr (.inl rfl))
  · rw [h.interchangeable_iff_of_pointer hu, hencoding]
    simp
  · rw [h.interchangeable_pointer_iff, hnone, and_iff_left (.inr (.inr rfl))]
    cases isConstant (Text.collapse u.toList) with
    | false => exact ⟨fun _ => .inl rfl, fun _ => rfl⟩
    | true =>
      rw [boundType_pointer_none_iff]
      exact ⟨.inr, fun hor => hor.resolve_left nofun⟩
  · rw [h.interchangeable_pointer_iff]
    rintro ⟨hbound, hbuffer⟩
    -- Nothing is written through the pointer to the text, so that one is a string.
    have hconstant := (hbuffer.resolve_left hnever).resolve_right hsome
    obtain ⟨encoding, hencoding⟩ := Option.ne_none_iff_exists'.1 hsome
    rw [hconstant, hencoding, boundType_pointer_some, if_pos rfl] at hbound
    exact boundType_pointer_none_ne m false _ _ _ hbound

/-- A truth value of the platform may be written as the integer that it is. -/
theorem typedef_transparent_truth :
    Interchangeable ⟨.default, .cdecl⟩ "BOOL" "int" ∧
      Interchangeable ⟨.default, .cdecl⟩ "const BOOL*" "const int*" ∧
      Interchangeable ⟨.default, .cdecl⟩ "BOOL*" "int*" := by
  have hparse : parse "int".toList = .scalar .int32 := by decide +kernel
  have htypedef : Typedef ⟨.default, .cdecl⟩ "BOOL" "int" :=
    { isIdentifier := by decide
      parse_name := by decide +kernel
      lookup := by decide
      settles := by decide +kernel
      untagged := Tag.occurs_of_not_mem (by decide)
      unlisted := by decide }
  obtain ⟨hvalue, -, -, hconstant, hpointer, -⟩ := typedef_transparent htypedef
  rw [hparse] at hvalue hconstant hpointer
  exact ⟨hvalue rfl, (hconstant rfl (by decide)).2 rfl, (hpointer rfl).2 (.inl (by decide +kernel))⟩

/-- A typedef hides an element of strings: a function takes a string when the element is written as
such, and a pointer to a byte when it is written by a name that is listed nowhere else. -/
theorem typedef_hides_string :
    let m : Mapper := ⟨{ MappingPolicy.default with typedefs := [("CH", "char")] }, .cdecl⟩
    let f (text : String) : Declaration :=
      { location := default, returnType := "void", name := "f", params := [⟨text, "text"⟩]
        convention := none, doc := none }
    m.policy.typedefs.lookup "CH" = some "char" ∧ m.policy.strings.lookup "CH" = none ∧
      m.isEnum (.named "CH") = false ∧ m.isOpaque (.named "CH") = false ∧
      m.valueStruct? (.named "CH") = none ∧
      ((m.signature (f "const CH*")).params.map (·.type.bound)) =
        [("byte", .buffer .single false)] ∧
      ((m.signature (f "const char*")).params.map (·.type.bound)) = [("string", .stringIn .ansi)] ∧
      (m.signature (f "const CH*")).sameBinding (m.signature (f "const char*")) = false := by
  decide +kernel

end Mapper

end NativeBindings
