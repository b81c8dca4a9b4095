import NativeBindings.Proofs.CType.OuterQualifier
import NativeBindings.Proofs.CType.Template

/-!
# The place of `const`

In front of a name `const` is left out, and behind a name of plain words as well
(`IsPlainName.parse_const`). The name of a template goes on to the end of the text, though, and
takes `const` behind it along (`IsTemplate.parse_const`).
-/

namespace NativeBindings.CType

/-- The word with a space in front of it. -/
def constSuffix : Text := " const".toList

variable {b : Text}

/-! ## Plain names -/

/-- A text that names a type by words of identifiers and scope operators. -/
structure IsPlainName (b : Text) : Prop where
  /-- It holds words of identifiers and scope operators. -/
  chars : ∀ c ∈ b, isBlank c ∨ isIdentChar c ∨ c = ':'
  /-- Its words denote a type. -/
  isType : ∀ s, parse b ≠ .unparsed s

namespace IsPlainName

/-- A plain name is read by its words that are no qualifiers. -/
theorem parse_eq_of_words (h : IsPlainName b) {t : Text}
    (ht : ∀ c ∈ t, isBlank c ∨ isIdentChar c ∨ c = ':')
    (hwords : unqualifiedWords t = unqualifiedWords b) : parse t = parse b := by
  have hcollapse : ∀ t : Text, unqualifiedWords (Text.collapse t) = unqualifiedWords t := by
    intro t
    unfold unqualifiedWords
    rw [Text.words_collapse]
  have hsame := ofWords_congr ((hcollapse t).trans (hwords.trans (hcollapse b).symm))
  rw [← parse_eq_ofWords ht, ← parse_eq_ofWords h.chars] at hsame
  refine hsame.resolve_right fun ⟨_, hno⟩ => ?_
  have hbase : (parse b).isBase := by
    rw [parse_eq_ofWords h.chars]
    exact isBase_ofWords _
  obtain ⟨s, hs⟩ := exists_eq_unparsed hbase hno
  exact h.isType s hs

/-- On either side of a plain name `const` does not matter to the type. -/
theorem parse_const (h : IsPlainName b) :
    parse (constPrefix ++ b) = parse b ∧ parse (b ++ constSuffix) = parse b := by
  have hconst : ∀ c ∈ "const".toList, isBlank c ∨ isIdentChar c ∨ c = ':' := fun c hc =>
    .inr (.inl (allIdent_const.2 c hc))
  have hspace : isBlank ' ' ∨ isIdentChar ' ' ∨ ' ' = ':' := .inl (by decide)
  have hfront : ∀ c ∈ constPrefix, isBlank c ∨ isIdentChar c ∨ c = ':' :=
    List.forall_mem_append.2 ⟨hconst, List.forall_mem_singleton.2 hspace⟩
  have hsuffix : ∀ c ∈ constSuffix, isBlank c ∨ isIdentChar c ∨ c = ':' :=
    List.forall_mem_cons.2 ⟨hspace, hconst⟩
  have hwords : Text.words (b ++ constSuffix) = Text.words b ++ ["const".toList] := by
    rw [show b ++ constSuffix = b ++ ' ' :: "const".toList from rfl,
      Text.words_append_blank (by decide),
      Text.words_of_solid allIdent_const.1 allIdent_const.2.solid]
  -- Both texts have the words of the name and the qualifier, which is left out.
  refine ⟨h.parse_eq_of_words (List.forall_mem_append.2 ⟨hfront, h.chars⟩) ?_,
    h.parse_eq_of_words (List.forall_mem_append.2 ⟨h.chars, hsuffix⟩) ?_⟩
  · unfold unqualifiedWords
    rw [words_constPrefix, List.map_cons, List.filter_cons_of_neg (by decide)]
  · unfold unqualifiedWords
    rw [hwords, List.map_append, List.filter_append]
    simp

/-- With marks behind it, a plain name is constant behind `const` and in front of it. -/
theorem isConstant_const (h : IsPlainName b) {marks : Text} (hmarks : ∀ c ∈ marks, IsMark c) :
    isConstant (Text.collapse (constPrefix ++ b ++ marks)) = true ∧
      isConstant (Text.collapse (b ++ constSuffix ++ marks)) = true := by
  have hbracket : ∀ {c : Char}, c = '<' ∨ c = '>' → c ∉ b ++ constSuffix ++ marks := by
    intro c hc hmem
    rcases List.mem_append.1 hmem with hmem | hmem
    · rcases List.mem_append.1 hmem with hmem | hmem
      · refine not_mem_of_chars h.chars ?_ ?_ ?_ hmem <;> rcases hc with rfl | rfl <;> decide
      · rcases hc with rfl | rfl <;> exact absurd hmem (by decide)
    · rcases hc with rfl | rfl <;> rcases hmarks _ hmem with h | h <;> cases h
  have hends : EndsIdent marks := by
    intro c hc
    rcases hmarks c (List.mem_of_mem_head? hc) with rfl | rfl <;> decide
  constructor
  · -- In front of the name `const` is the first word.
    rw [List.append_assoc]
    exact isConstant_constPrefix _
  · -- Behind it, outside of brackets, `const` is a word of its own.
    rw [isConstant_collapse (hbracket (.inl rfl)) (hbracket (.inr rfl)),
      show b ++ constSuffix ++ marks = b ++ ([' '] ++ ("const".toList ++ marks)) by
        rw [List.append_assoc]; rfl, Option.isSome_iff_ne_none, Ne,
      Text.findWord?_append_gap_eq_none allIdent_const.2 allIdent_const.1 (by decide)
        (List.forall_mem_singleton.2 (by decide)),
      Text.findWord?_append hends]
    simp

/-- On either side of a plain name `const` gives the same type, with the same marks behind both. -/
theorem parse_const_append (h : IsPlainName b) {marks : Text} (hmarks : ∀ c ∈ marks, IsMark c) :
    parse (constPrefix ++ b ++ marks) = parse (b ++ constSuffix ++ marks) := by
  apply parse_append_marks_congr hmarks
  · rw [h.parse_const.1, h.parse_const.2]
  · intro ms hms
    have hconstant := h.isConstant_const fun c hc => hmarks c (hms.subset hc)
    rw [hconstant.1, hconstant.2]

end IsPlainName

/-! ## Templates -/

/-- A text that names the instance of a template. -/
structure IsTemplate (b : Text) : Prop where
  /-- A name stands in front of the arguments. -/
  name : ∃ head arguments : Text, b = head ++ '<' :: arguments ∧ '<' ∉ head ∧ Text.words head ≠ []
  /-- The arguments stand at the end. -/
  last : b.getLast? = some '>'

namespace IsTemplate

/-- The instance of a template ends with its arguments. -/
theorem getLast?_collapse (h : IsTemplate b) : (Text.collapse b).getLast? = some '>' := by
  obtain ⟨before, rfl⟩ := List.getLast?_eq_some_iff.1 h.last
  exact (Text.collapse_concat before (by decide)).1

/-- A name stands in front of the arguments however the text is spaced. -/
theorem head?_collapse (h : IsTemplate b) : (Text.collapse b).head? ≠ some '<' := by
  obtain ⟨head, arguments, rfl, hhead, hwords⟩ := h.name
  obtain ⟨s, hs, -⟩ := Text.exists_collapse_append head ('<' :: arguments)
  have hne : Text.collapse head ≠ [] :=
    (Text.SingleSpaced.unwords fun _ hw => Text.mem_words hw).2 hwords
  rw [hs, List.head?_append_of_ne_nil _ hne]
  intro hstart
  exact hhead ((Text.mem_collapse (by decide)).1 (List.mem_of_mem_head? hstart))

/-- Behind the arguments stands no mark. -/
theorem not_endsMark_collapse (h : IsTemplate b) : ¬ EndsMark (Text.collapse b) := by
  unfold EndsMark
  rw [h.getLast?_collapse]
  decide

theorem words_ne_nil (h : IsTemplate b) : Text.words b ≠ [] := by
  intro hnil
  have hlast := h.getLast?_collapse
  unfold Text.collapse at hlast
  rw [hnil] at hlast
  cases hlast

/-- However it is spaced, the text has its arguments behind a name. -/
theorem exists_collapse_eq (h : IsTemplate b) :
    ∃ head arguments : Text, Text.collapse b = head ++ '<' :: arguments ∧ '<' ∉ head ∧
      ('<' :: arguments).getLast? = some '>' := by
  have hmem : '<' ∈ Text.collapse b := by
    obtain ⟨head, arguments, rfl, -, -⟩ := h.name
    exact (Text.mem_collapse (by decide)).2 (by simp)
  obtain ⟨head, arguments, hsplit, hhead⟩ := List.eq_append_cons_of_mem hmem
  refine ⟨head, arguments, hsplit, hhead, ?_⟩
  rw [← h.getLast?_collapse, hsplit, List.getLast?_append_of_ne_nil _ (List.cons_ne_nil _ _)]

/-- The instance of a template is read as a base. -/
theorem parse_eq_ofBase (h : IsTemplate b) : parse b = ofBase (Text.collapse b) := by
  have hlast := h.getLast?_collapse
  rw [parse_eq, dropOuterQualifiers_of_none (beforeQualifier?_eq_none hlast (by decide))]
  refine ofSpelling_eq_ofBase ?_ h.not_endsMark_collapse
  rw [hlast]
  decide

/-- So is the text with `const` behind it. -/
theorem parse_append_constSuffix (h : IsTemplate b) :
    parse (b ++ constSuffix) = ofBase (Text.collapse b ++ constSuffix) := by
  have hconst : Text.words "const".toList = ["const".toList] :=
    Text.words_of_solid allIdent_const.1 allIdent_const.2.solid
  have hcollapse : Text.collapse (b ++ constSuffix) = Text.collapse b ++ constSuffix := by
    rw [show b ++ constSuffix = b ++ ' ' :: "const".toList from rfl,
      Text.collapse_append_blank (by decide) h.words_ne_nil
        (by rw [hconst]; exact List.cons_ne_nil _ _)]
    unfold Text.collapse
    rw [hconst, Text.unwords_singleton]
    rfl
  rw [CType.parse_eq_ofBase (.head _) hcollapse (Text.singleSpaced_collapse b).last
    h.not_endsMark_collapse, hcollapse]

/-- The instance of a template is a name, with `const` in front of it too. Behind it `const` belongs
to the name. -/
theorem parse_const (h : IsTemplate b) :
    ∃ name : String, parse b = .named name ∧ parse (constPrefix ++ b) = .named name ∧
      parse (b ++ constSuffix) = .named (name ++ " const") := by
  obtain ⟨head, arguments, hsplit, hhead, hlast⟩ := h.exists_collapse_eq
  have hparse := h.parse_eq_ofBase
  rw [hsplit, ofBase_of_arguments hhead] at hparse
  refine ⟨_, hparse, ?_, ?_⟩
  · -- In front `const` changes nothing, or the name would be no type.
    rcases parse_constPrefix (by rw [hparse]; rfl) h.head?_collapse with hsame | ⟨-, hno⟩
    · rw [hsame, hparse]
    · rw [hparse] at hno
      cases hno
  · -- The space in front of `const` follows the closing bracket, so it is not glued.
    have hcompact : compact ('<' :: (arguments ++ constSuffix)) =
        compact ('<' :: arguments) ++ constSuffix := by
      change compact ('<' :: arguments ++ ' ' :: "const".toList) = _
      unfold compact
      rw [Text.dropSpaces_append_space hlast rfl (by decide), if_neg (by decide),
        Text.dropSpaces_of_not_mem (s := "const".toList) (by decide), List.append_assoc]
      rfl
    rw [h.parse_append_constSuffix, hsplit, List.append_assoc, List.cons_append,
      ofBase_of_arguments hhead, hcompact, ← List.append_assoc, String.ofList_append]
    rfl

end IsTemplate

end NativeBindings.CType
