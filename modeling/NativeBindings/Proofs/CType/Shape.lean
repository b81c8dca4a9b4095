import NativeBindings.Proofs.CType.Constness

/-!
# The shape of a type

A type is a base with pointers, references and arrays around it. Marks behind a text put pointers
and references around what the text spells, and so change nothing about its base
(`base_parse_append_marks`).
-/

namespace NativeBindings.CType

/-- What the pointers, references and arrays of a type are built around. -/
def base : CType → CType
  | .pointer _ t | .reference _ t | .array t _ => base t
  | t => t

/-- Which pointers and references of a type are constant, the innermost first. -/
def levels : CType → List Bool
  | .pointer constant t | .reference constant t => levels t ++ [constant]
  | .array t _ => levels t
  | _ => []

/-- Whether nothing is put around a type. -/
def isBase : CType → Bool
  | .pointer _ _ | .reference _ _ | .array _ _ => false
  | _ => true

theorem base_of_isBase {t : CType} (h : t.isBase) : t.base = t := by
  cases t <;> first | rfl | cases h

theorem levels_of_isBase {t : CType} (h : t.isBase) : t.levels = [] := by
  cases t <;> first | rfl | cases h

/-- Of the types around which nothing is put, only what is no type at all has no pointers to it. -/
theorem exists_eq_unparsed {t : CType} (h : t.isBase) (hno : t.isUnpointed) :
    ∃ s, t = .unparsed s := by
  rcases isUnpointed_iff.1 hno with ⟨_, _, rfl⟩ | ⟨_, _, rfl⟩ | hs
  · cases h
  · cases h
  · exact hs

/-- Words denote a type that nothing is put around. -/
theorem isBase_ofWords (t : Text) : (ofWords t).isBase := by
  unfold ofWords
  dsimp only
  split
  · rfl
  · rfl
  · rfl
  · rfl
  · rfl
  · split
    · rename_i hbuiltin
      rcases ofBuiltin?_cases hbuiltin with rfl | ⟨s, rfl⟩ <;> rfl
    · rfl
    · rfl

/-- So does a text without marks at its end. -/
theorem isBase_ofBase (t : Text) : (ofBase t).isBase := by
  unfold ofBase
  split
  · rfl
  · exact isBase_ofWords t

/-- A text with neither a dimension nor a mark at its end spells a base. -/
theorem ofSpelling_eq_ofBase {s : Text} (hbracket : s.getLast? ≠ some ']') (hmark : ¬ EndsMark s) :
    ofSpelling s = ofBase s := by
  unfold ofSpelling
  split
  · exact absurd ‹_› hbracket
  · exact absurd (.inl ‹_›) hmark
  · exact absurd (.inr ‹_›) hmark
  · rfl

/-! ## Marks -/

/-- The marks of pointers and references. -/
def IsMark (c : Char) : Prop := c = '*' ∨ c = '&'

/-- A `&` behind a text makes a reference to what the text spells, constant when the text is. -/
theorem parse_concat_and (t : Text) :
    parse (t ++ ['&']) = .reference (isConstant (Text.collapse t)) (parse t) := by
  obtain ⟨hlast, htrim⟩ := Text.collapse_concat t (x := '&') (by decide)
  rw [parse_eq, dropOuterQualifiers_of_endsMark (.inr hlast)]
  unfold ofSpelling
  rw [hlast]
  simp only [htrim]
  rw [parse_congr (Text.collapse_collapse t)]

/-- A text that ends with a mark spells a pointer or a reference. -/
theorem levels_parse_of_endsMark {t : Text} (h : EndsMark t) : (parse t).levels ≠ [] := by
  rcases h with h | h
  · obtain ⟨before, rfl⟩ := List.getLast?_eq_some_iff.1 h
    rw [parse_concat_star, levels]
    simp
  · obtain ⟨before, rfl⟩ := List.getLast?_eq_some_iff.1 h
    rw [parse_concat_and, levels]
    simp

/-- Marks behind a text leave its base as it is. -/
theorem base_parse_append_marks (t : Text) {marks : Text} (hmarks : ∀ c ∈ marks, IsMark c) :
    (parse (t ++ marks)).base = (parse t).base := by
  induction marks using List.reverseRecOn with
  | nil => rw [List.append_nil]
  | append_singleton marks c ih =>
    obtain ⟨hfirst, hc⟩ := List.forall_mem_append.1 hmarks
    rw [← List.append_assoc]
    rcases hc c (List.mem_singleton_self c) with rfl | rfl
    · rw [parse_concat_star, base, ih hfirst]
    · rw [parse_concat_and, base, ih hfirst]

/-- Texts that spell one type do so with the same marks behind them, where they are constant with as
many of the marks. -/
theorem parse_append_marks_congr {t t' : Text} {marks : Text} (hmarks : ∀ c ∈ marks, IsMark c)
    (h : parse t = parse t')
    (hconstant : ∀ ms : Text, ms <+: marks →
      isConstant (Text.collapse (t ++ ms)) = isConstant (Text.collapse (t' ++ ms))) :
    parse (t ++ marks) = parse (t' ++ marks) := by
  induction marks using List.reverseRecOn with
  | nil => rwa [List.append_nil, List.append_nil]
  | append_singleton marks c ih =>
    obtain ⟨hfirst, hc⟩ := List.forall_mem_append.1 hmarks
    have hbefore := ih hfirst fun ms hms => hconstant ms (hms.trans (List.prefix_append marks [c]))
    have hlast := hconstant marks (List.prefix_append marks [c])
    rw [← List.append_assoc, ← List.append_assoc]
    rcases hc c (List.mem_singleton_self c) with rfl | rfl
    · rw [parse_concat_star, parse_concat_star, hbefore, hlast]
    · rw [parse_concat_and, parse_concat_and, hbefore, hlast]

end NativeBindings.CType
