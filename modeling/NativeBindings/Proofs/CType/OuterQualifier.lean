import NativeBindings.Proofs.CType.Shape

/-!
# Qualifiers behind the last mark

A qualifier behind a pointer or a reference belongs to it and not to what it leads to, so it does
not matter to the type. The text that is left without the qualifier has to end with the mark,
though, and behind several qualifiers it ends with another qualifier. Then none of them is dropped,
and the text is read as a base whose words hold the mark (`parse_append_qualifiers_iff`).
-/

namespace NativeBindings.CType

/-- A text that ends with a mark does so when it is collapsed. -/
theorem EndsMark.collapse {t : Text} (h : EndsMark t) : EndsMark (Text.collapse t) := by
  rcases h with h | h
  · obtain ⟨before, rfl⟩ := List.getLast?_eq_some_iff.1 h
    exact .inl (Text.collapse_concat before (by decide)).1
  · obtain ⟨before, rfl⟩ := List.getLast?_eq_some_iff.1 h
    exact .inr (Text.collapse_concat before (by decide)).1

/-- The qualifier behind a text is dropped when the text ends with a mark, and stays otherwise. -/
theorem dropOuterQualifiers_append_qualifier {rest w : Text} (hw : w ∈ qualifiers)
    (hrest : ∀ c ∈ rest.getLast?, isBlank c = false) :
    (EndsMark rest → dropOuterQualifiers (rest ++ ' ' :: w) = dropOuterQualifiers rest) ∧
      (¬ EndsMark rest → dropOuterQualifiers (rest ++ ' ' :: w) = rest ++ ' ' :: w) := by
  have hbefore : beforeQualifier? (rest ++ ' ' :: w) = some (rest ++ [' ']) :=
    beforeQualifier?_eq_some_iff.2 ⟨w, hw, List.append_cons rest ' ' w⟩
  have htrim : Text.trimRight (rest ++ [' ']) = rest := by
    rw [Text.trimRight_append_blank (by decide), Text.trimRight_eq hrest]
  have hdrop := dropOuterQualifiers_of_some hbefore
  rwa [htrim] at hdrop

/-- A text that ends with a qualifier and keeps it is read as a base. -/
theorem parse_eq_ofBase {t rest w : Text} (hw : w ∈ qualifiers)
    (ht : Text.collapse t = rest ++ ' ' :: w) (hrest : ∀ c ∈ rest.getLast?, isBlank c = false)
    (hmark : ¬ EndsMark rest) : parse t = ofBase (Text.collapse t) := by
  obtain ⟨hne, -, hend⟩ := qualifier_facts hw
  obtain ⟨c, hc, hident⟩ := exists_getLast?_qualifier hw
  rw [parse_eq, ht, (dropOuterQualifiers_append_qualifier hw hrest).2 hmark]
  apply ofSpelling_eq_ofBase
  · rw [List.append_cons, List.getLast?_append_of_ne_nil _ hne, hc]
    rintro ⟨⟩
    exact absurd hident (by decide)
  · rw [List.append_cons, endsMark_append hne]
    exact hend

variable {t q : Text}

/-- Behind a text that ends with a mark a single qualifier is dropped. -/
theorem parse_append_one_qualifier (ht : EndsMark t) {w : Text} (hw : w ∈ qualifiers)
    (hq : Text.words q = [w]) : parse (t ++ ' ' :: q) = parse t := by
  have hmark := ht.collapse
  have hcollapse : Text.collapse (t ++ ' ' :: q) = Text.collapse t ++ ' ' :: w := by
    rw [Text.collapse_append_blank (by decide) (ne_of_apply_ne Text.unwords hmark.ne_nil)
      (by rw [hq]; exact List.cons_ne_nil _ _)]
    unfold Text.collapse
    rw [hq, Text.unwords_singleton]
  have hdrop := dropOuterQualifiers_append_qualifier hw (Text.singleSpaced_collapse t).last
  rw [parse_eq, hcollapse, hdrop.1 hmark, ← parse_eq]

/-- Behind a text that ends with a mark several qualifiers all stay, and the mark is no mark any
more. -/
theorem parse_append_more_qualifiers (ht : EndsMark t) {vs : List Text} {v w : Text}
    (hv : v ∈ qualifiers) (hw : w ∈ qualifiers) (hq : Text.words q = vs ++ [v] ++ [w]) :
    parse (t ++ ' ' :: q) = ofBase (Text.collapse (t ++ ' ' :: q)) := by
  have hmark := ht.collapse
  obtain ⟨hne, -, hend⟩ := qualifier_facts hv
  -- What is left without the last qualifier ends with the one in front of it.
  obtain ⟨front, hfront⟩ : ∃ front, Text.unwords (vs ++ [v]) = front ++ v := by
    cases vs with
    | nil => exact ⟨[], Text.unwords_singleton v⟩
    | cons u vs =>
      exact ⟨Text.unwords (u :: vs) ++ [' '], by
        rw [Text.unwords_concat (List.cons_ne_nil u vs), List.append_assoc, List.singleton_append]⟩
  have hcollapse : Text.collapse (t ++ ' ' :: q) =
      (Text.collapse t ++ ' ' :: front ++ v) ++ ' ' :: w := by
    rw [Text.collapse_append_blank (by decide) (ne_of_apply_ne Text.unwords hmark.ne_nil)
      (by rw [hq]; simp)]
    unfold Text.collapse
    rw [hq, Text.unwords_concat (by simp), hfront]
    simp
  -- In front of the last qualifier stands neither a blank nor a mark.
  have hlast : ∀ c ∈ (Text.collapse t ++ ' ' :: front ++ v).getLast?, isBlank c = false := by
    obtain ⟨c, hc, hident⟩ := exists_getLast?_qualifier hv
    rw [List.getLast?_append_of_ne_nil _ hne, hc]
    rintro _ ⟨⟩
    exact not_isBlank_of_isIdentChar hident
  refine parse_eq_ofBase hw hcollapse hlast fun hmark => ?_
  exact hend ((endsMark_append hne).1 hmark)

/-- Behind a text that ends with a mark, qualifiers do not matter exactly when there is one. With
more of them, no pointer or reference is left. -/
theorem parse_append_qualifiers_iff (ht : EndsMark t) (hne : Text.words q ≠ [])
    (hq : ∀ w ∈ Text.words q, w ∈ qualifiers) :
    (parse (t ++ ' ' :: q) = parse t ↔ (Text.words q).length = 1) ∧
      ((parse (t ++ ' ' :: q)).levels = [] ↔ 1 < (Text.words q).length) := by
  have hlevels := levels_parse_of_endsMark ht
  obtain ⟨ws, w, hws⟩ := (List.eq_nil_or_concat' (Text.words q)).resolve_left hne
  have hw : w ∈ qualifiers := hq w (by rw [hws]; simp)
  rcases List.eq_nil_or_concat' ws with rfl | ⟨vs, v, rfl⟩
  · -- One qualifier is dropped.
    have hone := parse_append_one_qualifier ht hw hws
    rw [hone, hws]
    exact ⟨iff_of_true rfl rfl, iff_of_false hlevels (by simp)⟩
  · have hv : v ∈ qualifiers := hq v (by rw [hws]; simp)
    -- Of more than one the last is dropped, and what is left is read as a base.
    have hmore := parse_append_more_qualifiers ht hv hw hws
    have hnone := levels_of_isBase (isBase_ofBase (Text.collapse (t ++ ' ' :: q)))
    rw [← hmore] at hnone
    have hlength : 1 < (Text.words q).length := by
      rw [hws]
      simp
    exact ⟨iff_of_false (fun heq => hlevels (by rw [← heq, hnone])) (by omega),
      iff_of_true hnone hlength⟩

/-- A volatile pointer behind a reference to constant characters. -/
theorem parse_append_qualifiers_iff_one :
    EndsMark "const char&*".toList ∧ Text.words "volatile".toList ≠ [] ∧
      (∀ w ∈ Text.words "volatile".toList, w ∈ qualifiers) ∧
      parse ("const char&*".toList ++ ' ' :: "volatile".toList) = parse "const char&*".toList := by
  have ht : EndsMark "const char&*".toList := .inl rfl
  have hne : Text.words "volatile".toList ≠ [] := by decide +kernel
  have hq : ∀ w ∈ Text.words "volatile".toList, w ∈ qualifiers := by decide +kernel
  exact ⟨ht, hne, hq, (parse_append_qualifiers_iff ht hne hq).1.2 (by decide +kernel)⟩

/-- Two qualifiers make a name of the pointer. -/
theorem parse_two_qualifiers :
    EndsMark "char*".toList ∧
      Text.words "const volatile".toList = ["const".toList, "volatile".toList] ∧
      parse ("char*".toList ++ ' ' :: "const volatile".toList) = .named "char*" ∧
      parse ("char*".toList ++ ' ' :: "const volatile".toList) ≠ parse "char*".toList := by
  exact ⟨.inl rfl, by decide +kernel, by decide +kernel, by decide +kernel⟩

end NativeBindings.CType
