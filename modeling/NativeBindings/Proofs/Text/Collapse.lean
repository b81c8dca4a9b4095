import NativeBindings.Proofs.Text.Words

/-!
# Texts that collapse side by side

A text that goes on collapses to a text that goes on, with the same characters but for blanks
(`exists_collapse_append`). Where no blank stands between two texts they collapse one by one
(`collapse_append`), and blanks between them collapse to a space (`collapse_append_blank`).
-/

namespace NativeBindings.Text

/-- A character behind a text that ends with no blank goes to its last word. -/
theorem words_concat {t : Text} {c x : Char} (ht : t.getLast? = some c) (hc : isBlank c = false)
    (hx : isBlank x = false) :
    ∃ ws w, words t = ws ++ [w] ∧ words (t ++ [x]) = ws ++ [w ++ [x]] := by
  induction hn : t.length using Nat.strongRecOn generalizing t with
  | ind n ih =>
    have hne : t ≠ [] := by
      rintro rfl
      cases ht
    -- The text is one word, or there is a blank in it and the last word lies behind that.
    by_cases hsolid : Solid t
    · have hsolid' : Solid (t ++ [x]) := by
        intro y hy
        rcases List.mem_append.1 hy with hy | hy
        · exact hsolid y hy
        · rwa [List.mem_singleton.1 hy]
      exact ⟨[], t, words_of_solid hne hsolid, words_of_solid (by simp) hsolid'⟩
    · obtain ⟨w, b, rest, rfl, -, hb⟩ := exists_eq_append_blank hsolid
      -- The text does not end with the blank, so something follows it.
      have hrest : rest.getLast? = some c := by
        cases rest with
        | nil =>
          rw [List.getLast?_concat] at ht
          rw [Option.some.inj ht, hc] at hb
          cases hb
        | cons d rest =>
          rwa [List.getLast?_append_of_ne_nil _ (by simp), List.getLast?_cons_cons] at ht
      have hshorter : rest.length < n := by
        rw [← hn, List.length_append, List.length_cons]
        omega
      obtain ⟨ws, v, hwords, hconcat⟩ := ih rest.length hshorter hrest rfl
      refine ⟨words w ++ ws, v, ?_, ?_⟩
      · rw [words_append_blank hb, hwords, List.append_assoc]
      · rw [List.append_assoc, List.cons_append, words_append_blank hb, hconcat, List.append_assoc]

/-- With one more character at its last word a text collapses as before. -/
theorem collapse_concat_word {t : Text} {c x : Char} (ht : t.getLast? = some c)
    (hc : isBlank c = false) (hx : isBlank x = false) :
    collapse (t ++ [x]) = collapse t ++ [x] := by
  obtain ⟨ws, w, hwords, hconcat⟩ := words_concat ht hc hx
  have hunwords : unwords (ws ++ [w ++ [x]]) = unwords (ws ++ [w]) ++ [x] := by
    cases ws with
    | nil => rw [List.nil_append, List.nil_append, unwords_singleton, unwords_singleton]
    | cons v ws =>
      rw [unwords_concat (by simp), unwords_concat (by simp), List.append_assoc,
        List.cons_append]
  unfold collapse
  rw [hconcat, hunwords, hwords]

/-- So it does with any text that is a word by itself. -/
theorem collapse_append_word {t s : Text} {c : Char} (ht : t.getLast? = some c)
    (hc : isBlank c = false) (hs : Solid s) : collapse (t ++ s) = collapse t ++ s := by
  induction s generalizing t c with
  | nil => rw [List.append_nil, List.append_nil]
  | cons x s ih =>
    have hx : isBlank x = false := hs x List.mem_cons_self
    have hlast : (t ++ [x]).getLast? = some x := List.getLast?_concat
    have hrest := ih hlast hx fun y hy => hs y (List.mem_cons_of_mem x hy)
    rw [List.append_assoc, List.singleton_append] at hrest
    rw [hrest, collapse_concat_word ht hc hx, List.append_assoc, List.singleton_append]

/-- A collapsed text starts as before, where that is with no blank. -/
theorem head?_collapse {y : Char} (hy : isBlank y = false) (t : Text) :
    (collapse (y :: t)).head? = some y := by
  by_cases hsolid : Solid (y :: t)
  · rw [(SingleSpaced.of_solid hsolid).collapse_eq]
    rfl
  · obtain ⟨w, b, rest, hsplit, hw, hb⟩ := exists_eq_append_blank hsolid
    -- The text does not start with the blank.
    obtain ⟨w, rfl⟩ : ∃ w', w = y :: w' := by
      cases w with
      | nil =>
        rw [(List.cons.inj hsplit).1, hb] at hy
        cases hy
      | cons a w => exact ⟨w, by rw [(List.cons.inj hsplit).1]⟩
    unfold collapse
    rw [hsplit, words_append_blank hb, words_of_solid (List.cons_ne_nil y w) hw]
    by_cases hrest : words rest = []
    · rw [hrest, List.append_nil, unwords_singleton]
      rfl
    · rw [List.singleton_append, unwords_cons hrest]
      rfl

/-- Where no blank stands between two texts they collapse one by one. -/
theorem collapse_append {t s : Text} {c : Char} (ht : t.getLast? = some c) (hc : isBlank c = false)
    (hs : ∀ x ∈ s.head?, isBlank x = false) : collapse (t ++ s) = collapse t ++ collapse s := by
  by_cases hsolid : Solid s
  · rw [collapse_append_word ht hc hsolid, (SingleSpaced.of_solid hsolid).collapse_eq]
  · -- The first word of the second text goes to the last one of the first.
    obtain ⟨w, b, rest, rfl, hw, hb⟩ := exists_eq_append_blank hsolid
    have hne : w ≠ [] := by
      rintro rfl
      rw [hs b rfl] at hb
      cases hb
    have hfirst := collapse_append_word ht hc hw
    unfold collapse at hfirst ⊢
    rw [← List.append_assoc, words_append_blank hb, words_append_blank hb, words_of_solid hne hw]
    by_cases hrest : words rest = []
    · rw [hrest, List.append_nil, List.append_nil, unwords_singleton, hfirst]
    · have hwords : words (t ++ w) ≠ [] := by
        intro hnil
        rw [hnil, unwords_nil] at hfirst
        exact hne (List.append_eq_nil_iff.1 hfirst.symm).2
      rw [unwords_append hwords hrest, hfirst, unwords_append (List.cons_ne_nil w []) hrest,
        unwords_singleton, List.append_assoc]

/-- Blanks between two texts with words collapse to a space. -/
theorem collapse_append_blank {c : Char} (hc : isBlank c) {t s : Text} (ht : words t ≠ [])
    (hs : words s ≠ []) : collapse (t ++ c :: s) = collapse t ++ ' ' :: collapse s := by
  unfold collapse
  rw [words_append_blank hc, unwords_append ht hs]

/-- A collapsed text with characters has words. -/
theorem words_ne_nil_of_mem_collapse {t : Text} {c : Char} (hc : c ∈ collapse t) :
    words t ≠ [] := by
  intro hnil
  unfold collapse at hc
  rw [hnil] at hc
  cases hc

/-- With one more character at its end a collapsed text goes on, behind a space when the text ends
with a blank. -/
theorem exists_collapse_concat (t : Text) {x : Char} (hx : isBlank x = false) :
    ∃ gap, collapse (t ++ [x]) = collapse t ++ gap ++ [x] ∧
      ((gap = [] ∧ (collapse t = [] ∨ ∃ c, t.getLast? = some c ∧ isBlank c = false)) ∨
        (gap = [' '] ∧ collapse t ≠ [])) := by
  have hsingle : words [x] = [[x]] := words_of_solid (by simp) fun y hy => by
    rwa [List.mem_singleton.1 hy]
  rcases List.eq_nil_or_concat' t with rfl | ⟨t, c, rfl⟩
  · refine ⟨[], ?_, .inl ⟨rfl, .inl rfl⟩⟩
    unfold collapse
    rw [List.nil_append, hsingle, unwords_singleton]
    rfl
  · cases hc : isBlank c with
    | false =>
      refine ⟨[], ?_, .inl ⟨rfl, .inr ⟨c, List.getLast?_concat, hc⟩⟩⟩
      rw [collapse_concat_word List.getLast?_concat hc hx, List.append_nil]
    | true =>
      -- Behind a blank the character is a word of its own.
      have hwords : words (t ++ [c] ++ [x]) = words (t ++ [c]) ++ [[x]] := by
        rw [List.append_assoc, List.singleton_append, words_append_blank hc, hsingle,
          words_concat_blank hc]
      unfold collapse
      rw [hwords]
      by_cases hnone : words (t ++ [c]) = []
      · refine ⟨[], ?_, .inl ⟨rfl, .inl (by rw [hnone]; rfl)⟩⟩
        rw [hnone, List.nil_append, unwords_singleton]
        rfl
      · refine ⟨[' '], ?_, .inr ⟨rfl, ?_⟩⟩
        · rw [unwords_concat hnone, List.append_assoc, List.singleton_append]
        · exact (SingleSpaced.unwords fun _ hw => mem_words hw).2 hnone

/-- With one more character at its end a collapsed text starts as before. -/
theorem collapse_concat (t : Text) {x : Char} (hx : isBlank x = false) :
    (collapse (t ++ [x])).getLast? = some x ∧
      trim (collapse (t ++ [x])).dropLast = collapse t := by
  obtain ⟨gap, hcollapse, hgap⟩ := exists_collapse_concat t hx
  have htrimmed := (singleSpaced_collapse t).toTrimmed
  rw [hcollapse, List.getLast?_concat, List.dropLast_concat]
  refine ⟨rfl, ?_⟩
  rcases hgap with ⟨rfl, -⟩ | ⟨rfl, hne⟩
  · rw [List.append_nil, htrimmed.trim_eq]
  · exact trim_append_blank (by decide) htrimmed hne

/-- With more text at its end a collapsed text goes on, with the same characters but for blanks. -/
theorem exists_collapse_append (t s : Text) :
    ∃ s', collapse (t ++ s) = collapse t ++ s' ∧
      s'.filter (!isBlank ·) = s.filter (!isBlank ·) := by
  -- Character by character, a blank adds nothing and another one goes to the end.
  have hgoes : ∃ s', collapse (t ++ s) = collapse t ++ s' := by
    induction s generalizing t with
    | nil => exact ⟨[], by rw [List.append_nil, List.append_nil]⟩
    | cons x s ih =>
      obtain ⟨s', hs'⟩ := ih (t ++ [x])
      rw [List.append_assoc, List.singleton_append] at hs'
      cases hx : isBlank x with
      | true =>
        refine ⟨s', ?_⟩
        have hsame : collapse (t ++ [x]) = collapse t := by
          unfold collapse
          rw [words_concat_blank hx]
        rw [hs', hsame]
      | false =>
        obtain ⟨gap, hcollapse, -⟩ := exists_collapse_concat t hx
        refine ⟨gap ++ [x] ++ s', ?_⟩
        rw [hs', hcollapse]
        simp
  obtain ⟨s', hs'⟩ := hgoes
  refine ⟨s', hs', ?_⟩
  have hfilter := filter_collapse (t ++ s)
  rw [hs', List.filter_append, List.filter_append, filter_collapse] at hfilter
  exact List.append_cancel_left hfilter

end NativeBindings.Text
