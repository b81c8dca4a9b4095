import NativeBindings.Proofs.Text.Word

/-!
# The first word that stands alone

The search for a pattern gives its first occurrence (`length_le_of_splitFirst?`). After an
occurrence of an identifier that does not stand alone the search for it goes on behind it, and
misses nothing: an occurrence that overlaps the one it has passed would have an identifier character
in front. So it gives the first occurrence that stands alone (`findWord?_eq_some_iff`), and searches
two texts with a character of no identifier between them one after the other (`findWord?_break`).
-/

namespace NativeBindings

/-- No identifier character stands at the end of a text. -/
def StartsIdent (t : Text) : Prop := ∀ c ∈ t.getLast?, isIdentChar c = false

/-- Behind nothing an identifier starts. -/
theorem startsIdent_nil : StartsIdent [] := fun _ hc => by cases hc

/-- A last character that belongs to no identifier lets one start behind it. -/
theorem startsIdent_concat (t : Text) {c : Char} (hc : isIdentChar c = false) :
    StartsIdent (t ++ [c]) := by
  intro d hd
  rw [List.getLast?_concat] at hd
  cases hd
  exact hc

/-- The last character of a text that is not empty decides. -/
theorem startsIdent_append {s t : Text} (ht : t ≠ []) : StartsIdent (s ++ t) ↔ StartsIdent t := by
  unfold StartsIdent
  rw [List.getLast?_append_of_ne_nil s ht]

/-- Behind an identifier character none starts. -/
theorem AllIdent.not_startsIdent {t : Text} (h : AllIdent t) (ht : t ≠ []) : ¬ StartsIdent t := by
  intro hstarts
  have hlast := hstarts (t.getLast ht) (List.getLast?_eq_some_getLast ht)
  rw [h _ (List.getLast_mem ht)] at hlast
  cases hlast

/-- In front of a character that belongs to no identifier a text ends as it does alone. -/
theorem endsIdent_append_break (t u : Text) {c : Char} (hc : isIdentChar c = false) :
    EndsIdent (t ++ c :: u) ↔ EndsIdent t := by
  cases t with
  | nil =>
    unfold EndsIdent
    simp [hc]
  | cons d t => rfl

/-- Behind a character that belongs to no identifier a text starts as it does alone. -/
theorem startsIdent_append_break (t u : Text) {c : Char} (hc : isIdentChar c = false) :
    StartsIdent (t ++ c :: u) ↔ StartsIdent u := by
  by_cases hu : u = []
  · subst hu
    exact iff_of_true (startsIdent_concat t hc) startsIdent_nil
  · rw [List.append_cons, startsIdent_append hu]

namespace Text

/-- A text stands alone when an identifier may start and end around it. -/
theorem standsAlone_iff {before after : Text} :
    standsAlone before after ↔ StartsIdent before ∧ EndsIdent after := by
  unfold standsAlone StartsIdent EndsIdent
  cases before.getLast? <;> cases after.head? <;> simp

/-- What the search gives starts no later than any occurrence. -/
theorem length_le_of_splitFirst? {p t before after b a : Text}
    (h : splitFirst? p t = some (before, after)) (hsplit : t = b ++ p ++ a) :
    before.length ≤ b.length := by
  induction t generalizing before b with
  | nil =>
    have hempty := eq_of_splitFirst? h
    simp only [List.nil_eq, List.append_eq_nil_iff] at hempty
    rw [hempty.1.1]
    exact Nat.zero_le _
  | cons c cs ih =>
    rw [splitFirst?] at h
    split at h
    · cases h
      exact Nat.zero_le _
    · rename_i hstart
      obtain ⟨⟨before', after'⟩, hrest, heq⟩ := Option.map_eq_some_iff.1 h
      obtain ⟨rfl, rfl⟩ := Prod.mk.inj heq
      cases b with
      | nil =>
        -- The text does not start with the pattern.
        rw [hsplit, List.nil_append, isPrefixOf?_append] at hstart
        cases hstart
      | cons d b =>
        have htail := (List.cons.inj hsplit).2
        exact Nat.succ_le_succ (ih hrest htail)

/-- A pattern that occurs is found. -/
theorem splitFirst?_ne_none (p b a : Text) : splitFirst? p (b ++ p ++ a) ≠ none := by
  induction b with
  | nil =>
    rw [List.nil_append, splitFirst?_append]
    simp
  | cons c b ih =>
    rw [List.cons_append, List.cons_append, splitFirst?]
    split
    · simp
    · rw [ne_eq, Option.map_eq_none_iff]
      exact ih

/-- An occurrence of an identifier that stands alone does not start inside another occurrence: it is
the same one, or lies behind it. -/
theorem eq_or_behind_of_standsAlone {word past skipped after b a : Text} (hident : AllIdent word)
    (hsplit : skipped ++ word ++ after = b ++ word ++ a) (hle : skipped.length ≤ b.length)
    (halone : standsAlone (past ++ b) a) :
    (b = skipped ∧ a = after) ∨ ∃ b', b = skipped ++ word ++ b' ∧ after = b' ++ word ++ a := by
  rw [List.append_assoc, List.append_assoc] at hsplit
  obtain ⟨inner, rfl⟩ : skipped <+: b :=
    List.prefix_of_prefix_length_le ⟨_, hsplit⟩ ⟨_, rfl⟩ hle
  rw [List.append_assoc, List.append_cancel_left_eq] at hsplit
  rcases List.append_eq_append_iff.1 hsplit with ⟨b', rfl, hafter⟩ | ⟨overlap, hword, hrest⟩
  · exact .inr ⟨b', by simp, by simp [hafter]⟩
  · -- Between the starts of the two occurrences lies a part of the word.
    by_cases hinner : inner = []
    · subst hinner
      rw [List.nil_append] at hword
      rw [← hword] at hrest
      exact .inl ⟨by simp, List.append_cancel_left hrest⟩
    · have hstarts := (standsAlone_iff.1 halone).1
      rw [← List.append_assoc, startsIdent_append hinner] at hstarts
      have hall : AllIdent inner := fun x hx => hident x (by simp [hword, hx])
      exact absurd hstarts (hall.not_startsIdent hinner)

/-- When a word stands alone in the rest of a text, the search gives an occurrence that starts no
later. -/
theorem findWordAfter_of_standsAlone {word past rest b a : Text} (hword : word ≠ [])
    (hident : AllIdent word) (hsplit : rest = b ++ word ++ a)
    (halone : standsAlone (past ++ b) a) :
    ∃ before after, findWordAfter word past rest = some (before, after) ∧
      before.length ≤ (past ++ b).length := by
  fun_induction findWordAfter word past rest generalizing b with
  | case1 past rest hnone =>
    rw [hsplit] at hnone
    exact absurd hnone (splitFirst?_ne_none word b a)
  | case2 past rest skipped after hfirst hfound =>
    refine ⟨_, _, rfl, ?_⟩
    have hle := length_le_of_splitFirst? hfirst hsplit
    rw [List.length_append, List.length_append]
    omega
  | case3 past rest skipped after hfirst hnot hempty => exact absurd hempty hword
  | case4 past rest skipped after hfirst hnot hempty hshorter ih =>
    have hle := length_le_of_splitFirst? hfirst hsplit
    have hboth := (eq_of_splitFirst? hfirst).symm.trans hsplit
    -- The first occurrence does not stand alone, so the one that does lies behind it.
    rcases eq_or_behind_of_standsAlone hident hboth hle halone with ⟨rfl, rfl⟩ | ⟨b', rfl, hafter⟩
    · exact absurd halone hnot
    · have halone' : standsAlone (past ++ skipped ++ word ++ b') a := by
        simpa [List.append_assoc] using halone
      obtain ⟨before, after', hfound, hlength⟩ := ih hafter halone'
      refine ⟨before, after', hfound, hlength.trans (le_of_eq ?_)⟩
      simp [List.append_assoc]

/-- When an identifier stands alone in a text, the search gives an occurrence that starts no
later. -/
theorem findWord?_of_standsAlone {word text b a : Text} (hword : word ≠ [])
    (hident : AllIdent word) (hsplit : text = b ++ word ++ a) (halone : standsAlone b a) :
    ∃ before after, findWord? word text = some (before, after) ∧ before.length ≤ b.length :=
  findWordAfter_of_standsAlone hword hident hsplit halone

/-! ## Words beside a break -/

/-- A start without a character ends in front of it. -/
theorem exists_of_append_eq_break {word a t u : Text} {c : Char} (hc : c ∉ word)
    (h : t ++ c :: u = word ++ a) : ∃ a', t = word ++ a' ∧ a = a' ++ c :: u := by
  induction word generalizing t with
  | nil => exact ⟨t, rfl, h.symm⟩
  | cons d word ih =>
    cases t with
    | nil => exact absurd (List.mem_cons.2 (.inl (List.cons.inj h).1)) hc
    | cons e t =>
      obtain ⟨rfl, hrest⟩ := List.cons.inj h
      obtain ⟨a', rfl, ha⟩ := ih (fun hmem => hc (.tail _ hmem)) hrest
      exact ⟨a', rfl, ha⟩

/-- A word lies on one side of a character that it does not hold. -/
theorem split_of_break {word t u b a : Text} {c : Char} (hc : c ∉ word)
    (h : t ++ c :: u = b ++ word ++ a) :
    (∃ a', t = b ++ word ++ a' ∧ a = a' ++ c :: u) ∨
      ∃ b', u = b' ++ word ++ a ∧ b = t ++ c :: b' := by
  rw [List.append_assoc] at h
  rcases List.append_eq_append_iff.1 h with ⟨front, hb, hrest⟩ | ⟨rest, ht, hrest⟩
  · cases front with
    | nil =>
      obtain ⟨a', hword, ha⟩ := exists_of_append_eq_break (t := []) hc hrest
      exact .inl ⟨a', by rw [List.append_assoc, ← hword, hb]; simp, ha⟩
    | cons d b' =>
      obtain ⟨rfl, hu⟩ := List.cons.inj hrest
      exact .inr ⟨b', by rw [hu, List.append_assoc]; rfl, hb⟩
  · obtain ⟨a', hword, ha⟩ := exists_of_append_eq_break hc hrest.symm
    exact .inl ⟨a', by rw [ht, hword, List.append_assoc], ha⟩

section Identifier

variable {word t u : Text} {c : Char} (hident : AllIdent word) (hbreak : isIdentChar c = false)

include hident

include hbreak in
/-- An identifier that stands alone lies on one side of a character that belongs to none. -/
theorem standsAlone_break {b a : Text} :
    (t ++ c :: u = b ++ word ++ a ∧ standsAlone b a) ↔
      (∃ a', a = a' ++ c :: u ∧ t = b ++ word ++ a' ∧ standsAlone b a') ∨
        ∃ b', b = t ++ c :: b' ∧ u = b' ++ word ++ a ∧ standsAlone b' a := by
  constructor
  · rintro ⟨hsplit, halone⟩
    rw [standsAlone_iff] at halone
    rcases split_of_break (hident.not_mem hbreak) hsplit with ⟨a', ht, rfl⟩ | ⟨b', hu, rfl⟩
    · rw [endsIdent_append_break a' u hbreak] at halone
      exact .inl ⟨a', rfl, ht, standsAlone_iff.2 halone⟩
    · rw [startsIdent_append_break t b' hbreak] at halone
      exact .inr ⟨b', rfl, hu, standsAlone_iff.2 halone⟩
  · rintro (⟨a', rfl, rfl, halone⟩ | ⟨b', rfl, rfl, halone⟩) <;> rw [standsAlone_iff] at halone
    · refine ⟨by simp, standsAlone_iff.2 ?_⟩
      rwa [endsIdent_append_break a' u hbreak]
    · refine ⟨by simp, standsAlone_iff.2 ?_⟩
      rwa [startsIdent_append_break t b' hbreak]

variable (hword : word ≠ [])

include hword

/-- An identifier is not found exactly when it stands alone nowhere. -/
theorem findWord?_eq_none_iff :
    findWord? word t = none ↔ ∀ b a, t = b ++ word ++ a → ¬ standsAlone b a := by
  constructor
  · intro hnone b a hsplit halone
    obtain ⟨before, after, hfound, -⟩ := findWord?_of_standsAlone hword hident hsplit halone
    rw [hnone] at hfound
    cases hfound
  · intro hno
    cases hfound : findWord? word t with
    | none => rfl
    | some r =>
      obtain ⟨hsplit, halone⟩ := standsAlone_of_findWord? hfound
      exact absurd halone (hno _ _ hsplit)

/-- The search gives the first occurrence of an identifier that stands alone. -/
theorem findWord?_eq_some_iff {before after : Text} :
    findWord? word t = some (before, after) ↔
      (t = before ++ word ++ after ∧ standsAlone before after) ∧
        ∀ b a, t = b ++ word ++ a ∧ standsAlone b a → before.length ≤ b.length := by
  constructor
  · intro h
    refine ⟨standsAlone_of_findWord? h, fun b a ⟨hsplit, halone⟩ => ?_⟩
    obtain ⟨_, _, hfound, hle⟩ := findWord?_of_standsAlone hword hident hsplit halone
    rw [h] at hfound
    cases hfound
    exact hle
  · rintro ⟨⟨hsplit, halone⟩, hfirst⟩
    obtain ⟨b, a, hfound, hle⟩ := findWord?_of_standsAlone hword hident hsplit halone
    have hoccurs := standsAlone_of_findWord? hfound
    -- Both are first, so they start at one place.
    have hboth := hsplit.symm.trans hoccurs.1
    rw [List.append_assoc, List.append_assoc] at hboth
    obtain ⟨rfl, hrest⟩ := List.append_inj hboth (le_antisymm (hfirst b a hoccurs) hle)
    rw [hfound, List.append_cancel_left hrest]

include hbreak in
/-- With a character of no identifier between them, two texts are searched one after the other. -/
theorem findWord?_break :
    findWord? word (t ++ c :: u) =
      match findWord? word t with
      | some (before, after) => some (before, after ++ c :: u)
      | none => (findWord? word u).map fun (before, after) => (t ++ c :: before, after) := by
  have hsides := @standsAlone_break word t u c hident hbreak
  cases ht : findWord? word t with
  | some r =>
    obtain ⟨before, after⟩ := r
    -- The first occurrence in the first text comes before every other one.
    obtain ⟨⟨hsplit, halone⟩, hfirst⟩ := (findWord?_eq_some_iff hident hword).1 ht
    refine (findWord?_eq_some_iff hident hword).2
      ⟨hsides.2 (.inl ⟨after, rfl, hsplit, halone⟩), fun b a h => ?_⟩
    rcases hsides.1 h with ⟨a', -, h'⟩ | ⟨b', rfl, -⟩
    · exact hfirst b a' h'
    · -- The second text lies behind all of the first one.
      rw [hsplit]
      simp only [List.length_append]
      omega
  | none =>
    -- Every occurrence lies in the second text.
    have hno := (findWord?_eq_none_iff hident hword).1 ht
    cases hu : findWord? word u with
    | none =>
      have hno' := (findWord?_eq_none_iff hident hword).1 hu
      refine (findWord?_eq_none_iff hident hword).2 fun b a hsplit halone => ?_
      rcases hsides.1 ⟨hsplit, halone⟩ with ⟨a', -, h⟩ | ⟨b', -, h⟩
      · exact hno b a' h.1 h.2
      · exact hno' b' a h.1 h.2
    | some r =>
      obtain ⟨before, after⟩ := r
      obtain ⟨hoccurs, hfirst⟩ := (findWord?_eq_some_iff hident hword).1 hu
      refine (findWord?_eq_some_iff hident hword).2
        ⟨hsides.2 (.inr ⟨before, rfl, hoccurs⟩), fun b a h => ?_⟩
      rcases hsides.1 h with ⟨a', -, h'⟩ | ⟨b', rfl, h'⟩
      · exact absurd h'.2 (hno b a' h'.1)
      · have hle := hfirst b' a h'
        simp only [List.length_append, List.length_cons]
        omega

include hbreak in
/-- With a character of no identifier between them, two texts are searched one by one. -/
theorem findWord?_break_eq_none :
    findWord? word (t ++ c :: u) = none ↔ findWord? word t = none ∧ findWord? word u = none := by
  rw [findWord?_break hident hbreak hword]
  cases findWord? word t <;> simp

/-- No identifier is found between words. -/
theorem findWord?_gap_eq_none {gap : Text} (hgap : ∀ x ∈ gap, isIdentChar x = false) :
    findWord? word gap = none := by
  rw [findWord?_eq_none_iff hident hword]
  rintro b a rfl -
  obtain ⟨x, hx⟩ := List.exists_mem_of_ne_nil word hword
  have hother := hgap x (by simp [hx])
  rw [hident x hx] at hother
  cases hother

/-- In an empty text no identifier is found. -/
theorem findWord?_nil : findWord? word [] = none :=
  findWord?_gap_eq_none hident hword fun _ hx => by cases hx

/-- What belongs to no identifier is passed over in front of a text. -/
theorem findWord?_gap_append_eq_none {gap : Text} (hgap : ∀ x ∈ gap, isIdentChar x = false) :
    findWord? word (gap ++ u) = none ↔ findWord? word u = none := by
  induction gap with
  | nil => rfl
  | cons d gap ih =>
    obtain ⟨hd, hgap⟩ := List.forall_mem_cons.1 hgap
    have hfirst := findWord?_break_eq_none hident hd hword (t := []) (u := gap ++ u)
    rw [List.nil_append] at hfirst
    rw [List.cons_append, hfirst, and_iff_right (findWord?_nil hident hword), ih hgap]

/-- Two texts are searched one by one when what stands between them belongs to no identifier. -/
theorem findWord?_append_gap_eq_none {gap : Text} (hne : gap ≠ [])
    (hgap : ∀ x ∈ gap, isIdentChar x = false) :
    findWord? word (t ++ (gap ++ u)) = none ↔
      findWord? word t = none ∧ findWord? word u = none := by
  obtain ⟨d, gap, rfl⟩ := List.exists_cons_of_ne_nil hne
  obtain ⟨hd, hgap⟩ := List.forall_mem_cons.1 hgap
  rw [List.cons_append, findWord?_break_eq_none hident hd hword,
    findWord?_gap_append_eq_none hident hword hgap]

/-- Behind a text in which it is not found, an identifier that stands alone is found. -/
theorem findWord?_append_of_none (ht : findWord? word t = none) (hstart : StartsIdent t)
    (hend : EndsIdent u) : findWord? word (t ++ word ++ u) = some (t, u) := by
  rcases List.eq_nil_or_concat' t with rfl | ⟨t, x, rfl⟩
  · exact findWord?_append hend
  · have hx : isIdentChar x = false := hstart x List.getLast?_concat
    have hfront := ((findWord?_break_eq_none hident hx hword).1 ht).1
    rw [List.append_assoc, List.append_assoc, List.singleton_append,
      findWord?_break hident hx hword, hfront, findWord?_append hend]
    rfl

end Identifier

/-! ## Words beside blanks -/

section Blanks

variable {word : Text} (hword : word ≠ []) (hident : AllIdent word)

include hword hident

/-- An identifier is found in a text exactly when it is found in one of its words. -/
theorem findWord?_eq_none_iff_words (t : Text) :
    findWord? word t = none ↔ ∀ w ∈ words t, findWord? word w = none := by
  induction hn : t.length using Nat.strongRecOn generalizing t with
  | ind n ih =>
    -- A text without blanks is one word at most.
    have hsolid : ∀ {w : Text}, Solid w →
        (findWord? word w = none ↔ ∀ v ∈ words w, findWord? word v = none) := by
      intro w hw
      by_cases hempty : w = []
      · rw [hempty, words_nil]
        exact iff_of_true (findWord?_nil hident hword) (by simp)
      · rw [words_of_solid hempty hw, List.forall_mem_singleton]
    by_cases ht : Solid t
    · exact hsolid ht
    · -- A blank parts the search as it parts the words.
      obtain ⟨w, c, rest, rfl, hw, hc⟩ := exists_eq_append_blank ht
      have hshorter : rest.length < n := by
        rw [← hn, List.length_append, List.length_cons]
        omega
      rw [findWord?_break_eq_none hident (isIdentChar_of_isBlank hc) hword, words_append_blank hc,
        List.forall_mem_append, hsolid hw, ih rest.length hshorter rest rfl]

/-- Collapsing does not change whether an identifier is found. -/
theorem findWord?_collapse_eq_none (t : Text) :
    findWord? word (collapse t) = none ↔ findWord? word t = none := by
  rw [findWord?_eq_none_iff_words hword hident, findWord?_eq_none_iff_words hword hident t,
    words_collapse]

end Blanks

end Text

end NativeBindings
