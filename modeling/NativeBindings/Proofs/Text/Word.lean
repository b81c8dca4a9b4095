import Mathlib.Data.List.Basic
import NativeBindings.Proofs.Text.Words
import NativeBindings.Text.Word

/-!
# Identifiers and where they stand alone

The characters of identifiers lie between `0` and `z`, so none of them is blank. The search for a
word gives an occurrence that stands alone (`standsAlone_of_findWord?`), and finds a word that the
text starts with (`findWord?_append`). Two runs of identifier characters at the start of one text
are equal when each ends there (`eq_of_append_eq_append`).
-/

namespace NativeBindings

/-! ## Identifier characters -/

/-- The code points of identifier characters. -/
theorem toNat_of_isIdentChar {c : Char} (h : isIdentChar c) : 48 ≤ c.toNat ∧ c.toNat ≤ 122 := by
  unfold isIdentChar Char.isAlphanum Char.isAlpha Char.isUpper Char.isLower Char.isDigit at h
  simp only [Bool.or_eq_true, Bool.and_eq_true, decide_eq_true_eq, beq_iff_eq, ge_iff_le,
    UInt32.le_iff_toNat_le] at h
  rcases h with ((h | h) | h) | rfl
  · change 65 ≤ c.toNat ∧ c.toNat ≤ 90 at h
    omega
  · change 97 ≤ c.toNat ∧ c.toNat ≤ 122 at h
    omega
  · change 48 ≤ c.toNat ∧ c.toNat ≤ 57 at h
    omega
  · decide

/-- An identifier character is not blank. -/
theorem not_isBlank_of_isIdentChar {c : Char} (h : isIdentChar c) : isBlank c = false := by
  obtain ⟨hlow, hhigh⟩ := toNat_of_isIdentChar h
  unfold isBlank
  simp only [Bool.or_eq_false_iff, Bool.and_eq_false_iff, decide_eq_false_iff_not,
    beq_eq_false_iff_ne]
  omega

/-- A blank belongs to no identifier. -/
theorem isIdentChar_of_isBlank {c : Char} (h : isBlank c) : isIdentChar c = false := by
  by_contra hident
  rw [Bool.not_eq_false] at hident
  rw [not_isBlank_of_isIdentChar hident] at h
  cases h

/-- An identifier starts with an identifier character. -/
theorem isIdentChar_of_isAlpha {c : Char} (h : c.isAlpha || c == '_') : isIdentChar c := by
  unfold isIdentChar Char.isAlphanum
  rw [Bool.or_eq_true] at h
  rcases h with h | h
  · rw [h, Bool.true_or, Bool.true_or]
  · rw [h, Bool.or_true]

/-- A text of identifier characters. -/
def AllIdent (t : Text) : Prop := ∀ c ∈ t, isIdentChar c

theorem AllIdent.solid {t : Text} (h : AllIdent t) : Text.Solid t :=
  fun c hc => not_isBlank_of_isIdentChar (h c hc)

/-- Only identifier characters are in such a text. -/
theorem AllIdent.not_mem {t : Text} (h : AllIdent t) {c : Char} (hc : isIdentChar c = false) :
    c ∉ t := by
  intro hmem
  rw [h c hmem] at hc
  cases hc

/-- An identifier is a text of identifier characters that is not empty. -/
theorem allIdent_of_isIdentifier {t : Text} (h : isIdentifier t) : t ≠ [] ∧ AllIdent t := by
  cases t with
  | nil => cases h
  | cons c cs =>
    unfold isIdentifier at h
    rw [Bool.and_eq_true, List.all_eq_true] at h
    exact ⟨List.cons_ne_nil c cs, List.forall_mem_cons.2 ⟨isIdentChar_of_isAlpha h.1, h.2⟩⟩

/-- No identifier character stands at the start of a text. -/
def EndsIdent (t : Text) : Prop := ∀ c ∈ t.head?, isIdentChar c = false

/-- Two runs of identifier characters that one text starts with are equal when each of them ends
there. -/
theorem eq_of_append_eq_append {v w a b : Text} (hv : AllIdent v) (hw : AllIdent w)
    (ha : EndsIdent a) (hb : EndsIdent b) (h : v ++ a = w ++ b) : v = w ∧ a = b := by
  induction v generalizing w with
  | nil =>
    cases w with
    | nil => exact ⟨rfl, h⟩
    | cons c cs =>
      -- The text behind `v` would start with an identifier character.
      have hc := ha c (by rw [show a = c :: (cs ++ b) from h]; rfl)
      exact absurd (.head cs) (hw.not_mem hc)
  | cons c v ih =>
    cases w with
    | nil =>
      -- The text behind `w` would start with an identifier character.
      have hc := hb c (by rw [show b = c :: (v ++ a) from h.symm]; rfl)
      exact absurd (.head v) (hv.not_mem hc)
    | cons d w =>
      obtain ⟨rfl, hrest⟩ := List.cons.inj h
      obtain ⟨rfl, hab⟩ := ih (fun x hx => hv x (.tail _ hx)) (fun x hx => hw x (.tail _ hx)) hrest
      exact ⟨rfl, hab⟩

/-- Two lists that do not contain an element are equal when one list starts with each of them and
the element behind it, and so are the lists behind that. -/
theorem eq_of_append_cons_eq {α : Type} [DecidableEq α] {c : α} {t s rest rest' : List α}
    (ht : c ∉ t) (hs : c ∉ s) (h : t ++ c :: rest = s ++ c :: rest') : t = s ∧ rest = rest' := by
  have hcut : ∀ {t : List α} (rest : List α), c ∉ t →
      (t ++ c :: rest).takeWhile (· ≠ c) = t := by
    intro t rest ht
    rw [List.takeWhile_append_of_pos fun x hx => decide_eq_true (ne_of_mem_of_not_mem hx ht),
      List.takeWhile_cons_of_neg (by simp), List.append_nil]
  have hts : t = s := by rw [← hcut rest ht, h, hcut rest' hs]
  subst hts
  exact ⟨rfl, (List.cons.inj (List.append_cancel_left h)).2⟩

namespace Text

/-! ## Searching -/

/-- A text starts with its beginning. -/
theorem isPrefixOf?_append (t s : Text) : t.isPrefixOf? (t ++ s) = some s := by
  induction t with
  | nil => rfl
  | cons c cs ih => rw [List.cons_append, isPrefixOf?_cons_cons, if_pos (beq_self_eq_true c), ih]

/-- A text that starts with a pattern holds it there first. -/
theorem splitFirst?_append (p t : Text) : splitFirst? p (p ++ t) = some ([], t) := by
  cases h : p ++ t with
  | nil =>
    obtain ⟨rfl, rfl⟩ := List.append_eq_nil_iff.1 h
    rfl
  | cons c cs =>
    rw [splitFirst?, ← h, isPrefixOf?_append]

/-- A pattern with a character that a text does not hold is not found in it. -/
theorem splitFirst?_eq_none {c : Char} {p t : Text} (hp : c ∈ p) (ht : c ∉ t) :
    splitFirst? p t = none := by
  cases h : splitFirst? p t with
  | none => rfl
  | some r =>
    have hsplit := eq_of_splitFirst? h
    exact absurd (by rw [hsplit]; simp [hp]) ht

/-- A pattern whose first character does not occur in front of it is found there. -/
theorem splitFirst?_pattern {c : Char} {t : Text} (ht : c ∉ t) (p s : Text) :
    splitFirst? (c :: p) (t ++ (c :: p ++ s)) = some (t, s) := by
  induction t with
  | nil => exact splitFirst?_append (c :: p) s
  | cons a t ih =>
    have hne : (c == a) = false := beq_eq_false_iff_ne.2 fun heq => ht (heq ▸ .head t)
    rw [List.cons_append, splitFirst?, isPrefixOf?_cons_cons, hne, if_neg Bool.false_ne_true,
      ih fun h => ht (.tail a h), Option.map_some]

/-- A pattern with a character that a text does not hold is not found in it from the end either. -/
theorem splitLast?_eq_none {c : Char} {p t : Text} (hp : c ∈ p) (ht : c ∉ t) :
    splitLast? p t = none := by
  cases h : splitLast? p t with
  | none => rfl
  | some r =>
    have hsplit := eq_of_splitLast? h
    exact absurd (by rw [hsplit]; simp [hp]) ht

/-- A character that does not occur behind it is the last of its kind. -/
theorem splitLast?_singleton {c : Char} (t s : Text) (hs : c ∉ s) :
    splitLast? [c] (t ++ c :: s) = some (t, s) := by
  induction t with
  | nil =>
    rw [List.nil_append, splitLast?, splitLast?_eq_none (List.mem_singleton_self c) hs]
    -- There is no later occurrence, so the search ends with the one at the start.
    have hstart := isPrefixOf?_append [c] s
    rw [List.singleton_append] at hstart
    rw [hstart]
    rfl
  | cons a cs ih => rw [List.cons_append, splitLast?, ih]

/-- Two characters are the last such pair when the second does not occur behind them. -/
theorem splitLast?_pair {a c : Char} (hac : a ≠ c) {s : Text} (hs : c ∉ s) (t : Text) :
    splitLast? [a, c] (t ++ a :: c :: s) = some (t, s) := by
  induction t with
  | nil =>
    have hbehind : splitLast? [a, c] s = none := splitLast?_eq_none (by simp) hs
    have hnot : [a, c].isPrefixOf? (c :: s) = none := by
      rw [isPrefixOf?_cons_cons, if_neg (by simpa using hac)]
    have hstart := isPrefixOf?_append [a, c] s
    rw [List.cons_append, List.singleton_append] at hstart
    rw [List.nil_append, splitLast?, splitLast?, hbehind, hnot, hstart]
    rfl
  | cons d t ih => rw [List.cons_append, splitLast?, ih]

/-- In front of a text nothing is found that does not hold the character. -/
theorem splitFirst?_append_left {c : Char} {s : Text} (t : Text) (hs : c ∉ s) :
    splitFirst? [c] (s ++ t) =
      (splitFirst? [c] t).map fun (before, after) => (s ++ before, after) := by
  induction s with
  | nil => exact Option.map_id'.symm
  | cons a s ih =>
    have hne : (c == a) = false := by
      rw [beq_eq_false_iff_ne]
      rintro rfl
      exact hs (.head s)
    rw [List.cons_append, splitFirst?, isPrefixOf?_cons_cons, hne, if_neg Bool.false_ne_true,
      ih fun h => hs (.tail a h), Option.map_map]
    rfl

/-- What is found from the end is found behind further text. -/
theorem splitLast?_append_left {p t before after : Text} (s : Text)
    (h : splitLast? p t = some (before, after)) :
    splitLast? p (s ++ t) = some (s ++ before, after) := by
  induction s with
  | nil => exact h
  | cons a s ih => rw [List.cons_append, splitLast?, ih, List.cons_append]

/-- A character that is not found from the end does not occur. -/
theorem not_mem_of_splitLast? {c : Char} {t : Text} (h : splitLast? [c] t = none) : c ∉ t := by
  induction t with
  | nil => exact List.not_mem_nil
  | cons a t ih =>
    rw [splitLast?] at h
    split at h
    · cases h
    · rename_i hnone
      intro hmem
      rcases List.mem_cons.1 hmem with rfl | hmem
      · rw [isPrefixOf?_cons_cons, if_pos (beq_self_eq_true c)] at h
        cases h
      · exact ih hnone hmem

/-- Behind its last occurrence a character does not occur. -/
theorem not_mem_behind_splitLast? {c : Char} {t before after : Text}
    (h : splitLast? [c] t = some (before, after)) : c ∉ after := by
  induction t generalizing before with
  | nil => cases h
  | cons a t ih =>
    rw [splitLast?] at h
    split at h
    · rename_i hlater
      obtain ⟨-, rfl⟩ := Prod.mk.inj (Option.some.inj h)
      exact ih hlater
    · rename_i hnone
      obtain ⟨rest, hstart, hrest⟩ := Option.map_eq_some_iff.1 h
      obtain ⟨-, rfl⟩ := Prod.mk.inj hrest
      have ht : t = rest := (List.cons.inj (eq_append_of_isPrefixOf? hstart)).2
      exact ht ▸ not_mem_of_splitLast? hnone

/-- A text ends with its end. -/
theorem isSuffixOf?_append (t s : Text) : s.isSuffixOf? (t ++ s) = some t := by
  unfold List.isSuffixOf?
  rw [List.reverse_append, isPrefixOf?_append, Option.map_some, List.reverse_reverse]

/-- The search gives a word that stands alone. -/
theorem standsAlone_of_findWordAfter {word past rest before after : Text}
    (h : findWordAfter word past rest = some (before, after)) : standsAlone before after := by
  fun_induction findWordAfter word past rest with
  | case1 => cases h
  | case2 past rest skipped after' hs halone =>
    cases h
    exact halone
  | case3 =>
    rw [searchForever_eq] at h
    cases h
  | case4 past rest skipped after' hs _ _ _ ih => exact ih h

/-- The search gives a word that stands alone, between the two parts of the text. -/
theorem standsAlone_of_findWord? {word text before after : Text}
    (h : findWord? word text = some (before, after)) :
    text = before ++ word ++ after ∧ standsAlone before after := by
  have hsplit := eq_of_findWordAfter h
  rw [List.nil_append] at hsplit
  exact ⟨hsplit, standsAlone_of_findWordAfter h⟩

/-- Of a text of identifier characters only the whole stands alone. -/
theorem eq_nil_of_standsAlone {before word after : Text} (h : AllIdent (before ++ word ++ after))
    (halone : standsAlone before after) : before = [] ∧ after = [] := by
  unfold standsAlone at halone
  rw [Bool.and_eq_true, Bool.not_eq_true', Bool.not_eq_true'] at halone
  constructor
  · cases hlast : before.getLast? with
    | none => exact List.getLast?_eq_none_iff.1 hlast
    | some c =>
      have hmem : c ∈ before ++ word ++ after := by
        rw [List.append_assoc]
        exact List.mem_append_left _ (List.mem_of_getLast? hlast)
      rw [hlast, Option.any_some, h c hmem] at halone
      cases halone.1
  · cases after with
    | nil => rfl
    | cons c after =>
      rw [List.head?_cons, Option.any_some, h c (by simp)] at halone
      cases halone.2

/-- Behind nothing a word stands alone when it ends there. -/
theorem standsAlone_nil_iff {after : Text} : standsAlone [] after ↔ EndsIdent after := by
  unfold standsAlone EndsIdent
  cases after.head? <;> simp

/-- What is not in a text is not found in it. -/
theorem findWordAfter_of_none {word past rest : Text} (h : splitFirst? word rest = none) :
    findWordAfter word past rest = none := by
  rw [findWordAfter]
  split
  · rfl
  · rename_i hsome
    rw [h] at hsome
    cases hsome

/-- The first occurrence is given when it stands alone, and passed otherwise. -/
theorem findWordAfter_of_some {word past rest skipped after : Text}
    (h : splitFirst? word rest = some (skipped, after)) :
    findWordAfter word past rest =
      if standsAlone (past ++ skipped) after then some (past ++ skipped, after)
      else if word = [] then none else findWordAfter word (past ++ skipped ++ word) after := by
  rw [findWordAfter]
  split
  · rename_i hnone
    rw [h] at hnone
    cases hnone
  · rename_i hsome
    rw [h] at hsome
    cases hsome
    rw [searchForever_eq]
    rfl

/-- A word that a text starts with is found there. -/
theorem findWord?_append {word after : Text} (h : EndsIdent after) :
    findWord? word (word ++ after) = some ([], after) := by
  unfold findWord?
  rw [findWordAfter_of_some (splitFirst?_append ..), List.append_nil,
    if_pos (standsAlone_nil_iff.2 h)]

end Text

end NativeBindings
