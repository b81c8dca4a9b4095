import Mathlib.Data.List.Chain
import Mathlib.Data.List.TakeWhile
import NativeBindings.Text.Blank

/-!
# Words and single spaces

The words of a text and how they join again. A text is single-spaced when no blank stands at its
ends, every blank in it is a space, and no two blanks are neighbours. This is what `collapse` makes
of any text, and what `collapse` leaves alone. It is stated by neighbouring characters, so that it
can be followed through changes that look at neighbouring characters only; `SingleSpaced.append` and
`SingleSpaced.append_space` put single-spaced texts together.
-/

namespace NativeBindings

/-! ## Runs and pieces of a list -/

/-- What is in the run at the end, and what the list in front does not end with. -/
theorem takeTrailing_spec {α : Type} (p : α → Bool) (xs : List α) :
    (∀ x ∈ takeTrailing p xs, p x) ∧ ∀ x ∈ (dropTrailing p xs).getLast?, p x = false := by
  unfold takeTrailing dropTrailing
  refine ⟨fun x hx => List.mem_takeWhile_imp (List.mem_reverse.1 hx), fun x hx => ?_⟩
  have hstop := List.head?_dropWhile_not p xs.reverse
  rw [List.getLast?_reverse] at hx
  rw [hx] at hstop
  simpa using hstop

/-- Without an element at the end that satisfies `p` there is nothing to drop there. -/
theorem dropTrailing_eq {α : Type} {p : α → Bool} {xs : List α}
    (h : ∀ x ∈ xs.getLast?, p x = false) : dropTrailing p xs = xs := by
  unfold dropTrailing
  -- The last element is the first one of the list read backwards.
  have hrev : xs.reverse.dropWhile p = xs.reverse := by
    cases hr : xs.reverse with
    | nil => rfl
    | cons a as =>
      have hlast : a ∈ xs.getLast? := by
        rw [List.getLast?_eq_head?_reverse, hr]
        rfl
      rw [List.dropWhile_cons_of_neg (by rw [h a hlast]; simp)]
  rw [hrev, List.reverse_reverse]

/-- An element at the end that satisfies `p` is dropped. -/
theorem dropTrailing_concat {α : Type} {p : α → Bool} {x : α} (hx : p x) (xs : List α) :
    dropTrailing p (xs ++ [x]) = dropTrailing p xs := by
  unfold dropTrailing
  rw [List.reverse_append, List.reverse_singleton, List.singleton_append,
    List.dropWhile_cons_of_pos hx]

/-- No piece of a list between separators holds a separator. -/
theorem eq_false_of_mem_splitOnP {α : Type} {p : α → Bool} {xs w : List α}
    (h : w ∈ xs.splitOnP p) : ∀ x ∈ w, p x = false := by
  induction xs generalizing w with
  | nil =>
    rw [List.splitOnP_nil, List.mem_singleton] at h
    rw [h]
    exact fun x hx => absurd hx List.not_mem_nil
  | cons a xs ih =>
    rw [List.splitOnP_cons_eq_if_modifyHead] at h
    obtain ⟨v, vs, hv⟩ := List.exists_cons_of_ne_nil (List.splitOnP_ne_nil p xs)
    rw [hv] at h ih
    -- A separator starts a piece, and another element goes to the first one.
    split at h
    · rcases List.mem_cons.1 h with rfl | h
      · exact fun x hx => absurd hx List.not_mem_nil
      · exact ih h
    · rename_i ha
      rw [List.modifyHead_cons] at h
      rcases List.mem_cons.1 h with rfl | h
      · intro x hx
        rcases List.mem_cons.1 hx with rfl | hx
        · simpa using ha
        · exact ih (.head _) x hx
      · exact ih (.tail _ h)

namespace Text

/-! ## Ends of a text -/

/-- Trimming only leaves characters out. -/
theorem trim_sublist (t : Text) : (trim t).Sublist t := by
  have hright : (trimRight (trimLeft t)).Sublist (trimLeft t) := by
    rw [← List.reverse_sublist]
    unfold trimRight dropTrailing
    rw [List.reverse_reverse]
    exact List.dropWhile_sublist isBlank
  exact hright.trans (List.dropWhile_sublist isBlank)

theorem mem_of_mem_trimLeft {t : Text} {c : Char} (hc : c ∈ trimLeft t) : c ∈ t :=
  (List.dropWhile_suffix isBlank).subset hc

/-- Without a blank at the end there is nothing to trim there. -/
theorem trimRight_eq {t : Text} (h : ∀ c ∈ t.getLast?, isBlank c = false) : trimRight t = t :=
  dropTrailing_eq h

/-- The last character of a text without trailing blanks is not blank. -/
theorem isBlank_of_getLast?_trimRight {t : Text} {c : Char}
    (h : (trimRight t).getLast? = some c) : isBlank c = false := by
  unfold trimRight dropTrailing at h
  rw [List.getLast?_reverse] at h
  have hhead := List.head?_dropWhile_not isBlank t.reverse
  rw [h] at hhead
  exact hhead

/-- The last character of a trimmed text is not blank. -/
theorem isBlank_of_getLast?_trim {t : Text} {c : Char} (h : t.trim.getLast? = some c) :
    isBlank c = false :=
  isBlank_of_getLast?_trimRight h

/-- Where a text does not end with a blank, what is left of a part at its end ends like it. -/
theorem getLast?_trim_of_suffix {t s : Text} (hs : s <:+ t)
    (ht : ∀ c ∈ t.getLast?, isBlank c = false) (hne : s.trim ≠ []) :
    s.trim.getLast? = t.getLast? := by
  obtain ⟨before, rfl⟩ := (List.dropWhile_suffix isBlank).trans hs
  have hleft : s.trimLeft ≠ [] := by
    intro hnil
    refine hne ?_
    unfold trim
    rw [hnil]
    rfl
  have hlast : (before ++ s.trimLeft).getLast? = s.trimLeft.getLast? :=
    List.getLast?_append_of_ne_nil before hleft
  have hright : s.trim = s.trimLeft := trimRight_eq (by rw [← hlast]; exact ht)
  rw [hright]
  exact hlast.symm

/-- Neither end of a text is blank. -/
structure Trimmed (t : Text) : Prop where
  /-- It does not start with a blank. -/
  head : ∀ c ∈ t.head?, isBlank c = false
  /-- It does not end with a blank. -/
  last : ∀ c ∈ t.getLast?, isBlank c = false

namespace Trimmed

variable {t s : Text}

/-- Without a blank in front there is nothing to trim there. -/
theorem trimLeft_eq (h : Trimmed t) : trimLeft t = t := by
  unfold trimLeft
  cases t with
  | nil => rfl
  | cons c cs => rw [List.dropWhile_cons_of_neg (by rw [h.head c rfl]; simp)]

/-- There is nothing to trim. -/
theorem trim_eq (h : Trimmed t) : trim t = t := by
  unfold trim
  rw [h.trimLeft_eq, trimRight_eq h.last]

/-- Only the outer ends of two texts are ends of both together. -/
theorem append (ht : Trimmed t) (hs : Trimmed s) : Trimmed (t ++ s) := by
  refine ⟨fun c hc => ?_, fun c hc => ?_⟩
  · rw [List.head?_append] at hc
    cases hhead : t.head? with
    | none => rw [hhead] at hc; exact hs.head c hc
    | some a => rw [hhead] at hc; exact ht.head c (hhead ▸ hc)
  · rw [List.getLast?_append] at hc
    cases hlast : s.getLast? with
    | none => rw [hlast] at hc; exact ht.last c hc
    | some a => rw [hlast] at hc; exact hs.last c (hlast ▸ hc)

end Trimmed

/-- A leading blank is trimmed. -/
theorem trim_cons_blank {c : Char} (hc : isBlank c) (t : Text) : trim (c :: t) = trim t := by
  unfold trim trimLeft
  rw [List.dropWhile_cons_of_pos hc]

/-- A trailing blank is trimmed. -/
theorem trimRight_append_blank {c : Char} (hc : isBlank c) (t : Text) :
    trimRight (t ++ [c]) = trimRight t :=
  dropTrailing_concat hc t

/-- Blanks behind a text are trimmed with those at its end. -/
theorem trimRight_append_of_eq_nil {t s : Text} (hs : trimRight s = []) :
    trimRight (t ++ s) = trimRight t := by
  unfold trimRight dropTrailing at hs ⊢
  rw [List.reverse_append, List.dropWhile_append, List.reverse_eq_nil_iff.1 hs,
    List.isEmpty_nil, if_pos rfl]

/-- A text that is not blank ends with what is left of it at the end. -/
theorem trimRight_append {t s : Text} (hs : trimRight s ≠ []) :
    trimRight (t ++ s) = t ++ trimRight s := by
  unfold trimRight dropTrailing at hs ⊢
  have hne : (List.dropWhile isBlank s.reverse).isEmpty = false := by
    rw [List.isEmpty_eq_false_iff]
    intro hnil
    rw [hnil] at hs
    exact hs rfl
  rw [List.reverse_append, List.dropWhile_append, hne, if_neg Bool.false_ne_true,
    List.reverse_append, List.reverse_reverse]

/-- Behind a text that does not end with a blank, only what follows is trimmed. -/
theorem trimRight_append_of_last {t : Text} {c : Char} (ht : t.getLast? = some c)
    (hc : isBlank c = false) (s : Text) : trimRight (t ++ s) = t ++ trimRight s := by
  by_cases hs : trimRight s = []
  · have hlast : ∀ x ∈ t.getLast?, isBlank x = false := fun x hx => by
      rw [ht] at hx
      cases hx
      exact hc
    rw [trimRight_append_of_eq_nil hs, hs, List.append_nil, trimRight_eq hlast]
  · exact trimRight_append hs

/-- In front of a text that does not start with a blank, only what precedes it is trimmed. -/
theorem trimLeft_append_of_head (t : Text) {c : Char} (hc : isBlank c = false) (s : Text) :
    trimLeft (t ++ c :: s) = trimLeft t ++ c :: s := by
  unfold trimLeft
  rw [List.dropWhile_append, List.dropWhile_cons_of_neg (by simp [hc])]
  split
  · rename_i hblank
    rw [List.isEmpty_iff.1 hblank, List.nil_append]
  · rfl

/-- A text that starts with no blank is not blank. -/
theorem trimRight_ne_nil {c : Char} {t : Text} (hc : isBlank c = false) :
    trimRight (c :: t) ≠ [] := by
  unfold trimRight dropTrailing
  rw [Ne, List.reverse_eq_nil_iff, List.dropWhile_eq_nil_iff]
  intro hall
  have hblank := hall c (by simp)
  rw [hc] at hblank
  cases hblank

/-- A trailing blank behind a text that is trimmed. -/
theorem trim_append_blank {c : Char} (hc : isBlank c) {t : Text} (h : Trimmed t) (hne : t ≠ []) :
    trim (t ++ [c]) = t := by
  obtain ⟨a, cs, rfl⟩ := List.exists_cons_of_ne_nil hne
  have hleft : trimLeft (a :: cs ++ [c]) = a :: cs ++ [c] := by
    unfold trimLeft
    rw [List.cons_append, List.dropWhile_cons_of_neg (by rw [h.head a rfl]; simp)]
  unfold trim
  rw [hleft, trimRight_append_blank hc, trimRight_eq h.last]

/-- Blanks around a text are trimmed. -/
theorem trim_surrounded {lead trail t : Text} (hlead : ∀ c ∈ lead, isBlank c)
    (htrail : ∀ c ∈ trail, isBlank c) (ht : Trimmed t) (hne : t ≠ []) :
    trim (lead ++ t ++ trail) = t := by
  have hright : trimRight trail = [] := by
    unfold trimRight dropTrailing
    rw [List.reverse_eq_nil_iff, List.dropWhile_eq_nil_iff]
    exact fun c hc => htrail c (List.mem_reverse.1 hc)
  obtain ⟨c, cs, rfl⟩ := List.exists_cons_of_ne_nil hne
  unfold trim trimLeft
  rw [List.append_assoc, List.dropWhile_append_of_pos hlead, List.cons_append,
    List.dropWhile_cons_of_neg (by rw [ht.head c rfl]; simp), ← List.cons_append,
    trimRight_append_of_eq_nil hright, trimRight_eq ht.last]

/-! ## Words -/

/-- A text without blanks. -/
def Solid (t : Text) : Prop := ∀ c ∈ t, isBlank c = false

instance (t : Text) : Decidable (Solid t) := List.decidableBAll _ t

theorem Solid.trimmed {t : Text} (h : Solid t) : Trimmed t :=
  ⟨fun c hc => h c (List.mem_of_mem_head? hc), fun c hc => h c (List.mem_of_mem_getLast? hc)⟩

/-- All characters of such a text are kept where blanks are left out. -/
theorem Solid.filter_eq {t : Text} (h : Solid t) : t.filter (!isBlank ·) = t :=
  List.filter_eq_self.2 fun c hc => by rw [h c hc]; rfl

/-- A text with a blank has a first one. -/
theorem exists_eq_append_blank {t : Text} (h : ¬ Solid t) :
    ∃ w c rest, t = w ++ c :: rest ∧ Solid w ∧ isBlank c := by
  induction t with
  | nil => exact absurd (fun c hc => absurd hc List.not_mem_nil) h
  | cons a cs ih =>
    by_cases ha : isBlank a
    · exact ⟨[], a, cs, rfl, fun c hc => absurd hc List.not_mem_nil, ha⟩
    · have ha' : isBlank a = false := by simpa using ha
      -- The blank is further on, behind a character that is none.
      have hcs : ¬ Solid cs := fun hcs => h (List.forall_mem_cons.2 ⟨ha', hcs⟩)
      obtain ⟨w, c, rest, rfl, hw, hc⟩ := ih hcs
      exact ⟨a :: w, c, rest, rfl, List.forall_mem_cons.2 ⟨ha', hw⟩, hc⟩

@[simp] theorem words_nil : words [] = [] := by
  unfold words
  rw [List.splitOnP_nil]
  rfl

/-- A blank parts the words on its two sides. -/
theorem words_append_blank {c : Char} (hc : isBlank c) (t s : Text) :
    words (t ++ c :: s) = words t ++ words s := by
  unfold words
  rw [List.splitOnP_append_cons t s hc, List.filter_append]

/-- A blank in front belongs to no word. -/
theorem words_cons_blank {c : Char} (hc : isBlank c) (t : Text) : words (c :: t) = words t := by
  have h := words_append_blank hc [] t
  rwa [words_nil, List.nil_append, List.nil_append] at h

/-- Blanks in front belong to no word. -/
theorem words_append_of_blank {gap : Text} (hgap : ∀ c ∈ gap, isBlank c) (t : Text) :
    words (gap ++ t) = words t := by
  induction gap with
  | nil => rfl
  | cons c gap ih =>
    obtain ⟨hc, hgap⟩ := List.forall_mem_cons.1 hgap
    rw [List.cons_append, words_cons_blank hc, ih hgap]

/-- A blank at the end belongs to no word. -/
theorem words_concat_blank {c : Char} (hc : isBlank c) (t : Text) : words (t ++ [c]) = words t := by
  rw [words_append_blank hc, words_nil, List.append_nil]

/-- Blanks at the end belong to no word. -/
theorem words_append_blanks {gap : Text} (hgap : ∀ c ∈ gap, isBlank c) (t : Text) :
    words (t ++ gap) = words t := by
  cases gap with
  | nil => rw [List.append_nil]
  | cons c gap =>
    obtain ⟨hc, hgap⟩ := List.forall_mem_cons.1 hgap
    have hnone := words_append_of_blank hgap []
    rw [List.append_nil, words_nil] at hnone
    rw [words_append_blank hc, hnone, List.append_nil]

/-- Blanks between two texts part their words. -/
theorem words_append_gap {gap : Text} (hne : gap ≠ []) (hgap : ∀ c ∈ gap, isBlank c) (t s : Text) :
    words (t ++ (gap ++ s)) = words t ++ words s := by
  obtain ⟨c, gap, rfl⟩ := List.exists_cons_of_ne_nil hne
  obtain ⟨hc, hgap⟩ := List.forall_mem_cons.1 hgap
  rw [List.cons_append, words_append_blank hc, words_append_of_blank hgap]

/-- A text without blanks is one word. -/
theorem words_of_solid {w : Text} (hne : w ≠ []) (h : Solid w) : words w = [w] := by
  unfold words
  rw [List.splitOnP_eq_singleton h, List.filter_cons_of_pos (by simpa using hne), List.filter_nil]

/-- No piece of a text between blanks holds a blank. -/
theorem solid_of_mem_splitOnP {t w : Text} (h : w ∈ t.splitOnP isBlank) : Solid w :=
  eq_false_of_mem_splitOnP h

/-- A word holds a character and no blank. -/
theorem mem_words {t w : Text} (h : w ∈ words t) : w ≠ [] ∧ Solid w := by
  obtain ⟨hw, hne⟩ := List.mem_filter.1 h
  exact ⟨by simpa using hne, solid_of_mem_splitOnP hw⟩

/-- What is put together with separators is found in the whole. -/
theorem infix_intercalate {α : Type} {separator l : List α} {ls : List (List α)} (h : l ∈ ls) :
    l <:+: separator.intercalate ls := by
  induction ls with
  | nil => cases h
  | cons l' ls ih =>
    cases ls with
    | nil =>
      have hsingle : separator.intercalate [l'] = l := by
        rw [List.intercalate_singleton, List.mem_singleton.1 h]
      exact hsingle ▸ List.infix_rfl
    | cons l'' ls =>
      rw [List.intercalate_cons_cons]
      rcases List.mem_cons.1 h with rfl | h
      · rw [List.append_assoc]
        exact (List.prefix_append l _).isInfix
      · exact (ih h).trans (List.suffix_append _ _).isInfix

@[simp] theorem unwords_nil : unwords [] = [] := rfl

@[simp] theorem unwords_singleton (w : Text) : unwords [w] = w := by
  unfold unwords
  rw [List.intercalate_singleton]

/-- The first word is followed by a space and the other words. -/
theorem unwords_cons {ws : List Text} (hws : ws ≠ []) (w : Text) :
    unwords (w :: ws) = w ++ ' ' :: unwords ws := by
  unfold unwords
  rw [List.intercalate_cons_of_ne_nil hws, List.append_assoc, List.singleton_append]

/-- The last word follows a space and the other words. -/
theorem unwords_concat {ws : List Text} (hws : ws ≠ []) (w : Text) :
    unwords (ws ++ [w]) = unwords ws ++ ' ' :: w := by
  induction ws with
  | nil => exact absurd rfl hws
  | cons v ws ih =>
    cases hnil : ws with
    | nil =>
      rw [List.cons_append, List.nil_append, unwords_cons (List.cons_ne_nil w []),
        unwords_singleton, unwords_singleton]
    | cons u us =>
      have hws : ws ≠ [] := by rw [hnil]; exact List.cons_ne_nil u us
      rw [← hnil, List.cons_append, unwords_cons (by simp), ih hws, unwords_cons hws,
        List.append_assoc, List.cons_append]

/-- Words that are joined are found again. -/
theorem words_unwords {ws : List Text} (h : ∀ w ∈ ws, w ≠ [] ∧ Solid w) :
    words (unwords ws) = ws := by
  induction ws with
  | nil => rw [unwords_nil, words_nil]
  | cons w ws ih =>
    obtain ⟨⟨hne, hsolid⟩, hrest⟩ := List.forall_mem_cons.1 h
    by_cases hws : ws = []
    · rw [hws, unwords_singleton, words_of_solid hne hsolid]
    · rw [unwords_cons hws, words_append_blank (by decide), words_of_solid hne hsolid, ih hrest,
        List.singleton_append]

/-- Collapsing keeps the words. -/
theorem words_collapse (t : Text) : words (collapse t) = words t :=
  words_unwords fun _ hw => mem_words hw

/-! ## Single-spaced texts -/

theorem ne_space_of_not_isBlank {c : Char} (hc : isBlank c = false) : c ≠ ' ' := by
  rintro rfl
  exact absurd hc (by decide)

/-- What may stand side by side in a single-spaced text: a blank is a space behind a character that
is not blank. -/
def MayFollow (a b : Char) : Prop := isBlank b → b = ' ' ∧ isBlank a = false

theorem mayFollow_of_not_isBlank {a b : Char} (hb : isBlank b = false) : MayFollow a b := by
  intro h
  rw [hb] at h
  cases h

/-- A text is single-spaced. -/
structure SingleSpaced (t : Text) : Prop extends Trimmed t where
  /-- Its blanks are single spaces. -/
  chain : t.IsChain MayFollow

namespace SingleSpaced

variable {t s : Text}

theorem nil : SingleSpaced [] :=
  ⟨Solid.trimmed fun _ hc => absurd hc List.not_mem_nil, .nil⟩

/-- A text without blanks is single-spaced. -/
theorem of_solid (h : Solid t) : SingleSpaced t := by
  refine ⟨h.trimmed, ?_⟩
  rw [List.isChain_iff_forall_rel_of_append_cons_cons]
  rintro a b l₁ l₂ rfl
  exact mayFollow_of_not_isBlank (h b (by simp))

/-- Two single-spaced texts, one right behind the other. -/
theorem append (ht : SingleSpaced t) (hs : SingleSpaced s) : SingleSpaced (t ++ s) := by
  refine ⟨ht.toTrimmed.append hs.toTrimmed, ht.chain.append hs.chain ?_⟩
  intro a _ b hb
  exact mayFollow_of_not_isBlank (hs.head b hb)

/-- Two single-spaced texts with a space between them. -/
theorem append_space (ht : SingleSpaced t) (hs : SingleSpaced s) (hne : t ≠ [])
    (hne' : s ≠ []) : SingleSpaced (t ++ ' ' :: s) := by
  obtain ⟨b, cs, rfl⟩ := List.exists_cons_of_ne_nil hne'
  have hb : isBlank b = false := hs.head b rfl
  refine ⟨⟨fun c hc => ?_, fun c hc => ?_⟩, ht.chain.append ?_ ?_⟩
  · rw [List.head?_append_of_ne_nil t hne] at hc
    exact ht.head c hc
  · -- The end of the whole is that of the second text, which is not empty.
    rw [List.getLast?_append, List.getLast?_cons_cons] at hc
    have hlast := List.getLast?_eq_getLast_of_ne_nil hne'
    rw [hlast] at hc
    exact hs.last c (hlast ▸ hc)
  · exact List.isChain_cons_cons.2 ⟨mayFollow_of_not_isBlank hb, hs.chain⟩
  · intro a ha c hc
    obtain rfl : ' ' = c := Option.some.inj hc
    exact fun _ => ⟨rfl, ht.last a ha⟩

/-- Words with one space between neighbours. -/
theorem unwords {ws : List Text} (h : ∀ w ∈ ws, w ≠ [] ∧ Solid w) :
    SingleSpaced (Text.unwords ws) ∧ (ws ≠ [] → Text.unwords ws ≠ []) := by
  induction ws with
  | nil => exact ⟨nil, fun hne => absurd rfl hne⟩
  | cons w ws ih =>
    obtain ⟨hne, hsolid⟩ := h w (.head ws)
    obtain ⟨hspaced, hne'⟩ := ih fun v hv => h v (.tail w hv)
    by_cases hws : ws = []
    · rw [hws, unwords_singleton]
      exact ⟨of_solid hsolid, fun _ => hne⟩
    · rw [unwords_cons hws]
      exact ⟨(of_solid hsolid).append_space hspaced hne (hne' hws), fun _ => by simp⟩

/-- A blank in a single-spaced text is a space, and parts it into two texts that are not empty. The
second of these is single-spaced. -/
theorem of_append_blank {c : Char} (hc : isBlank c) (h : SingleSpaced (t ++ c :: s)) :
    c = ' ' ∧ t ≠ [] ∧ s ≠ [] ∧ SingleSpaced s := by
  obtain ⟨-, hchain, hlink⟩ := List.isChain_append.1 h.chain
  obtain ⟨hnext, hchain⟩ := List.isChain_cons.1 hchain
  -- A blank stands at neither end of a single-spaced text.
  have ht : t ≠ [] := by
    rintro rfl
    have hhead := h.head c rfl
    rw [hhead] at hc
    cases hc
  have hs : s ≠ [] := by
    rintro rfl
    have hlast := h.last c (by simp)
    rw [hlast] at hc
    cases hc
  refine ⟨?_, ht, hs, ⟨fun b hb => ?_, fun b hb => ?_⟩, hchain⟩
  · exact (hlink (t.getLast ht) (List.getLast?_eq_getLast_of_ne_nil ht) c rfl hc).1
  · by_contra hblank
    have hnot := (hnext b hb (by simpa using hblank)).2
    rw [hnot] at hc
    cases hc
  · apply h.last b
    rw [List.getLast?_append, List.getLast?_cons_of_ne_nil hs, hb]
    rfl

/-- Behind its first character a single-spaced text is single-spaced where no blank follows. -/
theorem tail {a : Char} (h : SingleSpaced (a :: t)) (hhead : ∀ c ∈ t.head?, isBlank c = false) :
    SingleSpaced t := by
  refine ⟨⟨hhead, fun c hc => h.last c ?_⟩, (List.isChain_cons.1 h.chain).2⟩
  rw [List.getLast?_cons, hc]
  rfl

/-- Collapsing a single-spaced text changes nothing. -/
theorem collapse_eq (h : SingleSpaced t) : collapse t = t := by
  -- The text is its first word, and behind a space a shorter text of the same kind.
  induction hn : t.length using Nat.strongRecOn generalizing t with
  | ind n ih =>
    unfold collapse
    by_cases hsolid : Solid t
    · by_cases hne : t = []
      · rw [hne, words_nil, unwords_nil]
      · rw [words_of_solid hne hsolid, unwords_singleton]
    · obtain ⟨w, c, rest, rfl, hw, hc⟩ := exists_eq_append_blank hsolid
      obtain ⟨rfl, hwne, hrestne, hrest⟩ := h.of_append_blank hc
      have hlen : rest.length < n := by
        rw [← hn, List.length_append, List.length_cons]
        omega
      have hcollapse : Text.unwords (words rest) = rest := ih rest.length hlen hrest rfl
      -- The rest has words of its own, so a space joins the first word to them.
      have hwords : words rest ≠ [] := by
        intro hnil
        rw [hnil, unwords_nil] at hcollapse
        exact hrestne hcollapse.symm
      rw [words_append_blank hc, words_of_solid hwne hw, List.singleton_append,
        unwords_cons hwords, hcollapse]

/-- A single-spaced text that is not empty has words. -/
theorem words_ne_nil (h : SingleSpaced t) (hne : t ≠ []) : words t ≠ [] := by
  intro hnil
  have hcollapse := h.collapse_eq
  unfold collapse at hcollapse
  rw [hnil, unwords_nil] at hcollapse
  exact hne hcollapse.symm

end SingleSpaced

/-- Collapsing makes a text single-spaced. -/
theorem singleSpaced_collapse (t : Text) : SingleSpaced (collapse t) :=
  (SingleSpaced.unwords fun _ hw => mem_words hw).1

/-- Without the blanks at its ends, a text whose blanks are single spaces is single-spaced. -/
theorem singleSpaced_trim {t : Text} (h : t.IsChain MayFollow) : SingleSpaced (trim t) := by
  have hright : trim t <+: trimLeft t := by
    unfold trim trimRight dropTrailing
    rw [← List.reverse_suffix, List.reverse_reverse]
    exact List.dropWhile_suffix isBlank
  have hinfix : trim t <:+: t := hright.isInfix.trans (List.dropWhile_suffix isBlank).isInfix
  refine ⟨⟨fun c hc => ?_, fun c hc => isBlank_of_getLast?_trim hc⟩, h.infix hinfix⟩
  -- The first character is that of the text without the blanks in front.
  obtain ⟨after, hafter⟩ := hright
  have hne : trim t ≠ [] := by
    intro hnil
    rw [hnil] at hc
    cases hc
  have hfirst : (trimLeft t).head? = some c := by
    rw [← hafter, List.head?_append_of_ne_nil _ hne]
    exact hc
  have hhead := List.head?_dropWhile_not isBlank t
  rw [show t.dropWhile isBlank = trimLeft t from rfl, hfirst] at hhead
  exact hhead

/-- The words of two lists, the second behind a space. -/
theorem unwords_append {ws vs : List Text} (hws : ws ≠ []) (hvs : vs ≠ []) :
    unwords (ws ++ vs) = unwords ws ++ ' ' :: unwords vs := by
  induction ws with
  | nil => exact absurd rfl hws
  | cons w ws ih =>
    by_cases hnil : ws = []
    · rw [hnil, List.singleton_append, unwords_cons hvs, unwords_singleton]
    · rw [List.cons_append, unwords_cons (by simp [hnil]), ih hnil, unwords_cons hnil,
        List.append_assoc, List.cons_append]

/-- A word among others stands behind the words in front and a space, and in front of a space and
the words behind. -/
theorem exists_unwords_eq (ws : List Text) (w : Text) (vs : List Text) :
    ∃ front behind, unwords (ws ++ w :: vs) = front ++ w ++ behind ∧
      (front = [] ∧ ws = [] ∨ front = unwords ws ++ [' ']) ∧
      (behind = [] ∧ vs = [] ∨ behind = ' ' :: unwords vs) := by
  have hbehind : ∃ behind, unwords (w :: vs) = w ++ behind ∧
      (behind = [] ∧ vs = [] ∨ behind = ' ' :: unwords vs) := by
    by_cases hvs : vs = []
    · exact ⟨[], by rw [hvs, unwords_singleton, List.append_nil], .inl ⟨rfl, hvs⟩⟩
    · exact ⟨_, unwords_cons hvs w, .inr rfl⟩
  obtain ⟨behind, hsplit, hcases⟩ := hbehind
  by_cases hws : ws = []
  · exact ⟨[], behind, by rw [hws, List.nil_append, List.nil_append, hsplit], .inl ⟨rfl, hws⟩,
      hcases⟩
  · refine ⟨unwords ws ++ [' '], behind, ?_, .inr rfl, hcases⟩
    rw [unwords_append hws (List.cons_ne_nil w vs), hsplit]
    simp

/-- The characters of the words are those of the text that are not blank. -/
theorem flatten_words (t : Text) : (words t).flatten = t.filter (!isBlank ·) := by
  unfold words
  rw [List.flatten_filter_not_isEmpty]
  induction t with
  | nil => rfl
  | cons c t ih =>
    rw [List.splitOnP_cons_eq_if_modifyHead]
    split
    · rename_i hc
      rw [List.flatten_cons, List.nil_append, ih, List.filter_cons_of_neg (by simp [hc])]
    · rename_i hc
      obtain ⟨w, ws, hws⟩ := List.exists_cons_of_ne_nil (List.splitOnP_ne_nil isBlank t)
      rw [hws] at ih ⊢
      rw [List.filter_cons_of_pos (by simp [hc]), ← ih]
      rfl

/-- Collapsing keeps the characters that are not blank. -/
theorem filter_collapse (t : Text) :
    (collapse t).filter (!isBlank ·) = t.filter (!isBlank ·) := by
  have hunwords : ∀ ws : List Text, (∀ w ∈ ws, Solid w) →
      (unwords ws).filter (!isBlank ·) = ws.flatten := by
    intro ws hws
    induction ws with
    | nil => rfl
    | cons w ws ih =>
      obtain ⟨hw, hrest⟩ := List.forall_mem_cons.1 hws
      by_cases hnil : ws = []
      · rw [hnil, unwords_singleton, Solid.filter_eq hw, List.flatten_singleton]
      · rw [unwords_cons hnil, List.filter_append, Solid.filter_eq hw,
          List.filter_cons_of_neg (by decide), ih hrest, List.flatten_cons]
  unfold collapse
  rw [hunwords (words t) fun w hw => (mem_words hw).2, flatten_words]

/-- A character that is not blank stands in a text exactly when it stands in a word of it. -/
theorem mem_iff_exists_word {t : Text} {c : Char} (hc : isBlank c = false) :
    c ∈ t ↔ ∃ w ∈ words t, c ∈ w := by
  have hflat : c ∈ (words t).flatten ↔ c ∈ t.filter (!isBlank ·) := by rw [flatten_words]
  simpa [List.mem_filter, hc] using hflat.symm

/-- A text without words is blank. -/
theorem words_eq_nil_iff {t : Text} : words t = [] ↔ ∀ c ∈ t, isBlank c := by
  constructor
  · intro hnil c hc
    by_contra hblank
    rw [Bool.not_eq_true] at hblank
    obtain ⟨w, hw, -⟩ := (mem_iff_exists_word hblank).1 hc
    rw [hnil] at hw
    cases hw
  · intro hblank
    have hnone := words_append_of_blank hblank []
    rwa [List.append_nil, words_nil] at hnone

/-- Joining words adds spaces only. -/
theorem mem_unwords {ws : List Text} {c : Char} (hc : c ≠ ' ') :
    c ∈ unwords ws ↔ ∃ w ∈ ws, c ∈ w := by
  induction ws with
  | nil => simp
  | cons w ws ih =>
    by_cases hnil : ws = []
    · rw [hnil, unwords_singleton]
      simp
    · rw [unwords_cons hnil, List.mem_append, List.mem_cons, ih]
      simp [hc]

/-- Collapsing keeps a character that is not blank. -/
theorem mem_collapse {t : Text} {c : Char} (hc : isBlank c = false) : c ∈ collapse t ↔ c ∈ t := by
  have hspace : c ≠ ' ' := ne_space_of_not_isBlank hc
  unfold collapse
  rw [mem_unwords hspace, mem_iff_exists_word hc]

/-- The blanks of a collapsed text are spaces. -/
theorem eq_space_of_mem_collapse {t : Text} {c : Char} (hmem : c ∈ collapse t) (hc : isBlank c) :
    c = ' ' := by
  by_contra hspace
  obtain ⟨w, hw, hcw⟩ := (mem_unwords hspace).1 hmem
  rw [(mem_words hw).2 c hcw] at hc
  cases hc

/-! ## Without the blanks at the ends -/

/-- Blanks at the end belong to no word. -/
theorem words_trimRight (t : Text) : words (trimRight t) = words t := by
  unfold trimRight dropTrailing
  induction t using List.reverseRecOn with
  | nil => rfl
  | append_singleton t c ih =>
    rw [List.reverse_concat]
    by_cases hc : isBlank c = true
    · rw [List.dropWhile_cons_of_pos hc, ih, words_concat_blank hc]
    · rw [List.dropWhile_cons_of_neg hc, ← List.reverse_concat, List.reverse_reverse]

/-- Blanks in front belong to no word. -/
theorem words_trimLeft (t : Text) : words (trimLeft t) = words t := by
  have hblank : ∀ c ∈ t.takeWhile isBlank, isBlank c := fun _ hc => List.mem_takeWhile_imp hc
  rw [← words_append_of_blank hblank]
  exact congrArg words (List.takeWhile_append_dropWhile ..)

/-- Blanks at the ends belong to no word. -/
theorem words_trim (t : Text) : words (trim t) = words t := by
  unfold trim
  rw [words_trimRight, words_trimLeft]

/-- Trimming at the end leaves blanks out. -/
theorem filter_trimRight (t : Text) :
    (trimRight t).filter (!isBlank ·) = t.filter (!isBlank ·) := by
  rw [← flatten_words, words_trimRight, flatten_words]

/-- Trimming leaves blanks out. -/
theorem filter_trim (t : Text) : (trim t).filter (!isBlank ·) = t.filter (!isBlank ·) := by
  rw [← flatten_words, words_trim, flatten_words]

theorem collapse_trim (t : Text) : collapse (trim t) = collapse t := by
  unfold collapse
  rw [words_trim]

/-- Of a blank text nothing is left. -/
theorem trim_eq_nil_iff {t : Text} : trim t = [] ↔ ∀ c ∈ t, isBlank c := by
  rw [← words_eq_nil_iff, ← words_trim]
  refine ⟨fun hnil => by rw [hnil, words_nil], fun hwords => ?_⟩
  by_contra hne
  -- The last character of a trimmed text is not blank.
  have hlast := List.getLast?_eq_some_getLast hne
  have hblank := words_eq_nil_iff.1 hwords _ (List.getLast_mem hne)
  rw [isBlank_of_getLast?_trim hlast] at hblank
  cases hblank

theorem collapse_collapse (t : Text) : collapse (collapse t) = collapse t :=
  (singleSpaced_collapse t).collapse_eq

end Text

end NativeBindings
