import NativeBindings.Proofs.Declaration.Parameter

/-!
# Tokens of a type

The tokens of a text are its marks and the words between marks and blanks: the words that it has
with blanks around its marks. How a type is spelled depends on its tokens only
(`tidyPlain_of_tokens`), and the last word of a text on the last of them (`exists_last_token`).
-/

namespace NativeBindings

namespace TypeText

open Text

/-- The text with blanks around its marks. -/
def apart (t : Text) : Text := t.flatMap fun c => if isMark c then [' ', c, ' '] else [c]

/-- The tokens of a text: its marks, and the words between marks and blanks. -/
def tokens (t : Text) : List Text := words (apart t)

@[simp] theorem apart_nil : apart [] = [] := rfl

@[simp] theorem apart_append (t s : Text) : apart (t ++ s) = apart t ++ apart s := by
  unfold apart
  rw [List.flatMap_append]

theorem apart_cons_of_mark {c : Char} (hc : isMark c) (t : Text) :
    apart (c :: t) = ' ' :: c :: ' ' :: apart t := by
  unfold apart
  rw [List.flatMap_cons, if_pos hc]
  rfl

theorem apart_cons_of_not_mark {c : Char} (hc : isMark c = false) (t : Text) :
    apart (c :: t) = c :: apart t := by
  unfold apart
  rw [List.flatMap_cons, hc, if_neg Bool.false_ne_true]
  rfl

theorem apart_of_not_mark {t : Text} (ht : ∀ c ∈ t, isMark c = false) : apart t = t := by
  induction t with
  | nil => rfl
  | cons c t ih =>
    obtain ⟨hc, ht⟩ := List.forall_mem_cons.1 ht
    rw [apart_cons_of_not_mark hc, ih ht]

@[simp] theorem tokens_nil : tokens [] = [] := words_nil

/-- A blank parts tokens. -/
theorem tokens_append_blank {c : Char} (hc : isBlank c) (t s : Text) :
    tokens (t ++ c :: s) = tokens t ++ tokens s := by
  have hmark : isMark c = false := by
    by_contra hmark
    rw [Bool.not_eq_false] at hmark
    rw [not_isBlank_of_isMark hmark] at hc
    cases hc
  unfold tokens
  rw [apart_append, apart_cons_of_not_mark hmark, words_append_blank hc]

/-- A mark is a token. -/
theorem tokens_append_mark {m : Char} (hm : isMark m) (t s : Text) :
    tokens (t ++ m :: s) = tokens t ++ [m] :: tokens s := by
  have hword : words [m] = [[m]] := words_of_solid (by simp) fun c hc => by
    rw [List.mem_singleton.1 hc]
    exact not_isBlank_of_isMark hm
  have hbehind : words ([m] ++ ' ' :: apart s) = [m] :: words (apart s) := by
    rw [words_append_blank (by decide), hword, List.singleton_append]
  unfold tokens
  rw [apart_append, apart_cons_of_mark hm, words_append_blank (by decide), ← hbehind]
  rfl

/-- A character at which a token ends: a blank or a mark. -/
def isBreak (c : Char) : Bool := isBlank c || isMark c

/-- Behind a blank or a mark tokens start anew. -/
theorem tokens_append {t : Text} (ht : ∀ c ∈ t.getLast?, isBreak c) (s : Text) :
    tokens (t ++ s) = tokens t ++ tokens s := by
  rcases List.eq_nil_or_concat' t with rfl | ⟨t, c, rfl⟩
  · simp
  · have hc := ht c List.getLast?_concat
    unfold isBreak at hc
    rw [Bool.or_eq_true] at hc
    rw [List.append_assoc, List.singleton_append]
    rcases hc with hc | hc
    · have hnone := tokens_append_blank hc t []
      rw [tokens_nil, List.append_nil] at hnone
      rw [tokens_append_blank hc, hnone]
    · have hnone := tokens_append_mark hc t []
      rw [tokens_nil] at hnone
      rw [tokens_append_mark hc, hnone, List.append_assoc, List.singleton_append]

/-- A text without blanks and marks is one token. -/
theorem tokens_of_solid {w : Text} (hne : w ≠ []) (hsolid : Solid w)
    (hmarks : ∀ c ∈ w, isMark c = false) : tokens w = [w] := by
  unfold tokens
  rw [apart_of_not_mark hmarks, words_of_solid hne hsolid]

/-- The tokens of a text are those of its words. -/
theorem tokens_eq_flatMap_words (t : Text) : tokens t = (words t).flatMap tokens := by
  induction hn : t.length using Nat.strongRecOn generalizing t with
  | ind n ih =>
    have hsolid : ∀ {w : Text}, Solid w → tokens w = (words w).flatMap tokens := by
      intro w hw
      by_cases hempty : w = []
      · rw [hempty, words_nil, tokens_nil, List.flatMap_nil]
      · rw [words_of_solid hempty hw, List.flatMap_singleton]
    by_cases ht : Solid t
    · exact hsolid ht
    · obtain ⟨w, c, rest, rfl, hw, hc⟩ := exists_eq_append_blank ht
      have hshorter : rest.length < n := by
        rw [← hn, List.length_append, List.length_cons]
        omega
      rw [tokens_append_blank hc, words_append_blank hc, List.flatMap_append, ← hsolid hw,
        ← ih rest.length hshorter rest rfl]

/-- Collapsing keeps the tokens. -/
theorem tokens_collapse (t : Text) : tokens (collapse t) = tokens t := by
  rw [tokens_eq_flatMap_words, words_collapse, ← tokens_eq_flatMap_words]

/-- The characters of the tokens are those of the text that are not blank. -/
theorem flatten_tokens (t : Text) : (tokens t).flatten = t.filter (!isBlank ·) := by
  unfold tokens
  rw [flatten_words]
  induction t with
  | nil => rfl
  | cons c t ih =>
    cases hc : isMark c with
    | true =>
      have hblank := not_isBlank_of_isMark hc
      rw [apart_cons_of_mark hc, List.filter_cons_of_neg (by decide),
        List.filter_cons_of_pos (by simp [hblank]), List.filter_cons_of_neg (by decide), ih,
        List.filter_cons_of_pos (by simp [hblank])]
    | false => rw [apart_cons_of_not_mark hc, List.filter_cons, List.filter_cons, ih]

/-- A character that is not blank stands in a text exactly when it stands in a token of it. -/
theorem mem_iff_exists_token {t : Text} {c : Char} (hc : isBlank c = false) :
    c ∈ t ↔ ∃ w ∈ tokens t, c ∈ w := by
  have hflat : c ∈ (tokens t).flatten ↔ c ∈ t.filter (!isBlank ·) := by rw [flatten_tokens]
  simpa [List.mem_filter, hc] using hflat.symm

/-- Texts with the same tokens hold the same characters that are not blank. -/
theorem mem_congr_of_tokens {t t' : Text} (h : tokens t = tokens t') {c : Char}
    (hc : isBlank c = false) : c ∈ t ↔ c ∈ t' := by
  rw [mem_iff_exists_token hc, h, ← mem_iff_exists_token hc]

/-- A text without tokens is blank. -/
theorem tokens_eq_nil_iff {t : Text} : tokens t = [] ↔ ∀ c ∈ t, isBlank c := by
  constructor
  · intro hnil c hc
    by_contra hblank
    rw [Bool.not_eq_true] at hblank
    obtain ⟨w, hw, -⟩ := (mem_iff_exists_token hblank).1 hc
    rw [hnil] at hw
    cases hw
  · intro hblank
    rw [tokens_eq_flatMap_words, words_eq_nil_iff.2 hblank, List.flatMap_nil]

/-- The normal spelling depends on the tokens only. -/
theorem tidyPlain_of_tokens {t t' : Text} (h : tokens t = tokens t') :
    tidyPlain t = tidyPlain t' := by
  have hglued : ∀ {m : Char}, isMark m → ∀ c, glued m c ∧ glued c m := by
    intro m hm c
    unfold glued
    simp [hm]
  -- A blank next to a mark does not matter, so the marks of a text come apart one by one.
  have happart : ∀ s t : Text, tidyPlain (s ++ apart t) = tidyPlain (s ++ t) := by
    intro s t
    induction t generalizing s with
    | nil => rfl
    | cons c t ih =>
      by_cases hc : isMark c = true
      · -- The blank in front of the mark goes, and then the one behind it.
        have hfront : tidyPlain (s ++ ' ' :: c :: ' ' :: apart t) =
            tidyPlain (s ++ c :: ' ' :: apart t) := by
          rw [tidyPlain_blank_iff (by decide)]
          rintro x - y hy
          cases hy
          exact .inr (.inr (hglued hc x).2)
        have hbehind : tidyPlain ((s ++ [c]) ++ ' ' :: apart t) =
            tidyPlain ((s ++ [c]) ++ apart t) := by
          rw [tidyPlain_blank_iff (by decide)]
          intro x hx y hy
          rw [List.getLast?_concat] at hx
          cases hx
          exact .inr (.inr (hglued hc y).1)
        rw [apart_cons_of_mark hc, hfront, List.append_cons, hbehind, ih, ← List.append_cons]
      · rw [Bool.not_eq_true] at hc
        rw [apart_cons_of_not_mark hc, List.append_cons, ih, ← List.append_cons]
  have hall := fun t => happart [] t
  simp only [List.nil_append] at hall
  rw [← hall t, ← hall t']
  exact tidyPlain_congr h

/-- A mark belongs to no word. -/
theorem startsWord_of_isMark {m : Char} (hm : isMark m) :
    isIdentChar m = false ∧ m.toNat < 128 := by
  unfold isMark at hm
  rw [Bool.or_eq_true, beq_iff_eq, beq_iff_eq] at hm
  rcases hm with rfl | rfl <;> decide

/-- Behind a mark the last word is that of the text behind it. -/
theorem trailingWord_append_mark {m : Char} (hm : isMark m) (t s : Text) :
    trailingWord (t ++ m :: s) = trailingWord s := by
  have hlast : ∀ x ∈ (t ++ [m]).getLast?, x = m := fun x hx => by
    rw [List.getLast?_concat] at hx
    exact (Option.some.inj hx).symm
  have hsplit : trimRight (t ++ [m] ++ s) = (t ++ [m]) ++ trimRight s := by
    by_cases hs : trimRight s = []
    · rw [trimRight_append_of_eq_nil hs, hs, List.append_nil]
      exact trimRight_eq fun x hx => by rw [hlast x hx]; exact not_isBlank_of_isMark hm
    · exact trimRight_append hs
  unfold trailingWord
  rw [List.append_cons, hsplit]
  refine takeTrailing_append (fun x hx => ?_) _
  obtain ⟨hident, hascii⟩ := startsWord_of_isMark hm
  rw [hlast x hx]
  simp [hident, hascii]

/-- Behind a text a token starts that is a mark or holds none. -/
def StartsToken (s w : Text) : Prop :=
  (∃ m, isMark m ∧ w = [m]) ∨ ((∀ c ∈ w, isMark c = false) ∧ ∀ c ∈ s.getLast?, isBreak c)

/-- With a front part of a token the tokens depend on those of the text in front. -/
theorem StartsToken.tokens_append_congr {s s' r u : Text} (h : StartsToken s (r ++ u))
    (h' : StartsToken s' (r ++ u)) (htokens : tokens s = tokens s') :
    tokens (s ++ r) = tokens (s' ++ r) := by
  rcases h with ⟨m, hm, hmark⟩ | ⟨hmarks, hs⟩
  · -- The front part of a mark is all of it, or nothing.
    cases r with
    | nil => rw [List.append_nil, List.append_nil, htokens]
    | cons x r =>
      obtain ⟨rfl, hnil⟩ := List.cons.inj hmark
      obtain rfl := (List.append_eq_nil_iff.1 hnil).1
      rw [tokens_append_mark hm, tokens_append_mark hm, htokens]
  · rcases h' with ⟨m, hm, hmark⟩ | ⟨-, hs'⟩
    · rw [hmarks m (hmark ▸ List.mem_singleton_self m)] at hm
      cases hm
    · rw [tokens_append hs, tokens_append hs', htokens]

/-- The last token of a text that does not end with a blank stands at its end, and the last word of
the text is the last one of the token. -/
theorem exists_last_token {t : Text} (hne : t ≠ []) (hlast : ∀ c ∈ t.getLast?, isBlank c = false)
    (hblank : ∀ c ∈ t, isBlank c → c.toNat < 128) :
    ∃ s w, t = s ++ w ∧ tokens t = tokens s ++ [w] ∧ w ≠ [] ∧ Solid w ∧ StartsToken s w ∧
      trailingWord t = trailingWord w := by
  obtain ⟨t, c, rfl⟩ := (List.eq_nil_or_concat' t).resolve_left hne
  have hcblank : isBlank c = false := hlast c List.getLast?_concat
  by_cases hc : isMark c = true
  · -- The text ends with a mark, at which no word ends.
    refine ⟨t, [c], rfl, ?_, by simp, ?_, .inl ⟨c, hc, rfl⟩, ?_⟩
    · rw [tokens_append_mark hc, tokens_nil]
    · exact fun x hx => by rwa [List.mem_singleton.1 hx]
    · rw [trailingWord_append_mark hc, ← List.nil_append [c], trailingWord_append_mark hc]
  · rw [Bool.not_eq_true] at hc
    -- The last token is all behind the last mark or blank.
    let inToken : Char → Bool := fun x => !isBreak x
    have hsplit := dropTrailing_append_takeTrailing inToken (t ++ [c])
    obtain ⟨hin, hout⟩ := takeTrailing_spec inToken (t ++ [c])
    have hend : takeTrailing inToken (t ++ [c]) ≠ [] := by
      unfold takeTrailing
      rw [List.reverse_concat, List.takeWhile_cons_of_pos (by simp [inToken, isBreak, hcblank, hc])]
      simp
    generalize takeTrailing inToken (t ++ [c]) = w at hsplit hin hend
    generalize dropTrailing inToken (t ++ [c]) = s at hsplit hout
    have hw : ∀ x ∈ w, isBlank x = false ∧ isMark x = false := fun x hx => by
      simpa [inToken, isBreak] using hin x hx
    have hs : ∀ x ∈ s.getLast?, isBreak x := fun x hx => by
      simpa [inToken] using hout x hx
    have hsolid : Solid w := fun x hx => (hw x hx).1
    -- A blank or a mark in front of it lets a word start.
    have hstarts : StartsWord s := by
      intro x hx
      have hbreak := hs x hx
      unfold isBreak at hbreak
      rcases Bool.or_eq_true_iff.1 hbreak with hx' | hx'
      · refine ⟨isIdentChar_of_isBlank hx', hblank x ?_ hx'⟩
        rw [← hsplit]
        exact List.mem_append_left w (List.mem_of_getLast? hx)
      · exact startsWord_of_isMark hx'
    have htrim : trimRight w ≠ [] := by
      rwa [trimRight_eq hsolid.trimmed.last]
    rw [← hsplit]
    refine ⟨s, w, rfl, ?_, hend, hsolid, .inr ⟨fun x hx => (hw x hx).2, hs⟩, ?_⟩
    · rw [tokens_append hs, tokens_of_solid hend hsolid fun x hx => (hw x hx).2]
    · exact hstarts.trailingWord_append htrim

end TypeText

end NativeBindings
