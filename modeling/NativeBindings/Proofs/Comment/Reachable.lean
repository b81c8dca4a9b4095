import Mathlib.Tactic.SplitIfs
import NativeBindings.Comment

/-!
# The reader inside its lines

`Reached` follows the reader round by round over lines, and says what it carries and what is left to
read. The reader behind whole lines is among those reached (`Reached.stripAll`). The text that the
reader collects in a comment is taken away when the comment closes, and nothing is added to it
outside comments. So there is none wherever the reader is outside comments
(`Reached.clean`), although a comment that opens does not look for one.
-/

namespace NativeBindings.Comment

variable {kept lines : List Text} {r : LineReader} {quote : Option Char}

/-- Over lines, in front of which the reader is new, it comes to the given state: what it carries,
the quote of the literal that it is in, and what is left, the rest of its line first. -/
inductive Reached (kept lines : List Text) : LineReader → Option Char → List Text → Prop
  /-- In front of all lines. -/
  | start : Reached kept lines {} none lines
  /-- A round reads one character. -/
  | one {r r' : LineReader} {quote quote' : Option Char} {c : Char} {cs code : Text}
      {ls : List Text} (h : Reached kept lines r quote ((c :: cs) :: ls))
      (hround : r.round kept quote c cs.head? = .one r' quote' code) :
      Reached kept lines r' quote' (cs :: ls)
  /-- A round reads two characters. -/
  | two {r r' : LineReader} {quote quote' : Option Char} {c d : Char} {cs code : Text}
      {ls : List Text} (h : Reached kept lines r quote ((c :: d :: cs) :: ls))
      (hround : r.round kept quote c (some d) = .two r' quote' code) :
      Reached kept lines r' quote' (cs :: ls)
  /-- The rest of the line is a line comment. -/
  | rest {r : LineReader} {quote : Option Char} {c : Char} {cs : Text} {ls : List Text}
      (h : Reached kept lines r quote ((c :: cs) :: ls))
      (hround : r.round kept quote c cs.head? = .rest) : Reached kept lines r quote ([] :: ls)
  /-- The line ends. -/
  | lineEnd {r : LineReader} {quote : Option Char} {ls : List Text}
      (h : Reached kept lines r quote ([] :: ls)) : Reached kept lines r.lineEnd none ls

/-! ## Whole lines -/

/-- Two characters are read only where there are two. -/
theorem ne_none_of_round_eq_two {r' : LineReader} {quote' next : Option Char} {c : Char}
    {code : Text} (h : r.round kept quote c next = .two r' quote' code) : next ≠ none := by
  rintro rfl
  unfold LineReader.round at h
  cases quote with
  | some q =>
    dsimp only at h
    split_ifs at h with hblock hclose
    cases hclose.2
  | none =>
    dsimp only at h
    split_ifs at h with hblock hclose hopen
    · cases hclose.2
    · cases hopen.2

/-- The rest of a line leads to the next line. -/
theorem Reached.strip {t : Text} {ls : List Text} (h : Reached kept lines r quote (t :: ls)) :
    Reached kept lines (r.strip kept quote t).2 none ls := by
  fun_induction LineReader.strip kept r quote t with
  | case1 r quote => exact h.lineEnd
  | case2 r quote c cs r' quote' code hround ih => exact ih (h.one hround)
  | case3 r quote c r' quote' code hround => exact absurd rfl (ne_none_of_round_eq_two hround)
  | case4 r quote c r' quote' code d cs hround ih => exact ih (h.two hround)
  | case5 r quote c cs hround => exact (h.rest hround).lineEnd

/-- Whole lines lead to the lines behind them. -/
theorem Reached.stripAll {before after : List Text}
    (h : Reached kept lines r none (before ++ after)) :
    Reached kept lines (r.stripAll kept before).2 none after := by
  induction before generalizing r with
  | nil => exact h
  | cons l before ih => exact ih h.strip

/-! ## The text outside comments -/

/-- Outside comments the reader has no text. -/
def LineReader.Clean (r : LineReader) : Prop := r.inBlock = false → r.block = []

/-- The reader that a round gives. -/
def LineReader.Round.reader? : LineReader.Round → Option LineReader
  | .one r _ _ => some r
  | .two r _ _ => some r
  | .rest => none

/-- A round that ends outside comments has taken the text away, or it has started there and adds
nothing. -/
theorem LineReader.Clean.round {r' : LineReader} {next : Option Char} {c : Char} (h : r.Clean)
    (hround : (r.round kept quote c next).reader? = some r') : r'.Clean := by
  unfold LineReader.round at hround
  by_cases hblock : r.inBlock
  · rw [if_pos hblock] at hround
    split_ifs at hround
    · -- The comment closes.
      obtain rfl := Option.some.inj hround
      exact fun _ => rfl
    · -- The comment goes on.
      obtain rfl := Option.some.inj hround
      exact fun houtside => absurd (hblock.symm.trans houtside) (by decide)
  · rw [if_neg hblock] at hround
    cases quote with
    | some q =>
      have hsame : r = r' := by
        dsimp only at hround
        split at hround
        · cases next <;> exact Option.some.inj hround
        · exact Option.some.inj hround
      exact hsame ▸ h
    | none =>
      dsimp only at hround
      split at hround
      · -- A comment opens.
        obtain rfl := Option.some.inj hround
        exact fun houtside => by cases houtside
      · split at hround
        · cases hround
        · obtain rfl := Option.some.inj hround
          exact h

/-- The end of a line adds to the text of an open comment only. -/
theorem LineReader.Clean.lineEnd (h : r.Clean) : r.lineEnd.Clean := by
  unfold LineReader.lineEnd
  split
  · rename_i hblock
    intro houtside
    exact absurd (hblock.symm.trans houtside) (by decide)
  · exact h

/-- Wherever the reader is outside comments it has no text. -/
theorem Reached.clean {rest : List Text} (h : Reached kept lines r quote rest) : r.Clean := by
  induction h with
  | start => exact fun _ => rfl
  | one _ hround ih => exact ih.round (congrArg LineReader.Round.reader? hround)
  | two _ hround ih => exact ih.round (congrArg LineReader.Round.reader? hround)
  | rest _ _ ih => exact ih
  | lineEnd _ ih => exact ih.lineEnd

end NativeBindings.Comment
