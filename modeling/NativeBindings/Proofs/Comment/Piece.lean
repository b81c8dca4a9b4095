import Mathlib.Data.List.Infix
import NativeBindings.Comment

/-!
# The pieces of lines

`HasPieces` says how lines divide into code, literals and comments, by what is written in them and
without the reader's places. A block comment goes to the first closing delimiter behind its opening
one, on whatever line that stands; a literal goes to the first quote of its own that is not escaped,
or to the end of its line; a line comment goes to the end of its line. Every text of lines has at
most one division (`HasPieces.unique`).

Lines are taken as one text, in which `none` is the end of a line.
-/

namespace NativeBindings.Comment

/-- The characters of lines, with `none` for the end of each line. -/
def stream (lines : List Text) : List (Option Char) := lines.flatMap fun l => l.map some ++ [none]

theorem stream_cons (line : Text) (lines : List Text) :
    stream (line :: lines) = line.map some ++ none :: stream lines := by
  unfold stream
  rw [List.flatMap_cons, List.append_assoc]
  rfl

/-- A character in front of a line. -/
theorem stream_cons_cons (c : Char) (line : Text) (lines : List Text) :
    stream ((c :: line) :: lines) = some c :: stream (line :: lines) := by
  rw [stream_cons, stream_cons, List.map_cons, List.cons_append]

/-- A text in front of a line. -/
theorem stream_append (t line : Text) (lines : List Text) :
    stream ((t ++ line) :: lines) = t.map some ++ stream (line :: lines) := by
  rw [stream_cons, stream_cons, List.map_append, List.append_assoc]

/-- What lines divide into. -/
inductive Piece
  /-- A character of the code that is in no literal. -/
  | plain (c : Char)
  /-- A literal, with its quotes. -/
  | literal (t : Text)
  /-- A block comment, given by the text between its delimiters. -/
  | block (t : List (Option Char))
  /-- A line comment, with its slashes. -/
  | remark (t : Text)
  /-- The end of a line that does not lie in a block comment. -/
  | lineEnd
  /-- A block comment that is not closed, given by the text behind its delimiter. -/
  | unclosed (t : List (Option Char))

/-- Behind its opening quote `q` a literal goes on with the given text, and what follows it is the
last text. -/
inductive LiteralSpan (q : Char) : List (Option Char) → Text → List (Option Char) → Prop
  /-- The quote closes it. -/
  | quote (s : List (Option Char)) : LiteralSpan q (some q :: s) [q] s
  /-- The line ends first. -/
  | lineEnd (s : List (Option Char)) : LiteralSpan q (none :: s) [] (none :: s)
  /-- The line ends behind a backslash. -/
  | backslash (s : List (Option Char)) : LiteralSpan q (some '\\' :: none :: s) ['\\'] (none :: s)
  /-- A backslash escapes the character behind it. -/
  | escaped {s s' : List (Option Char)} {t : Text} (c : Char) (h : LiteralSpan q s t s') :
      LiteralSpan q (some '\\' :: some c :: s) ('\\' :: c :: t) s'
  /-- Another character. -/
  | char {c : Char} {s s' : List (Option Char)} {t : Text} (hquote : c ≠ q)
      (hbackslash : c ≠ '\\') (h : LiteralSpan q s t s') : LiteralSpan q (some c :: s) (c :: t) s'

/-- The delimiter that closes a block comment does not occur. -/
def NoClosing (t : List (Option Char)) : Prop := ¬[some '*', some '/'] <:+: t

/-- A text of lines has the given pieces. -/
inductive HasPieces : List (Option Char) → List Piece → Prop
  /-- Nothing has none. -/
  | nil : HasPieces [] []
  /-- The end of a line. -/
  | lineEnd {s : List (Option Char)} {ps : List Piece} (h : HasPieces s ps) :
      HasPieces (none :: s) (.lineEnd :: ps)
  /-- A character that is no quote, and no slash at the start of a comment. -/
  | plain {c : Char} {s : List (Option Char)} {ps : List Piece} (hquote : isQuote c = false)
      (hslash : c = '/' → s.head? ≠ some (some '*') ∧ s.head? ≠ some (some '/'))
      (h : HasPieces s ps) : HasPieces (some c :: s) (.plain c :: ps)
  /-- A literal. -/
  | literal {q : Char} {t : Text} {s s' : List (Option Char)} {ps : List Piece}
      (hquote : isQuote q) (hspan : LiteralSpan q s t s') (h : HasPieces s' ps) :
      HasPieces (some q :: s) (.literal (q :: t) :: ps)
  /-- A block comment goes to the first closing delimiter. -/
  | block {t s : List (Option Char)} {ps : List Piece} (hopen : NoClosing t)
      (h : HasPieces s ps) :
      HasPieces (some '/' :: some '*' :: (t ++ some '*' :: some '/' :: s)) (.block t :: ps)
  /-- A line comment goes to the end of its line. -/
  | remark {s : List (Option Char)} {ps : List Piece} (t : Text) (h : HasPieces (none :: s) ps) :
      HasPieces (some '/' :: some '/' :: (t.map some ++ none :: s))
        (.remark ('/' :: '/' :: t) :: ps)
  /-- A block comment that is not closed goes to the end of all lines. -/
  | unclosed {t : List (Option Char)} (hopen : NoClosing t) :
      HasPieces (some '/' :: some '*' :: t) [.unclosed t]

/-! ## Divisions are unique -/

/-- The closing delimiter that a text without it is followed by is the first one. -/
theorem NoClosing.append_inj {t t' s s' : List (Option Char)} (h : NoClosing t)
    (h' : NoClosing t')
    (heq : t ++ some '*' :: some '/' :: s = t' ++ some '*' :: some '/' :: s') :
    t = t' ∧ s = s' := by
  -- If one text were longer, the delimiter behind the other would lie in it.
  have hlonger : ∀ {u a x x' : List (Option Char)}, NoClosing (u ++ a) →
      some '*' :: some '/' :: x = a ++ some '*' :: some '/' :: x' → a = [] ∧ x = x' := by
    intro u a x x' hu hx
    match a, hx with
    | [], hx => exact ⟨rfl, by simpa using hx⟩
    | [b], hx => simp at hx
    | b :: d :: a, hx =>
      obtain ⟨rfl, rfl, -⟩ : some '*' = b ∧ some '/' = d ∧ _ := by simpa using hx
      exact absurd ⟨u, a, by simp⟩ hu
  rcases List.append_eq_append_iff.1 heq with ⟨a, rfl, ha⟩ | ⟨a, rfl, ha⟩
  · obtain ⟨rfl, rfl⟩ := hlonger h' ha
    exact ⟨(List.append_nil t).symm, rfl⟩
  · obtain ⟨rfl, rfl⟩ := hlonger h ha
    exact ⟨List.append_nil t', rfl⟩

/-- The closing delimiter occurs in a text in front of it. -/
theorem not_noClosing (t s : List (Option Char)) : ¬NoClosing (t ++ some '*' :: some '/' :: s) :=
  fun h => h ⟨t, s, by simp⟩

/-- The rest of a line ends at one place only. -/
theorem map_some_append_inj {t t' : Text} {s s' : List (Option Char)}
    (h : t.map some ++ none :: s = t'.map some ++ none :: s') : t = t' ∧ s = s' := by
  induction t generalizing t' with
  | nil =>
    cases t' with
    | nil => exact ⟨rfl, (List.cons.inj h).2⟩
    | cons c t' => cases h
  | cons c t ih =>
    cases t' with
    | nil => cases h
    | cons c' t' =>
      obtain ⟨hc, hrest⟩ := List.cons.inj h
      obtain ⟨rfl, rfl⟩ := ih hrest
      rw [Option.some.inj hc]
      exact ⟨rfl, rfl⟩

/-- A literal ends at one place only. -/
theorem LiteralSpan.unique {q : Char} (hq : q ≠ '\\') {s r r' : List (Option Char)} {t t' : Text}
    (h : LiteralSpan q s t r) (h' : LiteralSpan q s t' r') : t = t' ∧ r = r' := by
  induction h generalizing t' with
  | quote s =>
    cases h' with
    | quote => exact ⟨rfl, rfl⟩
    | backslash => exact absurd rfl hq
    | escaped => exact absurd rfl hq
    | char hquote => exact absurd rfl hquote
  | lineEnd s =>
    cases h'
    exact ⟨rfl, rfl⟩
  | backslash s =>
    cases h' with
    | quote => exact absurd rfl hq
    | backslash => exact ⟨rfl, rfl⟩
    | char _ hbackslash => exact absurd rfl hbackslash
  | escaped c _ ih =>
    cases h' with
    | quote => exact absurd rfl hq
    | escaped _ h' =>
      obtain ⟨rfl, rfl⟩ := ih h'
      exact ⟨rfl, rfl⟩
    | char _ hbackslash => exact absurd rfl hbackslash
  | char hquote hbackslash _ ih =>
    -- The character is no quote and no backslash, so it is read like this in both.
    cases h' with
    | quote => exact absurd rfl hquote
    | backslash => exact absurd rfl hbackslash
    | escaped => exact absurd rfl hbackslash
    | char _ _ h' =>
      obtain ⟨rfl, rfl⟩ := ih h'
      exact ⟨rfl, rfl⟩

/-- Neither backslashes nor slashes are quotes. -/
theorem ne_of_isQuote {q : Char} (h : isQuote q) : q ≠ '\\' ∧ q ≠ '/' := by
  constructor <;>
  · rintro rfl
    cases h

/-- The division behind the delimiter that opens a block comment. -/
theorem HasPieces.of_slash_star {s : List (Option Char)} {ps : List Piece}
    (h : HasPieces (some '/' :: some '*' :: s) ps) :
    (∃ t s' qs, s = t ++ some '*' :: some '/' :: s' ∧ NoClosing t ∧ HasPieces s' qs ∧
      ps = .block t :: qs) ∨ (NoClosing s ∧ ps = [.unclosed s]) := by
  generalize hall : some '/' :: some '*' :: s = all at h
  cases h with
  | block hopen h =>
    cases hall
    exact .inl ⟨_, _, _, rfl, hopen, h, rfl⟩
  | unclosed hopen =>
    cases hall
    exact .inr ⟨hopen, rfl⟩
  | plain _ hslash =>
    cases hall
    exact absurd rfl (hslash rfl).1
  | literal hquote =>
    cases hall
    cases hquote
  | _ => cases hall

/-- The division behind the slashes of a line comment. -/
theorem HasPieces.of_slash_slash {s : List (Option Char)} {ps : List Piece}
    (h : HasPieces (some '/' :: some '/' :: s) ps) :
    ∃ t s' qs, s = t.map some ++ none :: s' ∧ HasPieces (none :: s') qs ∧
      ps = .remark ('/' :: '/' :: t) :: qs := by
  generalize hall : some '/' :: some '/' :: s = all at h
  cases h with
  | remark t h =>
    cases hall
    exact ⟨t, _, _, rfl, h, rfl⟩
  | plain _ hslash =>
    cases hall
    exact absurd rfl (hslash rfl).2
  | literal hquote =>
    cases hall
    cases hquote
  | _ => cases hall

/-- A text of lines has one division only. -/
theorem HasPieces.unique {s : List (Option Char)} {ps qs : List Piece} (h : HasPieces s ps)
    (h' : HasPieces s qs) : ps = qs := by
  induction h generalizing qs with
  | nil =>
    cases h'
    rfl
  | lineEnd _ ih =>
    cases h' with
    | lineEnd h' => rw [ih h']
  | plain hquote hslash _ ih =>
    cases h' with
    | plain _ _ h' => rw [ih h']
    | literal hquote' =>
      rw [hquote] at hquote'
      cases hquote'
    | block => exact absurd rfl (hslash rfl).1
    | remark => exact absurd rfl (hslash rfl).2
    | unclosed => exact absurd rfl (hslash rfl).1
  | literal hquote hspan _ ih =>
    obtain ⟨hbackslash, hslash⟩ := ne_of_isQuote hquote
    cases h' with
    | plain hquote' =>
      rw [hquote'] at hquote
      cases hquote
    | literal _ hspan' h' =>
      obtain ⟨rfl, rfl⟩ := hspan.unique hbackslash hspan'
      rw [ih h']
    | block => exact absurd rfl hslash
    | remark => exact absurd rfl hslash
    | unclosed => exact absurd rfl hslash
  | block hopen _ ih =>
    -- The slash and the star open a comment in both, closed at the same place.
    rcases h'.of_slash_star with ⟨t, s', qs, hsplit, hopen', h', rfl⟩ | ⟨hopen', -⟩
    · obtain ⟨rfl, rfl⟩ := hopen.append_inj hopen' hsplit
      rw [ih h']
    · exact absurd hopen' (not_noClosing _ _)
  | remark t _ ih =>
    -- A line comment goes to the end of the line in both.
    obtain ⟨t', s', qs, hsplit, h', rfl⟩ := h'.of_slash_slash
    obtain ⟨rfl, rfl⟩ := map_some_append_inj hsplit
    rw [ih h']
  | unclosed hopen =>
    rcases h'.of_slash_star with ⟨t, s', qs, rfl, -⟩ | ⟨-, rfl⟩
    · exact absurd hopen (not_noClosing _ _)
    · rfl

end NativeBindings.Comment
