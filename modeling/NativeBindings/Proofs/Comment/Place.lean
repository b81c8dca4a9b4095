import NativeBindings.Comment

/-!
# Where a character stands

The reader of lines keeps two fields, the quote of the literal that it is in, and a text. For proofs
all this is one thing, the place at which a character stands (`Place`): outside comments and
literals, in a literal, or in a block comment with its text up to there. Reading by places
(`readFrom`) gives what the reader gives (`strip_place`). There is no place for a reader that is
outside comments and has a text all the same, and none is needed: from a place on, the reader comes
to places only.
-/

namespace NativeBindings.Comment

/-- Where a character of the source stands. -/
inductive Place
  /-- Outside comments and literals. -/
  | code
  /-- Inside a literal that ends with the given quote. -/
  | literal (quote : Char)
  /-- Inside a block comment, with its text up to here, last character first. -/
  | block (seen : Text)
  deriving DecidableEq, Repr

/-- What the rest of a line gives when it is read from the given place on. -/
def readFrom (kept : List Text) : Place → Text → Line
  | .code, [] => ⟨[], none, none⟩
  | .literal _, [] => ⟨[], none, none⟩
  -- The line end belongs to the comment too.
  | .block seen, [] => ⟨[], none, some ('\n' :: seen)⟩
  | .block seen, '*' :: '/' :: cs =>
    (readFrom kept .code cs).prepend (replacement kept seen.reverse)
  | .block seen, c :: cs => readFrom kept (.block (c :: seen)) cs
  -- An escaped quote does not end a literal.
  | .literal q, '\\' :: c :: cs => (readFrom kept (.literal q) cs).prepend ['\\', c]
  | .literal q, c :: cs => (readFrom kept (if c = q then .code else .literal q) cs).prepend [c]
  | .code, '/' :: '*' :: cs => readFrom kept (.block []) cs
  | .code, '/' :: '/' :: cs => ⟨[], remark? ('/' :: '/' :: cs), none⟩
  | .code, c :: cs => (readFrom kept (if isQuote c then .literal c else .code) cs).prepend [c]

@[simp] theorem code_prepend (code : Text) (l : Line) : (l.prepend code).code = code ++ l.code :=
  rfl

@[simp] theorem pending_prepend (code : Text) (l : Line) : (l.prepend code).pending = l.pending :=
  rfl

/-- What the rest of a line leaves open does not depend on the comments that stay in the code. -/
theorem pending_readFrom (kept : List Text) (place : Place) (t : Text) :
    (readFrom kept place t).pending = (readFrom [] place t).pending := by
  fun_induction readFrom kept place t with
  | case1 => rfl
  | case2 => rfl
  | case3 => rfl
  | case4 seen cs ih => rw [readFrom, pending_prepend, pending_prepend, ih]
  -- The text does not close the comment here, and so does not when nothing is kept either.
  | case5 seen c cs hclose ih => rw [readFrom, ih]; exact hclose
  | case6 q c cs ih => rw [readFrom, pending_prepend, pending_prepend, ih]
  | case7 q c cs hescape ih => rw [readFrom, pending_prepend, pending_prepend, ih]; exact hescape
  | case8 cs ih => rw [readFrom, ih]
  | case9 cs => rw [readFrom]
  | case10 c cs hblock hline ih =>
    rw [readFrom, pending_prepend, pending_prepend, ih]
    · exact hblock
    · exact hline

/-- A backslash that escapes nothing stands at the end of its line. -/
theorem eq_nil_of_not_escape {c : Char} {cs : Text}
    (h : ∀ d ds, c = '\\' → cs = d :: ds → False) (hc : c = '\\') : cs = [] := by
  cases cs with
  | nil => rfl
  | cons d ds => exact (h d ds hc rfl).elim

/-! ## The reader at a place -/

/-- The reader at a place. -/
def Place.reader : Place → LineReader
  | .code => {}
  | .literal _ => {}
  | .block seen => ⟨true, seen⟩

/-- The quote of the literal that a place is in. -/
def Place.quote? : Place → Option Char
  | .literal q => some q
  | _ => none

/-- The reader behind lines that leave a comment open, or none. -/
def LineReader.ofPending : Option Text → LineReader
  | none => {}
  | some text => ⟨true, text⟩

@[simp] theorem LineReader.inBlock_ofPending (pending : Option Text) :
    (ofPending pending).inBlock = pending.isSome := by
  cases pending <;> rfl

/-- At a place the reader reads what is read from the place on, and behind the line it is outside
comments without a text, or inside the comment that the line leaves open, with its text. -/
theorem strip_place (kept : List Text) (place : Place) (t : Text) :
    place.reader.strip kept place.quote? t =
      (readFrom kept place t, .ofPending (readFrom kept place t).pending) := by
  fun_induction readFrom kept place t with
  | case1 => rfl
  | case2 => rfl
  | case3 => rfl
  | case4 seen cs ih =>
    exact congrArg (Prod.map (Line.prepend (replacement kept seen.reverse)) id) ih
  | case5 seen c cs hclose ih =>
    -- The comment goes on, for what stands here does not close it.
    have hround : (Place.block seen).reader.round kept none c cs.head? =
        .one (Place.block (c :: seen)).reader none [] := by
      refine (if_pos rfl).trans (if_neg ?_)
      rintro ⟨rfl, hnext⟩
      obtain ⟨rest, rfl⟩ := List.head?_eq_some_iff.1 hnext
      exact hclose rest rfl rfl
    show LineReader.strip kept _ none (c :: cs) = _
    rw [LineReader.strip, hround]
    exact congrArg (Prod.map (Line.prepend []) id) ih
  | case6 q c cs ih => exact congrArg (Prod.map (Line.prepend ['\\', c]) id) ih
  | case7 q c cs hescape ih =>
    by_cases hbackslash : c = '\\'
    · obtain rfl := eq_nil_of_not_escape hescape hbackslash
      subst hbackslash
      split <;> rfl
    · have hround : (Place.literal q).reader.round kept (some q) c cs.head? =
          .one {} (if c = q then none else some q) [c] := if_neg hbackslash
      show LineReader.strip kept _ (some q) (c :: cs) = _
      rw [LineReader.strip, hround]
      -- The quote of the literal ends it.
      by_cases hq : c = q
      · simp only [if_pos hq] at ih ⊢
        exact congrArg (Prod.map (Line.prepend [c]) id) ih
      · simp only [if_neg hq] at ih ⊢
        exact congrArg (Prod.map (Line.prepend [c]) id) ih
  | case8 cs ih => exact congrArg (Prod.map (Line.prepend []) id) ih
  | case9 cs => rfl
  | case10 c cs hblock hline ih =>
    -- No comment starts here, and a quote starts a literal.
    have hopens : ¬(c = '/' ∧ cs.head? = some '*') := by
      rintro ⟨rfl, hnext⟩
      obtain ⟨rest, rfl⟩ := List.head?_eq_some_iff.1 hnext
      exact hblock rest rfl rfl
    have hrest : ¬(c = '/' ∧ cs.head? = some '/') := by
      rintro ⟨rfl, hnext⟩
      obtain ⟨rest, rfl⟩ := List.head?_eq_some_iff.1 hnext
      exact hline rest rfl rfl
    have hround : Place.code.reader.round kept none c cs.head? =
        .one {} (if isQuote c then some c else none) [c] :=
      (if_neg hopens).trans (if_neg hrest)
    show LineReader.strip kept _ none (c :: cs) = _
    rw [LineReader.strip, hround]
    by_cases hquote : isQuote c
    · simp only [if_pos hquote] at ih ⊢
      exact congrArg (Prod.map (Line.prepend [c]) id) ih
    · simp only [if_neg hquote] at ih ⊢
      exact congrArg (Prod.map (Line.prepend [c]) id) ih

/-! ## Lines -/

/-- The place at the start of a line, given the block comment left open before it. -/
def placeOf (pending : Option Text) : Place :=
  match pending with
  | none => .code
  | some seen => .block seen

/-- What a line gives after a line that left `pending` open. -/
def readLine (kept : List Text) (pending : Option Text) (line : Text) : Line :=
  ((LineReader.ofPending pending).strip kept none line).1

/-- At the start of a line the reader is at a place. -/
theorem strip_ofPending (kept : List Text) (pending : Option Text) (line : Text) :
    (LineReader.ofPending pending).strip kept none line =
      (readLine kept pending line, .ofPending (readLine kept pending line).pending) := by
  have hplace := strip_place kept (placeOf pending) line
  have hstart : (placeOf pending).reader = .ofPending pending ∧
      (placeOf pending).quote? = none := by
    cases pending <;> exact ⟨rfl, rfl⟩
  rw [hstart.1, hstart.2] at hplace
  unfold readLine
  rw [hplace]

/-- A line is read from the place at its start on. -/
theorem readLine_eq (kept : List Text) (pending : Option Text) (line : Text) :
    readLine kept pending line = readFrom kept (placeOf pending) line := by
  have hplace := strip_place kept (placeOf pending) line
  unfold readLine
  cases pending <;> exact congrArg Prod.fst hplace

end NativeBindings.Comment
