import NativeBindings.Proofs.Comment.Kept

/-!
# Code without comments

Removing comments leaves nothing that reads as a comment. Where a block comment stood there is a
space or the end of a line, so what was on its two sides does not meet, and in front of a line
comment nothing is left that a line end could complete. A second reader therefore finds no comment
in the code (`readFrom_code`), and it finds the literals that the first one found, because the code
divides into the pieces that were there, without the comments (`HasPieces.uncommented`).
-/

namespace NativeBindings.Comment

/-! ## A second reader -/

/-- Where a second reader is that has read the code only. -/
def Place.outsideBlock : Place → Place
  | .block _ => .code
  | place => place

/-- Where no comment starts, the code starts with the character that the text starts with. -/
theorem head?_code_readFrom {t : Text} (ht : t.head? ≠ some '/') :
    (readFrom [] .code t).code.head? = t.head? := by
  cases t with
  | nil => rfl
  | cons c cs =>
    have hc : c ≠ '/' := fun h => ht (by rw [h]; rfl)
    rw [readFrom.eq_10 _ _ _ (fun _ h _ => hc h) (fun _ h _ => hc h)]
    rfl

/-- A character in front of code that is read on is read into the code, unless a comment starts. -/
theorem readFrom_code_cons {kept : List Text} {c : Char} {code : Text}
    (hslash : c = '/' → code.head? ≠ some '*' ∧ code.head? ≠ some '/') :
    readFrom kept .code (c :: code) =
      (readFrom kept (if isQuote c then .literal c else .code) code).prepend [c] :=
  readFrom.eq_10 _ _ _ (fun _ hc hrest => (hslash hc).1 (by rw [hrest]; rfl))
    fun _ hc hrest => (hslash hc).2 (by rw [hrest]; rfl)

/-- A second reader finds no comment in the code, whichever comments it keeps. -/
theorem readFrom_code (kept : List Text) (place : Place) (t : Text) :
    readFrom kept place.outsideBlock (readFrom [] place t).code =
      ⟨(readFrom [] place t).code, none, none⟩ := by
  fun_induction readFrom [] place t with
  | case1 => rfl
  | case2 => rfl
  | case3 => rfl
  | case4 seen cs ih =>
    -- The space that stands for the comment starts nothing.
    have hspace : replacement [] seen.reverse = [' '] := rfl
    rw [code_prepend, hspace, List.singleton_append]
    show readFrom kept .code _ = _
    rw [readFrom_code_cons (fun h => by cases h)]
    exact congrArg (Line.prepend [' ']) ih
  | case5 seen c cs hclose ih => exact ih
  | case6 q c cs ih =>
    exact congrArg (Line.prepend ['\\', c]) ih
  | case7 q c cs hescape ih =>
    -- The second reader stands in the same literal, or behind it.
    have hplace : Place.outsideBlock (if c = q then .code else .literal q) =
        if c = q then .code else .literal q := by split <;> rfl
    rw [hplace] at ih
    rw [code_prepend, List.singleton_append]
    show readFrom kept (.literal q) _ = _
    rw [readFrom.eq_7]
    · exact congrArg (Line.prepend [c]) ih
    · -- A backslash that escapes nothing is the last character of its line.
      intro d ds hc hcode
      cases cs with
      | cons x xs => exact hescape x xs hc rfl
      | nil => split at hcode <;> cases hcode
  | case8 cs ih => exact ih
  | case9 cs => rfl
  | case10 c cs hblock hline ih =>
    rw [code_prepend, List.singleton_append]
    show readFrom kept .code _ = _
    rw [readFrom_code_cons]
    · have hplace : Place.outsideBlock (if isQuote c then .literal c else .code) =
          if isQuote c then .literal c else .code := by split <;> rfl
      rw [hplace] at ih
      exact congrArg (Line.prepend [c]) ih
    · -- A slash in front of the code that is left is not followed by a star or a slash there
      -- either.
      rintro rfl
      have hstar : cs.head? ≠ some '*' := fun h => by
        obtain ⟨rest, hrest⟩ := List.head?_eq_some_iff.1 h
        exact hblock rest rfl hrest
      have hslash : cs.head? ≠ some '/' := fun h => by
        obtain ⟨rest, hrest⟩ := List.head?_eq_some_iff.1 h
        exact hline rest rfl hrest
      rw [if_neg (by decide), head?_code_readFrom hslash]
      exact ⟨hstar, hslash⟩

/-- Lines of code without comments are read as they are. -/
theorem readLinesAfter_code (kept : List Text) (pending : Option Text) (lines : List Text) :
    readLines kept ((readLinesAfter [] pending lines).map (·.code)) =
      (readLinesAfter [] pending lines).map fun l => ⟨l.code, none, none⟩ := by
  induction lines generalizing pending with
  | nil => rfl
  | cons line lines ih =>
    have hplace : (placeOf pending).outsideBlock = .code := by cases pending <;> rfl
    have hline : readLine kept none (readLine [] pending line).code =
        ⟨(readLine [] pending line).code, none, none⟩ := by
      have hread := readFrom_code kept (placeOf pending) line
      rw [hplace, ← readLine_eq] at hread
      exact (readLine_eq kept none _).trans hread
    have hrest := ih (readLine [] pending line).pending
    rw [readLines_eq] at hrest ⊢
    rw [readLinesAfter, List.map_cons, readLinesAfter, hline, List.map_cons]
    exact congrArg (_ :: ·) hrest

/-! ## Pieces of the code -/

/-- What is left of a piece without comments. -/
def Piece.uncommented : Piece → List Piece
  | .block t => (lineEnds t).map (fun _ => .lineEnd) ++ [.plain ' ']
  | .remark _ => []
  | .unclosed t => (lineEnds t).map fun _ => .lineEnd
  | p => [p]

/-- The code of pieces when no comment stays. -/
abbrev codeOf (ps : List Piece) : List (Option Char) := ps.flatMap (Piece.code [])

/-- Where no comment starts, the code starts with what the text starts with. -/
theorem HasPieces.head?_codeOf {s : List (Option Char)} {ps : List Piece} (h : HasPieces s ps)
    (hs : s.head? ≠ some (some '/')) : (codeOf ps).head? = s.head? := by
  cases h with
  | block => exact absurd rfl hs
  | remark => exact absurd rfl hs
  | unclosed => exact absurd rfl hs
  | _ => rfl

/-- A literal is the same in front of another text, when its line does not go on there. -/
theorem LiteralSpan.replace {q : Char} {s r : List (Option Char)} {t : Text}
    (h : LiteralSpan q s t r) (r' : List (Option Char))
    (hr : r.head? = some none → r'.head? = some none) :
    LiteralSpan q (t.map some ++ r') t r' := by
  induction h with
  | quote s => exact .quote r'
  | lineEnd s =>
    obtain ⟨s', rfl⟩ := List.head?_eq_some_iff.1 (hr rfl)
    exact .lineEnd s'
  | backslash s =>
    obtain ⟨s', rfl⟩ := List.head?_eq_some_iff.1 (hr rfl)
    exact .backslash s'
  | escaped c _ ih => exact .escaped c (ih hr)
  | char hquote hbackslash _ ih => exact .char hquote hbackslash (ih hr)

/-- Ends of lines in front of pieces. -/
theorem HasPieces.lineEnds {s : List (Option Char)} {ps : List Piece} (h : HasPieces s ps)
    (t : List (Option Char)) :
    HasPieces (Comment.lineEnds t ++ s) ((Comment.lineEnds t).map (fun _ => .lineEnd) ++ ps) := by
  induction t with
  | nil => exact h
  | cons c t ih =>
    cases c with
    | none => exact .lineEnd ih
    | some c => exact ih

/-- Without the comments the code has the pieces that were there. -/
theorem HasPieces.uncommented {s : List (Option Char)} {ps : List Piece} (h : HasPieces s ps) :
    HasPieces (codeOf ps) (ps.flatMap Piece.uncommented) := by
  induction h with
  | nil => exact .nil
  | lineEnd _ ih => exact .lineEnd ih
  | @plain c s ps hquote hslash h ih =>
    -- What follows the slash in the code is what followed it in the text.
    have hcode : c = '/' → (codeOf ps).head? ≠ some (some '*') ∧
        (codeOf ps).head? ≠ some (some '/') := by
      intro hc
      rw [h.head?_codeOf (hslash hc).2]
      exact hslash hc
    exact .plain hquote hcode ih
  | @literal q t s s' ps hquote hspan h ih =>
    -- A literal that the end of the line cuts is cut there in the code as well.
    have hcode : s'.head? = some none → (codeOf ps).head? = some none := by
      intro hend
      rw [h.head?_codeOf (by rw [hend]; simp), hend]
    exact .literal hquote (hspan.replace _ hcode) ih
  | @block t s ps hopen h ih =>
    -- The space is no quote and starts no comment.
    have hspace := HasPieces.plain (c := ' ') rfl (fun hc => by cases hc) ih
    have hall := hspace.lineEnds t
    simpa [Piece.code, replacement, Piece.uncommented] using hall
  | remark t h ih => exact ih
  | @unclosed t hopen =>
    have hall := HasPieces.nil.lineEnds t
    simpa [Piece.code, Piece.uncommented] using hall

/-- Removing comments is complete, and a second time it changes nothing. Let lines be read by a
reader that keeps no comments. A new reader, whichever comments it keeps, gets every line of their
code back as it is, without a line comment and with no block comment open behind it; and the pieces
of the code are those of the lines, where a block comment became a space and the ends of its lines,
and a line comment nothing. So there is no comment in the code, and its literals are those of the
lines. -/
theorem readLines_code (kept lines : List Text) :
    let codes := (readLines [] lines).map (·.code)
    readLines kept codes = codes.map (⟨·, none, none⟩) ∧
      ∃ ps, HasPieces (stream lines) ps ∧
        ∀ qs, HasPieces (stream codes) qs ↔ qs = ps.flatMap Piece.uncommented := by
  intro codes
  refine ⟨?_, ?_⟩
  · have hread := readLinesAfter_code kept none lines
    rw [← readLines_eq] at hread
    rw [List.map_map]
    exact hread
  · obtain ⟨ps, hps, hcode, -⟩ := exists_hasPieces [] lines
    have hcodes : HasPieces (stream codes) (ps.flatMap Piece.uncommented) := by
      rw [hcode]
      exact hps.uncommented
    exact ⟨ps, hps, fun qs => ⟨fun hqs => hqs.unique hcodes, fun h => h ▸ hcodes⟩⟩

end NativeBindings.Comment
