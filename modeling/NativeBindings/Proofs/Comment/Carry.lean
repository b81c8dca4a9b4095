import NativeBindings.Proofs.Comment.Place

/-!
# The comment that lines leave open

A line starts inside a block comment exactly when the lines in front of it leave one open.
`openAfter` is the text of that comment. It does not depend on the comments that stay in the code
(`pending_readLine`), so two readers of the same lines that keep different comments are always at
the same place. Nor does the text of an open comment tell in the code of the lines behind it, when
no comment stays in the code (`readLine_congr`).
-/

namespace NativeBindings.Comment

/-- The text of the block comment open behind the lines, given the one open in front of them. -/
def openAfter (pending : Option Text) (lines : List Text) : Option Text :=
  lines.foldl (fun p line => (readLine [] p line).pending) pending

@[simp] theorem openAfter_nil (pending : Option Text) : openAfter pending [] = pending := rfl

@[simp] theorem openAfter_cons (pending : Option Text) (line : Text) (lines : List Text) :
    openAfter pending (line :: lines) = openAfter (readLine [] pending line).pending lines := rfl

theorem openAfter_append (pending : Option Text) (lines more : List Text) :
    openAfter pending (lines ++ more) = openAfter (openAfter pending lines) more := by
  unfold openAfter
  rw [List.foldl_append]

/-- What a line leaves open does not depend on the comments that stay in the code. -/
theorem pending_readLine (kept : List Text) (pending : Option Text) (line : Text) :
    (readLine kept pending line).pending = (readLine [] pending line).pending := by
  rw [readLine_eq, readLine_eq, pending_readFrom]

/-- What the lines give after a line that left `pending` open. -/
def readLinesAfter (kept : List Text) (pending : Option Text) : List Text → List Line
  | [] => []
  | l :: ls =>
    let line := readLine kept pending l
    line :: readLinesAfter kept line.pending ls

/-- Each line is read with the comment that is open in front of it, and behind the lines the reader
has what they leave open, and nothing else. -/
theorem stripAll_ofPending (kept : List Text) (pending : Option Text) (lines : List Text) :
    (LineReader.ofPending pending).stripAll kept lines =
      (readLinesAfter kept pending lines, .ofPending (openAfter pending lines)) := by
  induction lines generalizing pending with
  | nil => rfl
  | cons line lines ih =>
    rw [LineReader.stripAll, strip_ofPending, readLinesAfter]
    dsimp only
    rw [ih, openAfter_cons, pending_readLine kept]

theorem readLines_eq (kept lines : List Text) :
    readLines kept lines = readLinesAfter kept none lines :=
  congrArg Prod.fst (stripAll_ofPending kept none lines)

/-- Reading lines starts anew behind any of them, with the comment that is open there. -/
theorem readLinesAfter_append (kept : List Text) (pending : Option Text) (lines more : List Text) :
    readLinesAfter kept pending (lines ++ more) =
      readLinesAfter kept pending lines ++ readLinesAfter kept (openAfter pending lines) more := by
  induction lines generalizing pending with
  | nil => rfl
  | cons line lines ih =>
    simp only [List.cons_append, readLinesAfter, ih, openAfter_cons, pending_readLine kept]

/-- Every line is read. -/
theorem length_readLinesAfter (kept : List Text) (pending : Option Text) (lines : List Text) :
    (readLinesAfter kept pending lines).length = lines.length := by
  induction lines generalizing pending with
  | nil => rfl
  | cons line lines ih => rw [readLinesAfter, List.length_cons, List.length_cons, ih]

/-! ## The text of the open comment -/

/-- When no comment stays, the code of the rest of a line and whether a comment is open behind it do
not depend on the text of the comment that the rest starts in. -/
theorem readFrom_block_congr (seen seen' t : Text) :
    (readFrom [] (.block seen) t).code = (readFrom [] (.block seen') t).code ∧
      (readFrom [] (.block seen) t).pending.isSome =
        (readFrom [] (.block seen') t).pending.isSome := by
  induction t generalizing seen seen' with
  | nil => exact ⟨rfl, rfl⟩
  | cons c cs ih =>
    by_cases hclose : ∃ rest, c = '*' ∧ cs = '/' :: rest
    · obtain ⟨rest, rfl, rfl⟩ := hclose
      exact ⟨rfl, rfl⟩
    · have hopen : ∀ rest, c = '*' → cs = '/' :: rest → False := fun rest hc hcs =>
        hclose ⟨rest, hc, hcs⟩
      rw [readFrom.eq_5 _ _ _ _ hopen, readFrom.eq_5 _ _ _ _ hopen]
      exact ih (c :: seen) (c :: seen')

/-- When no comment stays, the code of a line and whether a comment is open behind it depend on
whether one is open in front of it, and not on its text. -/
theorem readLine_congr {pending pending' : Option Text}
    (h : pending.isSome = pending'.isSome) (line : Text) :
    (readLine [] pending line).code = (readLine [] pending' line).code ∧
      (readLine [] pending line).pending.isSome = (readLine [] pending' line).pending.isSome := by
  cases pending with
  | none =>
    obtain rfl : pending' = none := by simpa using h.symm
    exact ⟨rfl, rfl⟩
  | some seen =>
    obtain ⟨seen', rfl⟩ := Option.isSome_iff_exists.1 h.symm
    rw [readLine_eq, readLine_eq]
    exact readFrom_block_congr seen seen' line

/-! ## Characters of a line -/

/-- Without the characters of their delimiters no comment opens or closes. -/
theorem isSome_pending_readFrom (kept : List Text) (place : Place) (t : Text) (hslash : '/' ∉ t)
    (hstar : '*' ∉ t) :
    (readFrom kept place t).pending.isSome ↔ ∃ seen, place = .block seen := by
  fun_induction readFrom kept place t with
  | case1 => simp
  | case2 => simp
  | case3 seen => simp
  | case4 seen cs ih => simp at hstar
  | case5 seen c cs hclose ih =>
    rw [ih (List.not_mem_of_not_mem_cons hslash) (List.not_mem_of_not_mem_cons hstar)]
    exact ⟨fun _ => ⟨seen, rfl⟩, fun _ => ⟨c :: seen, rfl⟩⟩
  | case6 q c cs ih => rw [pending_prepend, ih (by simp_all) (by simp_all)]
  | case7 q c cs hescape ih =>
    rw [pending_prepend, ih (by simp_all) (by simp_all)]
    split <;> simp
  | case8 cs ih => simp at hslash
  | case9 cs => simp at hslash
  | case10 c cs hblock hline ih =>
    rw [pending_prepend, ih (by simp_all) (by simp_all)]
    split <;> simp

/-- When no comment stays, the code holds characters of the line, and spaces for its comments. -/
theorem mem_code_readFrom {place : Place} {t : Text} {c : Char}
    (h : c ∈ (readFrom [] place t).code) : c ∈ t ∨ c = ' ' := by
  fun_induction readFrom [] place t with
  | case1 => cases h
  | case2 => cases h
  | case3 seen => cases h
  | case4 seen cs ih =>
    -- No comment stays, so each is replaced by a space.
    have hspace : replacement [] seen.reverse = [' '] := rfl
    rw [code_prepend, hspace, List.mem_append, List.mem_singleton] at h
    grind
  | case5 seen c cs hclose ih => exact (ih h).imp_left (.tail _)
  | case6 q c cs ih =>
    rw [code_prepend, List.mem_append] at h
    grind
  | case7 q c cs hescape ih =>
    rw [code_prepend, List.mem_append] at h
    grind
  | case8 cs ih => exact (ih h).imp_left fun h => .tail _ (.tail _ h)
  | case9 cs => cases h
  | case10 c cs hblock hline ih =>
    rw [code_prepend, List.mem_append] at h
    grind

end NativeBindings.Comment
