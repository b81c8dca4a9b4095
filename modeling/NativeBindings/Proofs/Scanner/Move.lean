import NativeBindings.Proofs.Scanner.Place

/-!
# Findings elsewhere

A `Move` takes every file to another file and every line to another line. The scanner never looks at
the file, and while it reads text it keeps the line of the marker for its finding without looking at
it: after a move text is read as before, and what it gives has moved along (`readText_move`). The
lookahead compares two lines. So whole lines are read as before when the move keeps the distances
between lines (`feedAll_move`), and then the findings of a source move as a whole (`scan_move`),
with their declarations and warnings.
-/

namespace NativeBindings

/-- What takes the place of files and of lines. -/
structure Move where
  /-- The file in the place of a file. -/
  file : Path → Path := id
  /-- The line in the place of a line. -/
  line : Nat → Nat := id

namespace Move

/-- Every line moved down by the given number of lines. -/
def down (n : Nat) : Move := { line := (· + n) }

/-- A move keeps the distances between lines. -/
def KeepsDistances (m : Move) : Prop := ∀ a b, m.line b - m.line a = b - a

theorem keepsDistances_down (n : Nat) : (down n).KeepsDistances := fun a b =>
  Nat.add_sub_add_right b n a

end Move

/-- The location in the place of a location. -/
def Location.move (m : Move) (l : Location) : Location := ⟨m.file l.file, m.line l.line⟩

/-- The declaration elsewhere. -/
def Declaration.move (m : Move) (d : Declaration) : Declaration :=
  { d with location := d.location.move m }

/-- The diagnostic about another place. -/
def Diagnostic.move (m : Move) (d : Diagnostic) : Diagnostic :=
  { d with file := d.file.map m.file, line := d.line.map m.line }

/-- The line with another number. -/
def Conditional.SourceLine.move (m : Move) (l : SourceLine) : SourceLine :=
  { l with number := m.line l.number }

namespace Scanner

/-- The candidate with its marker elsewhere. -/
def Candidate.move (m : Move) (c : Candidate) : Candidate := { c with line := m.line c.line }

/-- The state with its marker elsewhere. -/
def State.move (m : Move) : State → State
  | .outside => .outside
  | .inHead c => .inHead (c.move m)
  | .inAttribute c depth => .inAttribute (c.move m) depth
  | .inParams c depth => .inParams (c.move m) depth
  | .afterParams c => .afterParams (c.move m)

/-- The finding elsewhere. -/
def Finding.move (m : Move) : Finding → Finding
  | .declared d => .declared (d.move m)
  | .skipped line reason => .skipped (m.line line) reason

/-- The line of code with another number. -/
def CodeLine.move (m : Move) (l : CodeLine) : CodeLine := { l with number := m.line l.number }

/-- The state after some text and the findings in it, elsewhere. -/
def moved (m : Move) (r : State × List Finding) : State × List Finding :=
  (r.1.move m, r.2.map (Finding.move m))

variable {policy : ScanPolicy} {file : Path} {line : Nat} {doc : Option Text} (m : Move)

@[simp] theorem Candidate.head_move (c : Candidate) : (c.move m).head = c.head := rfl

@[simp] theorem Candidate.params_move (c : Candidate) : (c.move m).params = c.params := rfl

theorem State.move_eq_outside_iff {m : Move} {s : State} : s.move m = .outside ↔ s = .outside := by
  cases s <;> simp [State.move]

theorem State.candidate?_move (s : State) :
    (s.move m).candidate? = s.candidate?.map (Candidate.move m) := by
  cases s <;> rfl

/-- Findings in front move by themselves. -/
theorem moved_append (found : List Finding) (r : State × List Finding) :
    moved m (r.1, found ++ r.2) = ((moved m r).1, found.map (Finding.move m) ++ (moved m r).2) := by
  unfold moved
  rw [List.map_append]

/-! ## Text -/

/-- A complete declaration gives the same everywhere. -/
theorem finish_move (c : Candidate) :
    finish (m.file file) (c.move m) doc = (finish file c doc).move m := by
  unfold finish
  rw [Declaration.read_relocate ⟨m.file file, (c.move m).line⟩ ⟨file, c.line⟩, Candidate.head_move,
    Candidate.params_move]
  cases hread : Declaration.read ⟨file, c.line⟩ c.head.toList c.params.toList doc with
  | error d => rfl
  | ok d =>
    have hlocation := Declaration.location_of_read hread
    show Finding.declared { d with location := ⟨m.file file, m.line c.line⟩ } =
      .declared { d with location := d.location.move m }
    rw [hlocation]
    rfl

/-- A character is read the same everywhere. -/
theorem read_move (s : State) (ch : Char) :
    (s.move m).read (m.file file) doc ch =
      ((s.read file doc ch).1.move m, (s.read file doc ch).2.map (Finding.move m)) := by
  cases s with
  | outside => rfl
  | inHead c =>
    simp only [State.move, State.read, Candidate.move]
    split_ifs <;> rfl
  | inAttribute c depth =>
    simp only [State.move, State.read, Candidate.move]
    split_ifs <;> rfl
  | inParams c depth =>
    simp only [State.move, State.read, Candidate.move]
    split_ifs <;> rfl
  | afterParams c =>
    simp only [State.move, State.read]
    split_ifs
    · exact congrArg (fun f => (State.outside, some f)) (finish_move m c)
    · rfl
    · rfl

/-- A text is read the same everywhere. -/
theorem readText_move (s : State) (text : Text) :
    readText policy (m.file file) (m.line line) doc (s.move m) text =
      moved m (readText policy file line doc s text) := by
  fun_induction readText policy file line doc s text with
  | case1 s => rw [readText_nil]; rfl
  | case2 c cs hnone => rw [State.move, readText_outside_none hnone]; rfl
  | case3 c cs rest hsome hshorter ih =>
    rw [State.move, readText_outside (List.cons_ne_nil c cs) hsome, ← ih]
    rfl
  | case4 s c cs hs s' found hread s'' more hmore ih =>
    rw [readText_cons (mt State.move_eq_outside_iff.1 hs), read_move, hread]
    dsimp only
    rw [ih, hmore, Option.toList_map]
    exact (moved_append m found.toList (s'', more)).symm

/-! ## Lines -/

variable {m}

/-- A declaration is given up at the same distance. -/
theorem State.expire_move (hm : m.KeepsDistances) (number : Nat) (s : State) :
    (s.move m).expire policy (m.line number) =
      ((s.expire policy number).1.move m, (s.expire policy number).2.map (Finding.move m)) := by
  unfold State.expire
  rw [State.candidate?_move]
  cases s.candidate? with
  | none => rfl
  | some c =>
    show (if policy.lookahead ≤ m.line number - m.line c.line then _ else _) = _
    rw [hm c.line number]
    dsimp only
    split <;> rfl

theorem State.endLine_move (s : State) : (s.move m).endLine = s.endLine.move m := by
  cases s <;> rfl

/-- A line is read the same everywhere. -/
theorem feed_move (hm : m.KeepsDistances) (s : State) (l : CodeLine) :
    feed policy (m.file file) (s.move m) (l.move m) = moved m (feed policy file s l) := by
  have hexpire : (s.move m).expire policy (l.move m).number =
      ((s.expire policy l.number).1.move m, (s.expire policy l.number).2.map (Finding.move m)) :=
    State.expire_move hm l.number s
  have hread : readText policy (m.file file) (l.move m).number (l.move m).comment
      ((s.expire policy l.number).1.move m) (l.move m).code =
        moved m (readText policy file l.number l.comment (s.expire policy l.number).1 l.code) :=
    readText_move m _ l.code
  rw [feed_eq, feed_eq, hexpire]
  dsimp only
  rw [hread, Option.toList_map]
  unfold moved
  rw [State.endLine_move, List.map_append]

/-- Lines are read the same everywhere. -/
theorem feedAll_move (hm : m.KeepsDistances) (s : State) (ls : List CodeLine) :
    feedAll policy (m.file file) (s.move m) (ls.map (CodeLine.move m)) =
      moved m (feedAll policy file s ls) := by
  induction ls generalizing s with
  | nil => rfl
  | cons l ls ih =>
    have hrest := ih (feed policy file s l).1
    rw [List.map_cons, feedAll_cons, feedAll_cons, feed_move hm, moved_append, ← hrest]
    rfl

/-- The end of the file gives the same everywhere. -/
theorem State.atEnd_move (s : State) : (s.move m).atEnd = s.atEnd.map (Finding.move m) := by
  unfold State.atEnd
  rw [State.candidate?_move]
  cases s.candidate? <;> rfl

/-- The code of a line does not depend on its number. -/
theorem codeLines_move (lines : List Conditional.SourceLine) :
    codeLines policy (lines.map (·.move m)) = (codeLines policy lines).map (CodeLine.move m) := by
  unfold codeLines
  rw [List.map_map, List.zip_map_left, List.map_map, List.map_map]
  rfl

/-- The findings of a source move as a whole. -/
theorem scan_move (policy : ScanPolicy) (file : Path) (hm : m.KeepsDistances)
    (lines : List Conditional.SourceLine) :
    scan policy (m.file file) (lines.map (·.move m)) =
      (scan policy file lines).map (Finding.move m) := by
  have hfeed : feedAll policy (m.file file) (State.outside.move m)
      ((codeLines policy lines).map (CodeLine.move m)) =
        moved m (feedAll policy file .outside (codeLines policy lines)) :=
    feedAll_move hm .outside _
  unfold scan
  rw [codeLines_move]
  show (feedAll policy (m.file file) (State.outside.move m) _).2 ++
    (feedAll policy (m.file file) (State.outside.move m) _).1.atEnd = _
  rw [hfeed, List.map_append, ← State.atEnd_move]
  rfl

/-! ## Declarations and warnings -/

/-- The declarations among findings move along. -/
theorem declarations_move (found : List Finding) :
    declarations (found.map (Finding.move m)) = (declarations found).map (Declaration.move m) := by
  unfold declarations
  rw [List.filterMap_map, List.map_filterMap]
  congr 1
  funext f
  cases f <;> rfl

/-- The warning of a finding moves along. -/
theorem Finding.warning?_move (f : Finding) :
    (f.move m).warning? (m.file file) = (f.warning? file).map (Diagnostic.move m) := by
  cases f with
  | declared d => rfl
  | skipped n reason =>
    cases reason with
    | defect d => cases d <;> rfl
    | _ => rfl

/-- The warnings of findings move along. -/
theorem warnings_move (m : Move) (file : Path) (found : List Finding) :
    warnings (m.file file) (found.map (Finding.move m)) =
      (warnings file found).map (Diagnostic.move m) := by
  unfold warnings
  rw [List.filterMap_map, List.map_filterMap]
  congr 1
  funext f
  exact f.warning?_move

end Scanner

end NativeBindings
