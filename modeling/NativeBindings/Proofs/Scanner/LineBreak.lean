import NativeBindings.Proofs.Scanner.Marker
import NativeBindings.Proofs.Scanner.Move

/-!
# Line breaks are spaces

Lines that are fed one after the other are read like one line with a space at every break. Inside a
declaration the end of a line collects the space that the longer line holds; outside one a marker
lies on one side of the space, so the search of the longer line goes on as the search of the next
line does (`readText_space`). What is left is the number of the line: it is kept for findings and
never looked at while text is read (`readText_line`). It matters only to the lookahead, so the
two ways to feed lines agree when no further line gives a declaration up (`unplaced_feedAll`).
-/

namespace NativeBindings

/-- The declaration without its line. -/
def Declaration.unplaced (d : Declaration) : Declaration :=
  { d with location := { d.location with line := 0 } }

/-- The diagnostic without its line. -/
def Diagnostic.unplaced (d : Diagnostic) : Diagnostic := { d with line := none }

namespace Scanner

variable {policy : ScanPolicy} {file : Path} {line : Nat} {doc : Option Text}

/-! ## Without line numbers -/

/-- The candidate without the line of its marker. -/
def Candidate.unplaced (c : Candidate) : Candidate := { c with line := 0 }

/-- The state without the line of the marker. -/
def State.unplaced : State → State
  | .outside => .outside
  | .inHead c => .inHead c.unplaced
  | .inAttribute c depth => .inAttribute c.unplaced depth
  | .inParams c depth => .inParams c.unplaced depth
  | .afterParams c => .afterParams c.unplaced

/-- The finding without its line. -/
def Finding.unplaced : Finding → Finding
  | .declared d => .declared d.unplaced
  | .skipped _ reason => .skipped 0 reason

/-- The state after some text and the findings in it, without lines. -/
def unplaced (r : State × List Finding) : State × List Finding :=
  (r.1.unplaced, r.2.map Finding.unplaced)

/-- Every line moved to line zero. -/
def toLineZero : Move := { line := fun _ => 0 }

/-- Without lines findings are those on line zero. -/
theorem Finding.unplaced_eq_move : Finding.unplaced = Finding.move toLineZero := by
  funext f
  cases f <;> rfl

/-- Without lines a state and its findings are those on line zero. -/
theorem unplaced_eq_moved (r : State × List Finding) : unplaced r = moved toLineZero r := by
  unfold unplaced moved
  rw [Finding.unplaced_eq_move]
  obtain ⟨s, found⟩ := r
  cases s <;> rfl

/-- Findings in front keep their place. -/
theorem unplaced_append (found : List Finding) (r : State × List Finding) :
    unplaced (r.1, found ++ r.2) =
      ((unplaced r).1, found.map Finding.unplaced ++ (unplaced r).2) := by
  rw [unplaced_eq_moved, unplaced_eq_moved, Finding.unplaced_eq_move]
  exact moved_append toLineZero found r

/-- On two lines a text gives the same. -/
theorem readText_line (line' : Nat) (s : State) (text : Text) :
    unplaced (readText policy file line doc s text) =
      unplaced (readText policy file line' doc s text) := by
  rw [unplaced_eq_moved, unplaced_eq_moved, ← readText_move, ← readText_move]
  rfl

/-! ## The space at a line break -/

/-- Behind text without a marker, and a character of no identifier, the search starts anew. -/
theorem readText_outside_break (hall : ∀ m ∈ policy.markers, isIdentifier m.toList) {c : Char}
    (hbreak : isIdentChar c = false) {t : Text} (ht : afterMarker? policy t = none) (u : Text) :
    readText policy file line doc .outside (t ++ c :: u) =
      readText policy file line doc .outside u := by
  have hboth : afterMarker? policy (t ++ c :: u) = afterMarker? policy u := by
    rw [afterMarker?_break hall hbreak, ht]
  cases hu : afterMarker? policy u with
  | none => rw [readText_outside_none (hboth.trans hu), readText_outside_none hu]
  | some rest =>
    have hne : u ≠ [] := by
      rintro rfl
      rw [afterMarker?_nil hall] at hu
      cases hu
    rw [readText_outside (by simp) (hboth.trans hu), readText_outside hne hu]

/-- From a character of no identifier on a text is read from the state in front of it. -/
theorem readText_break (hall : ∀ m ∈ policy.markers, isIdentifier m.toList) {c : Char}
    (hbreak : isIdentChar c = false) (s : State) (t u : Text) :
    readText policy file line doc s (t ++ c :: u) =
      ((readText policy file line doc (readText policy file line doc s t).1 (c :: u)).1,
        (readText policy file line doc s t).2 ++
          (readText policy file line doc (readText policy file line doc s t).1 (c :: u)).2) := by
  fun_induction readText policy file line doc s t with
  | case1 s => rfl
  | case2 d ds hnone =>
    have hempty : readText policy file line doc .outside (c :: u) =
        readText policy file line doc .outside u :=
      readText_outside_break hall hbreak (afterMarker?_nil hall) u
    rw [readText_outside_break hall hbreak hnone, hempty, List.nil_append]
  | case3 d ds rest hsome hshorter ih =>
    have hboth : afterMarker? policy (d :: ds ++ c :: u) = some (rest ++ c :: u) := by
      rw [afterMarker?_break hall hbreak, hsome]
    rw [readText_outside (by simp) hboth, ih]
  | case4 s d ds hs s' found hread s'' more hmore ih =>
    rw [List.cons_append, readText_cons hs, hread, ih, hmore, List.append_assoc]

/-- Inside a declaration a space does what the end of a line does. -/
theorem read_space {s : State} (hs : s ≠ .outside) : s.read file doc ' ' = (s.endLine, none) := by
  cases s with
  | outside => exact absurd rfl hs
  | inHead c => rfl
  | inAttribute c depth => rfl
  | inParams c depth => rfl
  | afterParams c => rfl

/-- A space in a text is read as the end of a line between its two parts. -/
theorem readText_space (hall : ∀ m ∈ policy.markers, isIdentifier m.toList) (s : State)
    (t u : Text) :
    readText policy file line doc s (t ++ ' ' :: u) =
      let first := readText policy file line doc s t
      let second := readText policy file line doc first.1.endLine u
      (second.1, first.2 ++ second.2) := by
  have hend : ∀ s : State, readText policy file line doc s (' ' :: u) =
      readText policy file line doc s.endLine u := by
    intro s
    by_cases hs : s = .outside
    · subst hs
      exact readText_outside_break hall (by decide) (afterMarker?_nil hall) u
    · exact readText_step hs (read_space hs) u
  rw [readText_break hall (by decide)]
  simp only [hend]

/-! ## Lines -/

/-- The end of a line does the same to a state without line. -/
theorem State.unplaced_endLine (s : State) : s.endLine.unplaced = s.unplaced.endLine := by
  cases s <;> rfl

/-- Texts that are read alike leave lines alike. -/
theorem unplaced_endLine {r r' : State × List Finding} (h : unplaced r = unplaced r')
    (found : List Finding) :
    unplaced (r.1.endLine, found ++ r.2) = unplaced (r'.1.endLine, found ++ r'.2) := by
  obtain ⟨hstate, hfound⟩ := Prod.mk.inj h
  unfold unplaced
  rw [List.map_append, List.map_append, State.unplaced_endLine, State.unplaced_endLine, hstate,
    hfound]

/-- Lines of code without comments, numbered from `n` on. -/
def numbered (n : Nat) : List Text → List CodeLine
  | [] => []
  | c :: cs => ⟨n, c, none⟩ :: numbered (n + 1) cs

/-- None of the lines gives up a declaration because of the lookahead. -/
def NoneExpires (policy : ScanPolicy) (file : Path) : State → List CodeLine → Prop
  | _, [] => True
  | s, l :: ls =>
    (s.expire policy l.number).2 = none ∧ NoneExpires policy file (feed policy file s l).1 ls

instance NoneExpires.decidable (policy : ScanPolicy) (file : Path) :
    (s : State) → (ls : List CodeLine) → Decidable (NoneExpires policy file s ls)
  | _, [] => .isTrue trivial
  | s, l :: ls =>
    have := NoneExpires.decidable policy file (feed policy file s l).1 ls
    inferInstanceAs (Decidable ((s.expire policy l.number).2 = none ∧
      NoneExpires policy file (feed policy file s l).1 ls))

/-- A line that gives up nothing is read from the state before it. -/
theorem feed_of_expire {s : State} {l : CodeLine} (h : (s.expire policy l.number).2 = none) :
    feed policy file s l =
      ((readText policy file l.number l.comment s l.code).1.endLine,
        (readText policy file l.number l.comment s l.code).2) := by
  rcases s.expire_cases policy l.number with hstays | ⟨n, -, hends⟩
  · rw [feed_eq, hstays]
    rfl
  · rw [hends] at h
    cases h

/-- A line behind another one is read like the rest of one line, behind a space. -/
theorem feed_space (hall : ∀ m ∈ policy.markers, isIdentifier m.toList) (s : State) (n k : Nat)
    (c u : Text) (hgo : ((feed policy file s ⟨n, c, none⟩).1.expire policy k).2 = none) :
    let first := feed policy file s ⟨n, c, none⟩
    let second := feed policy file first.1 ⟨k, u, none⟩
    unplaced (second.1, first.2 ++ second.2) =
      unplaced (feed policy file s ⟨n, c ++ ' ' :: u, none⟩) := by
  intro first second
  have hsecond : second = ((readText policy file k none first.1 u).1.endLine,
      (readText policy file k none first.1 u).2) := feed_of_expire hgo
  have hwhole : feed policy file s ⟨n, c ++ ' ' :: u, none⟩ =
      ((readText policy file n none first.1 u).1.endLine,
        first.2 ++ (readText policy file n none first.1 u).2) := by
    rw [feed_eq]
    dsimp only
    rw [readText_space hall, ← List.append_assoc]
    rfl
  rw [hsecond, hwhole]
  exact unplaced_endLine (readText_line n first.1 u) first.2

/-- Lines are read like one line in which they are joined by spaces. -/
theorem unplaced_feedAll (hall : ∀ m ∈ policy.markers, isIdentifier m.toList) (s : State) (n : Nat)
    (c : Text) (cs : List Text)
    (hgo : NoneExpires policy file (feed policy file s ⟨n, c, none⟩).1 (numbered (n + 1) cs)) :
    unplaced (feedAll policy file s (numbered n (c :: cs))) =
      unplaced (feed policy file s ⟨n, Text.unwords (c :: cs), none⟩) := by
  induction cs generalizing s n c with
  | nil =>
    unfold Text.unwords
    rw [List.intercalate_singleton]
    exact congrArg (fun found => unplaced (_, found)) (List.append_nil _)
  | cons d cs ih =>
    obtain ⟨hnext, hrest⟩ := hgo
    have hunwords : Text.unwords (c :: d :: cs) = c ++ ' ' :: Text.unwords (d :: cs) := by
      unfold Text.unwords
      rw [List.intercalate_cons_cons, List.append_assoc]
      rfl
    have hmore := ih (feed policy file s ⟨n, c, none⟩).1 (n + 1) d hrest
    rw [hunwords, ← feed_space hall s n (n + 1) c _ hnext, unplaced_append, ← hmore,
      ← unplaced_append]
    rfl

/-! ## Declarations and warnings -/

/-- Findings that are alike but for lines give declarations that are alike. -/
theorem declarations_congr {found found' : List Finding}
    (h : found.map Finding.unplaced = found'.map Finding.unplaced) :
    (declarations found).map Declaration.unplaced =
      (declarations found').map Declaration.unplaced := by
  have hunplaced (fs : List Finding) :
      declarations (fs.map Finding.unplaced) = (declarations fs).map Declaration.unplaced := by
    rw [Finding.unplaced_eq_move]
    exact declarations_move fs
  rw [← hunplaced, ← hunplaced, h]

/-- On line zero a diagnostic is the same but for its line. -/
theorem unplaced_move_diagnostic (d : Diagnostic) : (d.move toLineZero).unplaced = d.unplaced := by
  have hfile : d.file.map toLineZero.file = d.file := Option.map_id'
  unfold Diagnostic.unplaced Diagnostic.move
  rw [hfile]

/-- Findings that are alike but for lines give warnings that are alike. -/
theorem warnings_congr {found found' : List Finding}
    (h : found.map Finding.unplaced = found'.map Finding.unplaced) :
    (warnings file found).map Diagnostic.unplaced =
      (warnings file found').map Diagnostic.unplaced := by
  have hunplaced (fs : List Finding) :
      (warnings file (fs.map Finding.unplaced)).map Diagnostic.unplaced =
        (warnings file fs).map Diagnostic.unplaced := by
    have hmove : warnings file (fs.map Finding.unplaced) =
        (warnings file fs).map (Diagnostic.move toLineZero) := by
      rw [Finding.unplaced_eq_move]
      exact warnings_move toLineZero file fs
    rw [hmove, List.map_map]
    exact List.map_congr_left fun d _ => unplaced_move_diagnostic d
  calc (warnings file found).map Diagnostic.unplaced
      = (warnings file (found.map Finding.unplaced)).map Diagnostic.unplaced :=
        (hunplaced found).symm
    _ = (warnings file (found'.map Finding.unplaced)).map Diagnostic.unplaced := by rw [h]
    _ = (warnings file found').map Diagnostic.unplaced := hunplaced found'

/-- Line breaks do not matter to the scanner. Lines of code without comments that are fed one after
the other, with none of the further ones giving a declaration up, leave the scanner in the state in
which one line leaves it that joins them by spaces, with the same declarations and warnings, but
for line numbers. -/
theorem feedAll_unwords (hall : ∀ m ∈ policy.markers, isIdentifier m.toList) (s : State) (n : Nat)
    (c : Text) (cs : List Text)
    (hgo : NoneExpires policy file (feed policy file s ⟨n, c, none⟩).1 (numbered (n + 1) cs)) :
    let lines := feedAll policy file s (numbered n (c :: cs))
    let line := feed policy file s ⟨n, Text.unwords (c :: cs), none⟩
    lines.1.unplaced = line.1.unplaced ∧
      (declarations lines.2).map Declaration.unplaced =
        (declarations line.2).map Declaration.unplaced ∧
      (warnings file lines.2).map Diagnostic.unplaced =
        (warnings file line.2).map Diagnostic.unplaced := by
  intro lines line
  obtain ⟨hstate, hfound⟩ := Prod.mk.inj (unplaced_feedAll hall s n c cs hgo)
  exact ⟨hstate, declarations_congr hfound, warnings_congr hfound⟩

/-- The rest of a declaration, broken inside its nested parentheses, and a second one, broken behind
its marker and inside the arguments of an attribute macro. -/
theorem feedAll_unwords_two_declarations :
    let policy : ScanPolicy := { markers := ["API"], lookahead := 6 }
    let file : Path := ⟨"a.h"⟩
    let s : State := .inParams ⟨3, " int f", "int a, "⟩ 1
    let c : Text := "int b[(1 +".toList
    let cs : List Text := ["2)])".toList, "; API".toList, "__declspec(".toList, "x) int".toList]
    let lines := feedAll policy file s (numbered 4 (c :: cs))
    let line := feed policy file s ⟨4, Text.unwords (c :: cs), none⟩
    NoneExpires policy file (feed policy file s ⟨4, c, none⟩).1 (numbered 5 cs) ∧
      lines.1 = .inHead ⟨6, " __declspec( x) int ", ""⟩ ∧
      line.1.unplaced = .inHead ⟨0, " __declspec( x) int ", ""⟩ ∧
      (declarations lines.2).map Declaration.unplaced =
        (declarations line.2).map Declaration.unplaced ∧
      (warnings file lines.2).map Diagnostic.unplaced =
        (warnings file line.2).map Diagnostic.unplaced := by
  intro policy file s c cs lines line
  have hgo : NoneExpires policy file (feed policy file s ⟨4, c, none⟩).1 (numbered 5 cs) := by
    decide +kernel
  have hstate : lines.1 = .inHead ⟨6, " __declspec( x) int ", ""⟩ := by decide +kernel
  obtain ⟨hstates, hrest⟩ := feedAll_unwords (by decide) s 4 c cs hgo
  refine ⟨hgo, hstate, ?_, hrest⟩
  rw [← hstates, hstate]
  rfl

end Scanner

end NativeBindings
