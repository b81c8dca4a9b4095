import NativeBindings.Proofs.Scanner.Reading

/-!
# The scanner as a machine with two fields

A state of the scanner holds the declaration that is being collected only where there is one. A
machine that keeps where it is and what it collects in two fields has to clear the second field
itself, whenever it leaves a declaration. `Machine` is this machine. It does what the scanner does
(`Machine.feedAll_eq`), whatever is left in its second field outside declarations; and wherever it
is outside, the field is empty (`Machine.Reached.clean`).
-/

namespace NativeBindings.Scanner

variable {policy : ScanPolicy} {file : Path}

/-- Where the scanner is, apart from what it collects. -/
inductive Phase
  /-- Outside declarations. -/
  | outside
  /-- In the head of a declaration. -/
  | inHead
  /-- In the arguments of an attribute macro, with the given number of parentheses open. -/
  | inAttribute (depth : Nat)
  /-- In the parameters, with the given number of parentheses open. -/
  | inParams (depth : Nat)
  /-- Behind the parameters. -/
  | afterParams
  deriving DecidableEq, Repr

/-- Where the scanner is, and what it collects. -/
structure Machine where
  /-- Where it is. -/
  phase : Phase := .outside
  /-- What is collected, and the line of its marker. -/
  pending : Candidate := { line := 0 }
  deriving DecidableEq, Repr

namespace Machine

/-- With one more character of the head. -/
def addHead (m : Machine) (ch : Char) : Machine :=
  { m with pending := { m.pending with head := m.pending.head.push ch } }

/-- With one more character of the parameters. -/
def addParams (m : Machine) (ch : Char) : Machine :=
  { m with pending := { m.pending with params := m.pending.params.push ch } }

/-- The machine after one character inside a declaration, and what it completes. A declaration that
ends, complete or given up, is cleared. -/
def read (file : Path) (doc : Option Text) (m : Machine) (ch : Char) : Machine × Option Finding :=
  match m.phase with
  | .outside => (m, none)
  | .inHead =>
    if ch = '(' then
      if String.ofList (trailingWord m.pending.head.toList) ∈ attributeMacros then
        ({ m.addHead ch with phase := .inAttribute 1 }, none)
      else ({ m with phase := .inParams 1 }, none)
    else if ch = ';' ∨ ch = '{' ∨ ch = '}' ∨ ch = '=' then
      ({}, some (.skipped m.pending.line .notAFunction))
    else (m.addHead ch, none)
  | .inAttribute depth =>
    let m := m.addHead ch
    if ch = '(' then ({ m with phase := .inAttribute (depth + 1) }, none)
    else if ch = ')' then
      if depth = 1 then ({ m with phase := .inHead }, none)
      else ({ m with phase := .inAttribute (depth - 1) }, none)
    else (m, none)
  | .inParams depth =>
    if ch = ')' ∧ depth = 1 then ({ m with phase := .afterParams }, none)
    else
      let m := m.addParams ch
      if ch = '(' then ({ m with phase := .inParams (depth + 1) }, none)
      else if ch = ')' then ({ m with phase := .inParams (depth - 1) }, none)
      else (m, none)
  | .afterParams =>
    if ch = ';' ∨ ch = '{' then ({}, some (finish file m.pending doc))
    else if isBlank ch || isIdentChar ch then (m, none)
    else ({}, some (.skipped m.pending.line .badEnd))

/-- The machine after a text and the findings in it. A marker starts a new declaration. -/
def readText (policy : ScanPolicy) (file : Path) (line : Nat) (doc : Option Text) (m : Machine)
    (text : Text) : Machine × List Finding :=
  match text with
  | [] => (m, [])
  | c :: cs =>
    if m.phase = .outside then
      match h : afterMarker? policy (c :: cs) with
      | none => (m, [])
      | some rest =>
        have := length_le_of_afterMarker? h
        readText policy file line doc { phase := .inHead, pending := { line } } rest
    else
      let (m, found) := m.read file doc c
      let (m, more) := readText policy file line doc m cs
      (m, found.toList ++ more)
termination_by 2 * text.length + if m.phase = .outside then 1 else 0
decreasing_by
  · rename_i hphase
    rw [if_neg (by simp), if_pos hphase]
    omega
  · rw [List.length_cons]
    split <;> omega

/-- A declaration that has not ended within the lookahead is given up when a further line comes. -/
def expire (policy : ScanPolicy) (number : Nat) (m : Machine) : Machine × Option Finding :=
  if m.phase = .outside then (m, none)
  else if policy.lookahead ≤ number - m.pending.line then
    ({}, some (.skipped m.pending.line (.tooLong policy.lookahead)))
  else (m, none)

/-- The end of a line parts words. -/
def endLine (m : Machine) : Machine :=
  match m.phase with
  | .inHead | .inAttribute _ => m.addHead ' '
  | .inParams _ => m.addParams ' '
  | .outside | .afterParams => m

/-- The machine after a line of code and the findings in it, in order. -/
def feed (policy : ScanPolicy) (file : Path) (m : Machine) (l : CodeLine) :
    Machine × List Finding :=
  let (m, expired) := m.expire policy l.number
  let (m, found) := m.readText policy file l.number l.comment l.code
  (m.endLine, expired.toList ++ found)

/-- The machine after lines of code and the findings in them, in order. -/
def feedAll (policy : ScanPolicy) (file : Path) (m : Machine) :
    List CodeLine → Machine × List Finding
  | [] => (m, [])
  | l :: ls =>
    let (m, found) := m.feed policy file l
    let (m, more) := feedAll policy file m ls
    (m, found ++ more)

/-! ## The state of a machine -/

/-- The state that a machine is in. Outside declarations nothing is collected, whatever the second
field holds. -/
def state (m : Machine) : State :=
  match m.phase with
  | .outside => .outside
  | .inHead => .inHead m.pending
  | .inAttribute depth => .inAttribute m.pending depth
  | .inParams depth => .inParams m.pending depth
  | .afterParams => .afterParams m.pending

theorem state_eq_outside_iff (m : Machine) : m.state = .outside ↔ m.phase = .outside := by
  obtain ⟨phase, pending⟩ := m
  cases phase <;> simp [state]

/-- A character does to the machine what it does to its state. -/
theorem read_eq (m : Machine) (doc : Option Text) (ch : Char) :
    m.state.read file doc ch = (m.read file doc ch).map state id := by
  -- In each phase the two make the same tests.
  obtain ⟨phase, pending⟩ := m
  cases phase with
  | outside => rfl
  | inHead =>
    unfold read State.read state
    dsimp only
    split
    · split <;> rfl
    · split <;> rfl
  | inAttribute depth =>
    unfold read State.read state
    dsimp only
    split
    · rfl
    · split
      · split <;> rfl
      · rfl
  | inParams depth =>
    unfold read State.read state
    dsimp only
    split
    · rfl
    · split
      · rfl
      · split <;> rfl
  | afterParams =>
    unfold read State.read state
    dsimp only
    split
    · rfl
    · split <;> rfl

/-- So does a text. -/
theorem readText_eq (m : Machine) (line : Nat) (doc : Option Text) (text : Text) :
    Scanner.readText policy file line doc m.state text =
      (m.readText policy file line doc text).map state id := by
  fun_induction readText policy file line doc m text with
  | case1 m => exact readText_nil m.state
  | case2 m c cs hphase hnone =>
    rw [m.state_eq_outside_iff.2 hphase, readText_outside_none hnone, Prod.map_apply,
      m.state_eq_outside_iff.2 hphase]
    rfl
  | case3 m c cs hphase rest hsome hshorter ih =>
    rw [m.state_eq_outside_iff.2 hphase, readText_outside (List.cons_ne_nil c cs) hsome]
    exact ih
  | case4 m c cs hphase m' found hread m'' more hmore ih =>
    rw [readText_cons (mt m.state_eq_outside_iff.1 hphase), read_eq, hread]
    dsimp only [Prod.map_apply]
    rw [ih, hmore]
    rfl

/-- And a further line, which may give a declaration up. -/
theorem expire_eq (m : Machine) (number : Nat) :
    m.state.expire policy number = (m.expire policy number).map state id := by
  obtain ⟨phase, pending⟩ := m
  unfold expire State.expire
  cases phase with
  | outside => rfl
  | _ =>
    rw [if_neg (by simp)]
    show (if policy.lookahead ≤ number - pending.line then _ else _) = _
    split <;> rfl

/-- And the end of a line. -/
theorem endLine_eq (m : Machine) : m.state.endLine = m.endLine.state := by
  obtain ⟨phase, pending⟩ := m
  cases phase <;> rfl

/-- A line gives what it gives to the state. -/
theorem feed_eq (m : Machine) (l : CodeLine) :
    Scanner.feed policy file m.state l = (m.feed policy file l).map state id := by
  unfold Scanner.feed feed
  rw [expire_eq]
  simp only [Prod.map_fst, Prod.map_snd, readText_eq]
  exact Prod.ext (endLine_eq _) rfl

/-- Lines give what they give to the state. -/
theorem feedAll_eq (m : Machine) (ls : List CodeLine) :
    Scanner.feedAll policy file m.state ls = (m.feedAll policy file ls).map state id := by
  induction ls generalizing m with
  | nil => rfl
  | cons l ls ih =>
    rw [Scanner.feedAll, feed_eq, feedAll]
    simp only [Prod.map_fst, Prod.map_snd, ih]
    rfl

/-! ## The machines that are reached -/

/-- While lines are fed to a new machine in turn, it comes to the given machine, between two lines
or with the given text of a line left to read. -/
inductive Reached (policy : ScanPolicy) (file : Path) : Machine → Option (CodeLine × Text) → Prop
  /-- In front of all lines. -/
  | start : Reached policy file {} none
  /-- A further line may give a declaration up; then it is read. -/
  | line {m : Machine} (l : CodeLine) (h : Reached policy file m none) :
      Reached policy file (m.expire policy l.number).1 (some (l, l.code))
  /-- Outside declarations the next marker is taken. -/
  | marker {m : Machine} {l : CodeLine} {text rest : Text}
      (h : Reached policy file m (some (l, text))) (hphase : m.phase = .outside) (hne : text ≠ [])
      (hmarker : afterMarker? policy text = some rest) :
      Reached policy file { phase := .inHead, pending := { line := l.number } } (some (l, rest))
  /-- Inside a declaration the next character is read. -/
  | read {m : Machine} {l : CodeLine} {ch : Char} {text : Text}
      (h : Reached policy file m (some (l, ch :: text))) (hphase : m.phase ≠ .outside) :
      Reached policy file (m.read file l.comment ch).1 (some (l, text))
  /-- The line ends where nothing is left to read, or no marker. -/
  | done {m : Machine} {l : CodeLine} {text : Text} (h : Reached policy file m (some (l, text)))
      (hend : text = [] ∨ m.phase = .outside ∧ afterMarker? policy text = none) :
      Reached policy file m.endLine none

/-- A text on a line leads to a machine with nothing left to read. -/
theorem Reached.readText {m : Machine} {l : CodeLine} {text : Text}
    (h : Reached policy file m (some (l, text))) :
    ∃ rest, Reached policy file (m.readText policy file l.number l.comment text).1
      (some (l, rest)) ∧ (rest = [] ∨
        (m.readText policy file l.number l.comment text).1.phase = .outside ∧
          afterMarker? policy rest = none) := by
  fun_induction Machine.readText policy file l.number l.comment m text with
  | case1 m => exact ⟨[], h, .inl rfl⟩
  | case2 m c cs hphase hnone => exact ⟨c :: cs, h, .inr ⟨hphase, hnone⟩⟩
  | case3 m c cs hphase rest hsome hshorter ih =>
    exact ih (h.marker hphase (List.cons_ne_nil c cs) hsome)
  | case4 m c cs hphase m' found hread m'' more hmore ih =>
    have hnext : Reached policy file m' (some (l, cs)) := by
      have hstep := h.read hphase
      rwa [hread] at hstep
    have hrest := ih hnext
    rwa [hmore] at hrest

/-- Lines lead to a machine between lines. -/
theorem Reached.feedAll {m : Machine} (h : Reached policy file m none) (ls : List CodeLine) :
    Reached policy file (m.feedAll policy file ls).1 none := by
  induction ls generalizing m with
  | nil => exact h
  | cons l ls ih =>
    obtain ⟨rest, hreached, hend⟩ := (h.line l).readText
    exact ih (hreached.done hend)

/-! ## The second field outside declarations -/

/-- Outside declarations nothing is collected. -/
def Clean (m : Machine) : Prop := m.phase = .outside → m.pending = { line := 0 }

/-- A character that ends a declaration clears it, and another one stays inside. -/
theorem Clean.read {m : Machine} (h : m.Clean) (doc : Option Text) (ch : Char) :
    (m.read file doc ch).1.Clean := by
  -- Either the phase is another one, or the pending declaration is cleared with it.
  have hinside : ∀ m' : Machine, m'.phase ≠ .outside → m'.Clean := fun m' hne heq =>
    absurd heq hne
  have hcleared : ({} : Machine).Clean := fun _ => rfl
  obtain ⟨phase, pending⟩ := m
  cases phase with
  | outside => exact h
  | inHead =>
    unfold Machine.read
    dsimp only
    split
    · split <;> exact hinside _ (by nofun)
    · split
      · exact hcleared
      · exact hinside _ (by nofun)
  | inAttribute depth =>
    unfold Machine.read
    dsimp only
    split
    · exact hinside _ (by nofun)
    · split
      · split <;> exact hinside _ (by nofun)
      · exact hinside _ (by nofun)
  | inParams depth =>
    unfold Machine.read
    dsimp only
    split
    · exact hinside _ (by nofun)
    · split
      · exact hinside _ (by nofun)
      · split <;> exact hinside _ (by nofun)
  | afterParams =>
    unfold Machine.read
    dsimp only
    split
    · exact hcleared
    · split
      · exact hinside _ (by nofun)
      · exact hcleared

theorem Clean.expire {m : Machine} (h : m.Clean) (number : Nat) :
    (m.expire policy number).1.Clean := by
  unfold Machine.expire
  split
  · exact h
  · split
    · exact fun _ => rfl
    · exact h

theorem Clean.endLine {m : Machine} (h : m.Clean) : m.endLine.Clean := by
  obtain ⟨phase, pending⟩ := m
  cases phase with
  | outside => exact h
  | _ => exact fun hphase => absurd hphase (by nofun)

/-- Wherever the machine is outside declarations nothing is collected. -/
theorem Reached.clean {m : Machine} {rest : Option (CodeLine × Text)}
    (h : Reached policy file m rest) : m.Clean := by
  induction h with
  | start => exact fun _ => rfl
  | line l _ ih => exact ih.expire l.number
  | marker => exact fun hphase => absurd hphase (by nofun)
  | @read m l ch text _ _ ih => exact ih.read l.comment ch
  | done _ _ ih => exact ih.endLine

end Machine

end NativeBindings.Scanner
