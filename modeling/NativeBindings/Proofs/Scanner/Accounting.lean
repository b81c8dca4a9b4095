import NativeBindings.Proofs.Scanner.Marker
import NativeBindings.Proofs.Scanner.Place

/-!
# Every marker is accounted for

A run of the scanner is a sequence of events: it takes a marker, or it finds something. `textEvents`
follows `readText` step by step and records both; leaving the markers out gives the findings
(`findings_scanEvents`), so the events describe the run itself. A run alternates: outside
declarations only a marker can come next, and inside one only the finding that the marker of the
declaration gives, with the line of that marker (`Settles`). A file starts outside declarations, and
its end gives up the declaration that is open, so the events of a file are markers each with its
finding (`scan_accounts`).
-/

namespace NativeBindings.Scanner

variable {policy : ScanPolicy} {file : Path} {line : Nat} {doc : Option Text}

/-! ## The events of a run -/

/-- A marker that is taken: the number of its line and the text behind it. -/
structure Recognition where
  /-- The line that the marker stands on. -/
  line : Nat
  /-- The text of that line behind the marker. -/
  behind : Text
  deriving DecidableEq, Repr

/-- What happens in a run. -/
inductive Event
  /-- Outside declarations a marker is taken. -/
  | marker (r : Recognition)
  /-- Something is found. -/
  | finding (f : Finding)
  deriving DecidableEq, Repr

/-- The marker that is taken. -/
def Event.marker? : Event → Option Recognition
  | .marker r => some r
  | .finding _ => none

/-- What is found. -/
def Event.finding? : Event → Option Finding
  | .marker _ => none
  | .finding f => some f

/-- The events while a text is read. -/
def textEvents (policy : ScanPolicy) (file : Path) (line : Nat) (doc : Option Text) (s : State)
    (text : Text) : List Event :=
  match text with
  | [] => []
  | c :: cs =>
    if s = .outside then
      match h : afterMarker? policy (c :: cs) with
      | none => []
      | some rest =>
        have := length_le_of_afterMarker? h
        .marker ⟨line, rest⟩ :: textEvents policy file line doc (.inHead { line }) rest
    else
      let (s, found) := s.read file doc c
      found.toList.map .finding ++ textEvents policy file line doc s cs
termination_by 2 * text.length + if s = .outside then 1 else 0
decreasing_by
  · rename_i hs
    rw [if_neg (by simp), if_pos hs]
    omega
  · rw [List.length_cons]
    split <;> omega

/-- The events of a line of code. -/
def lineEvents (policy : ScanPolicy) (file : Path) (s : State) (l : CodeLine) : List Event :=
  let (s, expired) := s.expire policy l.number
  expired.toList.map .finding ++ textEvents policy file l.number l.comment s l.code

/-- The events of lines of code. -/
def linesEvents (policy : ScanPolicy) (file : Path) (s : State) : List CodeLine → List Event
  | [] => []
  | l :: ls => lineEvents policy file s l ++ linesEvents policy file (feed policy file s l).1 ls

/-- The events of the lines of a file, and of its end. -/
def scanEvents (policy : ScanPolicy) (file : Path) (lines : List Conditional.SourceLine) :
    List Event :=
  let code := codeLines policy lines
  linesEvents policy file .outside code ++
    (feedAll policy file .outside code).1.atEnd.map .finding

/-- Findings alone are found again among their events. -/
theorem filterMap_finding? (found : List Finding) :
    (found.map Event.finding).filterMap Event.finding? = found := by
  rw [List.filterMap_map]
  exact List.filterMap_some

/-- The findings of a text are those among its events. -/
theorem findings_textEvents (s : State) (text : Text) :
    (textEvents policy file line doc s text).filterMap Event.finding? =
      (readText policy file line doc s text).2 := by
  fun_induction textEvents policy file line doc s text with
  | case1 s => rw [readText_nil, List.filterMap_nil]
  | case2 c cs hnone => rw [readText_outside_none hnone, List.filterMap_nil]
  | case3 c cs rest hsome hshorter ih =>
    rw [readText_outside (List.cons_ne_nil c cs) hsome, List.filterMap_cons_none rfl, ih]
  | case4 s c cs hs s' found hread ih =>
    rw [readText_cons hs, hread, List.filterMap_append, filterMap_finding?, ih]

/-- The findings of lines are those among their events. -/
theorem findings_linesEvents (s : State) (ls : List CodeLine) :
    (linesEvents policy file s ls).filterMap Event.finding? = (feedAll policy file s ls).2 := by
  induction ls generalizing s with
  | nil => rfl
  | cons l ls ih =>
    have hline :
        (lineEvents policy file s l).filterMap Event.finding? = (feed policy file s l).2 := by
      unfold lineEvents feed
      rw [List.filterMap_append, filterMap_finding?, findings_textEvents]
    rw [linesEvents, List.filterMap_append, hline, ih]
    rfl

/-- The findings of a file are those among its events. -/
theorem findings_scanEvents (lines : List Conditional.SourceLine) :
    (scanEvents policy file lines).filterMap Event.finding? = scan policy file lines := by
  unfold scanEvents scan
  rw [List.filterMap_append, filterMap_finding?, findings_linesEvents]

/-! ## Markers and findings alternate -/

/-- Between a point where the marker on line `p` waits for its finding and one where that on line
`q` does, every marker gets its finding before the next one is taken. -/
inductive Settles (file : Path) : Option Nat → List Event → Option Nat → Prop
  /-- Nothing happens. -/
  | nil (p : Option Nat) : Settles file p [] p
  /-- When no marker waits the next one is taken. -/
  | marker {r : Recognition} {es : List Event} {q : Option Nat} :
    Settles file (some r.line) es q → Settles file none (.marker r :: es) q
  /-- A marker that waits gets a finding on its line. -/
  | finding {n : Nat} {f : Finding} {es : List Event} {q : Option Nat} :
    f.location file = ⟨file, n⟩ → Settles file none es q →
      Settles file (some n) (.finding f :: es) q

/-- One part of a run after another. -/
theorem Settles.append {p q o : Option Nat} {es es' : List Event} (h : Settles file p es q)
    (h' : Settles file q es' o) : Settles file p (es ++ es') o := by
  induction h with
  | nil p => exact h'
  | marker _ ih => exact .marker (ih h')
  | finding hplace _ ih => exact .finding hplace (ih h')

/-- Reading a text takes markers in turn and settles them. -/
theorem settles_textEvents (s : State) (text : Text) :
    Settles file s.line? (textEvents policy file line doc s text)
      (readText policy file line doc s text).1.line? := by
  fun_induction textEvents policy file line doc s text with
  | case1 s =>
    rw [readText_nil]
    exact .nil _
  | case2 c cs hnone =>
    rw [readText_outside_none hnone]
    exact .nil _
  | case3 c cs rest hsome hshorter ih =>
    rw [readText_outside (List.cons_ne_nil c cs) hsome]
    exact .marker ih
  | case4 s c cs hs s' found hread ih =>
    rw [readText_cons hs, hread]
    -- Either the declaration goes on, on the line it has, or the character ends it with a finding.
    rcases State.read_cases file doc hs c with
      ⟨hline, hnone⟩ | ⟨f, n, hend, hline, hplace, -⟩
    · rw [hread] at hline hnone
      -- Nothing happens, and the declaration is the same.
      rw [show found = none from hnone, ← show s'.line? = s.line? from hline]
      exact ih
    · obtain ⟨rfl, rfl⟩ := Prod.mk.inj (hread.symm.trans hend)
      rw [hline]
      exact .finding hplace ih

/-- A line takes markers in turn and settles them. -/
theorem settles_lineEvents (s : State) (l : CodeLine) :
    Settles file s.line? (lineEvents policy file s l) (feed policy file s l).1.line? := by
  unfold lineEvents feed
  rw [State.line?_endLine]
  rcases s.expire_cases policy l.number with h | ⟨n, hline, h⟩
  · rw [h]
    exact settles_textEvents s l.code
  · rw [h, hline]
    exact .finding rfl (settles_textEvents .outside l.code)

/-- Lines take markers in turn and settle them. -/
theorem settles_linesEvents (s : State) (ls : List CodeLine) :
    Settles file s.line? (linesEvents policy file s ls) (feedAll policy file s ls).1.line? := by
  induction ls generalizing s with
  | nil => exact .nil _
  | cons l ls ih => exact (settles_lineEvents s l).append (ih _)

/-- In a file every marker is settled. -/
theorem settles_scanEvents (lines : List Conditional.SourceLine) :
    Settles file none (scanEvents policy file lines) none := by
  refine (settles_linesEvents .outside (codeLines policy lines)).append ?_
  generalize (feedAll policy file .outside (codeLines policy lines)).1 = s
  unfold State.atEnd State.line?
  cases s.candidate? with
  | none => exact .nil none
  | some c => exact .finding rfl (.nil none)

/-- Events that settle every marker are markers, each with its finding. -/
theorem Settles.exists_accounts {es : List Event} (h : Settles file none es none) :
    ∃ accounts : List (Recognition × Finding),
      es = accounts.flatMap (fun a => [.marker a.1, .finding a.2]) ∧
        ∀ a ∈ accounts, a.2.location file = ⟨file, a.1.line⟩ := by
  match h with
  | .nil _ => exact ⟨[], rfl, by simp⟩
  | .marker (.finding hplace hrest) =>
    obtain ⟨accounts, hevents, hplaces⟩ := hrest.exists_accounts
    refine ⟨(_, _) :: accounts, ?_, List.forall_mem_cons.2 ⟨hplace, hplaces⟩⟩
    rw [List.flatMap_cons, hevents]
    rfl

/-! ## Where markers are taken -/

/-- A marker taken in a text stands alone in it, also with what lies in front of the text. -/
theorem marked_textEvents {past : Text} {s : State} {text : Text} {r : Recognition}
    (hpast : s = .outside → StartsIdent past)
    (hr : .marker r ∈ textEvents policy file line doc s text) :
    r.line = line ∧ ∃ before, MarkerBetween policy (past ++ text) before r.behind := by
  fun_induction textEvents policy file line doc s text generalizing past with
  | case1 s => cases hr
  | case2 c cs hnone => cases hr
  | case3 c cs rest hsome hshorter ih =>
    -- The marker is the one taken here, or one behind it.
    obtain ⟨before, hbetween⟩ := exists_markerBetween hsome
    rcases List.mem_cons.1 hr with hfirst | hr
    · cases hfirst
      exact ⟨rfl, _, hbetween.append_left (hpast rfl)⟩
    · obtain ⟨m, -, hsplit, -⟩ := hbetween
      rw [hsplit, ← List.append_assoc]
      exact ih (fun hs => by cases hs) hr
  | case4 s c cs hs s' found hread ih =>
    -- Inside a declaration a character takes no marker.
    have hr' : .marker r ∈ textEvents policy file line doc s' cs := by
      rcases List.mem_append.1 hr with hfound | hr
      · obtain ⟨f, -, hf⟩ := List.mem_map.1 hfound
        cases hf
      · exact hr
    rw [List.append_cons]
    refine ih (fun hs' => ?_) hr'
    subst hs'
    rcases State.read_cases file doc hs c with ⟨hline, -⟩ | ⟨f, n, -, -, -, hchar⟩
    · -- A declaration that goes on does not lead outside.
      rw [hread] at hline
      exact absurd (State.line?_eq_none_iff.1 hline.symm) hs
    · exact startsIdent_concat past hchar

/-- A marker taken in lines stands alone in one of them. -/
theorem marked_linesEvents {s : State} {ls : List CodeLine} {r : Recognition}
    (hr : .marker r ∈ linesEvents policy file s ls) :
    ∃ l ∈ ls, l.number = r.line ∧ ∃ before, MarkerBetween policy l.code before r.behind := by
  induction ls generalizing s with
  | nil => cases hr
  | cons l ls ih =>
    rcases List.mem_append.1 hr with hline | hr
    · rcases List.mem_append.1 hline with hexpired | htext
      · obtain ⟨f, -, hf⟩ := List.mem_map.1 hexpired
        cases hf
      · have hstart : (s.expire policy l.number).1 = .outside → StartsIdent [] :=
          fun _ => startsIdent_nil
        obtain ⟨hnumber, hbetween⟩ := marked_textEvents hstart htext
        exact ⟨l, .head ls, hnumber.symm, hbetween⟩
    · obtain ⟨l', hl', h⟩ := ih hr
      exact ⟨l', .tail l hl', h⟩

/-! ## Accounts -/

/-- A marker is answered by a declaration or by a warning, and not by both, at its own place. -/
def Answers (file : Path) (r : Recognition) (f : Finding) : Prop :=
  (∃ d, f.declaration? = some d ∧ f.warning? file = none ∧ d.location = ⟨file, r.line⟩) ∨
    ∃ w, f.declaration? = none ∧ f.warning? file = some w ∧ w.file = some file ∧
      w.line = some r.line

/-- A warning stands where its finding stands. -/
theorem Finding.place_of_warning? {f : Finding} {w : Diagnostic} (h : f.warning? file = some w) :
    w.file = some file ∧ w.line = some (f.location file).line := by
  cases f with
  | declared d => cases h
  | skipped n reason =>
    cases h
    split <;> exact ⟨rfl, rfl⟩

/-- A finding at the place of a marker answers it. -/
theorem answers_of_location {r : Recognition} {f : Finding}
    (h : f.location file = ⟨file, r.line⟩) : Answers file r f := by
  cases f with
  | declared d => exact .inl ⟨d, rfl, rfl, h⟩
  | skipped n reason =>
    obtain ⟨w, hw⟩ : ∃ w, (Finding.skipped n reason).warning? file = some w := ⟨_, rfl⟩
    obtain ⟨hfile, hline⟩ := Finding.place_of_warning? hw
    rw [h] at hline
    exact .inr ⟨w, rfl, hw, hfile, hline⟩

/-- The markers of a file and what each of them gives. -/
structure Accounted (policy : ScanPolicy) (file : Path) (lines : List Conditional.SourceLine)
    (accounts : List (Recognition × Finding)) : Prop where
  /-- Nothing happens but that markers are taken, and each gives its finding before the next. -/
  events : scanEvents policy file lines = accounts.flatMap fun a => [.marker a.1, .finding a.2]
  /-- Every marker stands alone in the code of a line, and has the number of that line. -/
  marked : ∀ a ∈ accounts, ∃ l ∈ codeLines policy lines, l.number = a.1.line ∧
    ∃ before, MarkerBetween policy l.code before a.1.behind
  /-- Every marker gives either a declaration or a warning, on its own line. -/
  answers : ∀ a ∈ accounts, Answers file a.1 a.2
  /-- The declarations of the file are those of the markers, in order. -/
  declared : declarations (scan policy file lines) = accounts.filterMap (·.2.declaration?)
  /-- The warnings of the file are those of the markers, in order. -/
  warned : warnings file (scan policy file lines) = accounts.filterMap (·.2.warning? file)

/-- The markers among the events of accounts. -/
theorem filterMap_marker?_accounts (accounts : List (Recognition × Finding)) :
    (accounts.flatMap fun a => [Event.marker a.1, .finding a.2]).filterMap Event.marker? =
      accounts.map (·.1) := by
  induction accounts with
  | nil => rfl
  | cons a accounts ih =>
    rw [List.flatMap_cons, List.filterMap_append, ih]
    rfl

/-- The findings among the events of accounts. -/
theorem filterMap_finding?_accounts (accounts : List (Recognition × Finding)) :
    (accounts.flatMap fun a => [Event.marker a.1, .finding a.2]).filterMap Event.finding? =
      accounts.map (·.2) := by
  induction accounts with
  | nil => rfl
  | cons a accounts ih =>
    rw [List.flatMap_cons, List.filterMap_append, ih]
    rfl

/-- Answers are declarations and warnings, as many as there are markers. -/
theorem length_answers {accounts : List (Recognition × Finding)}
    (h : ∀ a ∈ accounts, Answers file a.1 a.2) :
    (accounts.filterMap (·.2.declaration?)).length +
      (accounts.filterMap (·.2.warning? file)).length = accounts.length := by
  induction accounts with
  | nil => rfl
  | cons a accounts ih =>
    obtain ⟨ha, hrest⟩ := List.forall_mem_cons.1 h
    have hlength := ih hrest
    rcases ha with ⟨d, hd, hw, -⟩ | ⟨w, hd, hw, -⟩
    · simp only [List.filterMap_cons, hd, hw, List.length_cons]
      omega
    · simp only [List.filterMap_cons, hd, hw, List.length_cons]
      omega

/-- Every file has accounts. -/
theorem exists_accounted (policy : ScanPolicy) (file : Path)
    (lines : List Conditional.SourceLine) : ∃ accounts, Accounted policy file lines accounts := by
  have hsettles : Settles file none (scanEvents policy file lines) none :=
    settles_scanEvents lines
  -- Each marker is settled by one finding, which gives the accounts in order.
  obtain ⟨accounts, hevents, hplaces⟩ := hsettles.exists_accounts
  have hfound : scan policy file lines = accounts.map (·.2) := by
    rw [← findings_scanEvents, hevents, filterMap_finding?_accounts]
  refine ⟨accounts, hevents, fun a ha => ?_, fun a ha => answers_of_location (hplaces a ha), ?_, ?_⟩
  · -- The markers come from the lines; the end of the file adds findings only.
    have hmarker : .marker a.1 ∈ scanEvents policy file lines := by
      rw [hevents]
      exact List.mem_flatMap.2 ⟨a, ha, .head _⟩
    rcases List.mem_append.1 hmarker with hlines | hend
    · exact marked_linesEvents hlines
    · obtain ⟨f, -, hf⟩ := List.mem_map.1 hend
      cases hf
  · rw [hfound]
    exact List.filterMap_map
  · rw [hfound]
    exact List.filterMap_map

/-- Every marker of a file is accounted for: it gives one declaration or one warning, on its own
line, in order. So declarations and warnings are together as many as the markers taken, and a
file in which no marker stands alone has none of either. With the empty word as a marker there may
be no run that this is about, for it need not end (`scanning_ends_iff`). -/
theorem scan_accounts (policy : ScanPolicy) (file : Path) (lines : List Conditional.SourceLine) :
    (∃ accounts, Accounted policy file lines accounts) ∧
      (declarations (scan policy file lines)).length +
        (warnings file (scan policy file lines)).length =
          ((scanEvents policy file lines).filterMap Event.marker?).length ∧
      ((∀ l ∈ codeLines policy lines, ∀ before rest, ¬ MarkerBetween policy l.code before rest) →
        declarations (scan policy file lines) = [] ∧
          warnings file (scan policy file lines) = []) := by
  obtain ⟨accounts, h⟩ := exists_accounted policy file lines
  refine ⟨⟨accounts, h⟩, ?_, fun hno => ?_⟩
  · rw [h.declared, h.warned, length_answers h.answers, h.events, filterMap_marker?_accounts,
      List.length_map]
  · have hempty : accounts = [] := by
      refine List.eq_nil_iff_forall_not_mem.2 fun a ha => ?_
      obtain ⟨l, hl, -, before, hbetween⟩ := h.marked a ha
      exact hno l hl before a.1.behind hbetween
    rw [h.declared, h.warned, hempty]
    exact ⟨rfl, rfl⟩

/-- Two declarations, a marker in front of something else and one at the end of the file; and a
file that only has longer words and a comment. -/
theorem scan_accounts_two_files :
    let policy : ScanPolicy := { markers := ["API"] }
    let file : Path := ⟨"a.h"⟩
    let code : List Conditional.SourceLine :=
      [⟨1, "API int f(int a);API x;".toList⟩, ⟨4, "API void g(".toList⟩, ⟨5, "int b); API".toList⟩]
    let other : List Conditional.SourceLine := [⟨1, "int APIS(int a); // API".toList⟩]
    (declarations (scan policy file code)).length = 2 ∧
      (warnings file (scan policy file code)).map (·.line) = [some 1, some 5] ∧
      ((scanEvents policy file code).filterMap Event.marker?).length = 4 ∧
      declarations (scan policy file other) = [] ∧ warnings file (scan policy file other) = [] := by
  intro policy file code other
  have hdeclared : (declarations (scan policy file code)).length = 2 := by decide +kernel
  have hwarned : (warnings file (scan policy file code)).map (·.line) = [some 1, some 5] := by
    decide +kernel
  -- The markers are counted by what they give, two declarations and two warnings.
  refine ⟨hdeclared, hwarned, ?_, (scan_accounts policy file other).2.2 fun l hl => ?_⟩
  · have hcount := congrArg List.length hwarned
    rw [List.length_map] at hcount
    rw [← (scan_accounts policy file code).2.1, hdeclared, hcount]
    rfl
  · have hnone : ∀ l ∈ codeLines policy other, afterMarker? policy l.code = none := by
      decide +kernel
    exact (afterMarker?_eq_none_iff (by decide)).1 (hnone l hl)

end NativeBindings.Scanner
