import NativeBindings.Proofs.Declaration.Head
import NativeBindings.Proofs.Scanner.OpenList

/-!
# Declarations that are read alike

What the scanner collects is looked at once only, when a declaration is complete. So two states that
have collected different texts on one line give the same findings from there on, if whatever may
still be collected is read to the same declaration in both (`State.Alike.findingsFrom`).
-/

namespace NativeBindings.Scanner

variable {policy : ScanPolicy} {file : Path} {line : Nat} {doc : Option Text}

/-- Two candidates of one line are read to the same declaration. -/
structure Candidate.Alike (c c' : Candidate) : Prop where
  /-- The markers stand on one line. -/
  line : c.line = c'.line
  /-- The texts are read to the same declaration. -/
  read : ∀ location doc, Declaration.read location c.head.toList c.params.toList doc =
    Declaration.read location c'.head.toList c'.params.toList doc

/-- The same findings follow in both states. -/
inductive State.Alike : State → State → Prop
  /-- The states are the same. -/
  | refl (s : State) : Alike s s
  /-- Whatever is still added to the parameters, the candidates are read alike. -/
  | inParams {c c' : Candidate} {depth : Nat} (h : ∀ t, (c.addParams t).Alike (c'.addParams t)) :
      Alike (.inParams c depth) (.inParams c' depth)
  /-- The candidates are complete and are read alike. -/
  | afterParams {c c' : Candidate} (h : c.Alike c') : Alike (.afterParams c) (.afterParams c')

/-- Candidates that are read alike give the same finding. -/
theorem Candidate.Alike.finish_eq {c c' : Candidate} (h : c.Alike c') :
    finish file c doc = finish file c' doc := by
  unfold finish
  rw [h.line, h.read]

namespace State.Alike

variable {s s' : State}

theorem outside_iff (h : s.Alike s') : s = .outside ↔ s' = .outside := by
  cases h <;> simp

/-- A character gives the same finding, and the states behind it are alike. -/
theorem read (h : s.Alike s') (file : Path) (doc : Option Text) (ch : Char) :
    (s.read file doc ch).2 = (s'.read file doc ch).2 ∧
      (s.read file doc ch).1.Alike (s'.read file doc ch).1 := by
  cases h with
  | refl => exact ⟨rfl, .refl _⟩
  | @inParams c c' depth h =>
    -- What is still to come is collected behind the character in both.
    have hpush : ∀ t, ((c.addParams [ch]).addParams t).Alike ((c'.addParams [ch]).addParams t) := by
      intro t
      rw [← Candidate.addParams_append, ← Candidate.addParams_append]
      exact h _
    rw [State.read, State.read]
    simp only [Candidate.push_params]
    split_ifs with hend hopen hclose
    · refine ⟨rfl, .afterParams ?_⟩
      simpa using h []
    · exact ⟨rfl, .inParams hpush⟩
    · exact ⟨rfl, .inParams hpush⟩
    · exact ⟨rfl, .inParams hpush⟩
  | @afterParams c c' h =>
    rw [State.read, State.read]
    -- Only here is looked at what was collected: it is read alike.
    split_ifs with hend hword
    · exact ⟨congrArg some h.finish_eq, .refl _⟩
    · exact ⟨rfl, .afterParams h⟩
    · exact ⟨by rw [h.line], .refl _⟩

/-- A text gives the same findings, and the states behind it are alike. -/
theorem readText (h : s.Alike s') (policy : ScanPolicy) (file : Path) (line : Nat)
    (doc : Option Text) (text : Text) :
    (readText policy file line doc s text).2 = (readText policy file line doc s' text).2 ∧
      (readText policy file line doc s text).1.Alike (readText policy file line doc s' text).1 := by
  induction text generalizing s s' with
  | nil =>
    rw [readText_nil, readText_nil]
    exact ⟨rfl, h⟩
  | cons ch text ih =>
    by_cases hs : s = .outside
    · obtain rfl := hs
      obtain rfl := h.outside_iff.1 rfl
      exact ⟨rfl, .refl _⟩
    · obtain ⟨hfound, hnext⟩ := h.read file doc ch
      obtain ⟨hmore, hbehind⟩ := ih hnext
      rw [readText_cons hs, readText_cons (mt h.outside_iff.2 hs), hfound, hmore]
      exact ⟨rfl, hbehind⟩

/-- Alike states give up their declarations alike. -/
theorem expire (h : s.Alike s') (policy : ScanPolicy) (number : Nat) :
    (s.expire policy number).2 = (s'.expire policy number).2 ∧
      (s.expire policy number).1.Alike (s'.expire policy number).1 := by
  -- Declarations that start on one line are given up on the same line.
  have hcases : ∀ {s s' : State} {c c' : Candidate}, s.Alike s' → s.candidate? = some c →
      s'.candidate? = some c' → c.line = c'.line →
      (s.expire policy number).2 = (s'.expire policy number).2 ∧
        (s.expire policy number).1.Alike (s'.expire policy number).1 := by
    intro s s' c c' h hc hc' hline
    unfold State.expire
    rw [hc, hc']
    dsimp only
    rw [hline]
    split_ifs
    · exact ⟨rfl, .refl _⟩
    · exact ⟨rfl, h⟩
  cases h with
  | refl => exact ⟨rfl, .refl _⟩
  | inParams h => exact hcases (.inParams h) rfl rfl (h []).line
  | afterParams h => exact hcases (.afterParams h) rfl rfl h.line

/-- The end of a line keeps states alike. -/
theorem endLine (h : s.Alike s') : s.endLine.Alike s'.endLine := by
  cases h with
  | refl => exact .refl _
  | inParams h =>
    refine .inParams fun t => ?_
    rw [Candidate.push_params, Candidate.push_params, ← Candidate.addParams_append,
      ← Candidate.addParams_append]
    exact h _
  | afterParams h => exact .afterParams h

/-- A line gives the same findings, and the states behind it are alike. -/
theorem feed (h : s.Alike s') (policy : ScanPolicy) (file : Path) (l : CodeLine) :
    (feed policy file s l).2 = (feed policy file s' l).2 ∧
      (feed policy file s l).1.Alike (feed policy file s' l).1 := by
  obtain ⟨hexpired, hgo⟩ := h.expire policy l.number
  obtain ⟨hfound, hnext⟩ := hgo.readText policy file l.number l.comment l.code
  rw [feed_eq, feed_eq, hexpired, hfound]
  exact ⟨rfl, hnext.endLine⟩

/-- Lines give the same findings, and the states behind them are alike. -/
theorem feedAll (h : s.Alike s') (policy : ScanPolicy) (file : Path) (ls : List CodeLine) :
    (feedAll policy file s ls).2 = (feedAll policy file s' ls).2 ∧
      (feedAll policy file s ls).1.Alike (feedAll policy file s' ls).1 := by
  induction ls generalizing s s' with
  | nil => exact ⟨rfl, h⟩
  | cons l ls ih =>
    obtain ⟨hfound, hnext⟩ := h.feed policy file l
    obtain ⟨hmore, hbehind⟩ := ih hnext
    rw [feedAll_cons, feedAll_cons, hfound, hmore]
    exact ⟨rfl, hbehind⟩

/-- At the end of the file alike states give the same. -/
theorem atEnd (h : s.Alike s') : s.atEnd = s'.atEnd := by
  cases h with
  | refl => rfl
  | inParams h =>
    exact congrArg (fun n => [Finding.skipped n .endOfFile]) (h []).line
  | afterParams h => exact congrArg (fun n => [Finding.skipped n .endOfFile]) h.line

end State.Alike

/-- The findings in the lines from a state on, up to the end of the file. -/
def findingsFrom (policy : ScanPolicy) (file : Path) (s : State) (ls : List CodeLine) :
    List Finding :=
  (feedAll policy file s ls).2 ++ (feedAll policy file s ls).1.atEnd

/-- The findings are those of the first line and those from the state behind it on. -/
theorem findingsFrom_cons {s : State} (l : CodeLine) (more : List CodeLine) :
    findingsFrom policy file s (l :: more) =
      (feed policy file s l).2 ++ findingsFrom policy file (feed policy file s l).1 more := by
  unfold findingsFrom
  rw [feedAll_cons, List.append_assoc]

/-- Alike states give the same findings up to the end of the file. -/
theorem State.Alike.findingsFrom {s s' : State} (h : s.Alike s') (ls : List CodeLine) :
    findingsFrom policy file s ls = findingsFrom policy file s' ls := by
  obtain ⟨hfound, hnext⟩ := h.feedAll policy file ls
  unfold Scanner.findingsFrom
  rw [hfound, hnext.atEnd]

/-- Two codes that are read alike give the same findings up to the end of the file. -/
theorem findingsFrom_alike {s : State} {n : Nat} {comment : Option Text} {code code' : Text}
    (hfound : (readText policy file n comment (s.expire policy n).1 code).2 =
      (readText policy file n comment (s.expire policy n).1 code').2)
    (hstate : (readText policy file n comment (s.expire policy n).1 code).1.Alike
      (readText policy file n comment (s.expire policy n).1 code').1) (more : List CodeLine) :
    findingsFrom policy file s (⟨n, code, comment⟩ :: more) =
      findingsFrom policy file s (⟨n, code', comment⟩ :: more) := by
  rw [findingsFrom_cons, findingsFrom_cons, feed_eq, feed_eq, hfound]
  exact congrArg _ (hstate.endLine.findingsFrom more)

/-- Lines give the same findings as one line that joins them by spaces, but for line numbers. -/
theorem findingsFrom_numbered (hall : ∀ m ∈ policy.markers, isIdentifier m.toList) (s : State)
    (n : Nat) (ls : List Text) (hne : ls ≠ [])
    (hgo : NoneExpires policy file s (numbered n ls)) :
    (findingsFrom policy file s (numbered n ls)).map Finding.unplaced =
      (findingsFrom policy file s [⟨n, Text.unwords ls, none⟩]).map Finding.unplaced := by
  have hend : ∀ s : State, s.atEnd.map Finding.unplaced = s.unplaced.atEnd := by
    intro s
    cases s <;> rfl
  obtain ⟨l, ls, rfl⟩ := List.exists_cons_of_ne_nil hne
  obtain ⟨hstate, hfound⟩ := Prod.mk.inj (unplaced_feedAll hall s n l ls hgo.2)
  unfold findingsFrom
  rw [List.map_append, List.map_append, hend, hend, hfound, hstate, feedAll_cons]
  simp only [feedAll, List.append_nil]

/-- The line comment behind a text does not matter to the state. -/
theorem readText_comment (doc' : Option Text) (s : State) (text : Text) :
    (readText policy file line doc s text).1 = (readText policy file line doc' s text).1 := by
  have hread : ∀ (s : State) (ch : Char), (s.read file doc ch).1 = (s.read file doc' ch).1 := by
    intro s ch
    cases s with
    | afterParams c =>
      rw [State.read, State.read]
      split_ifs <;> rfl
    | _ => rfl
  fun_induction readText policy file line doc s text with
  | case1 s => rw [readText_nil]
  | case2 c cs hnone => rw [readText_outside_none hnone]
  | case3 c cs rest hsome hshorter ih =>
    rw [readText_outside (by simp) hsome]
    exact ih
  | case4 s c cs hs s' found hstep s'' more hmore ih =>
    rw [readText_cons hs, ← hread, hstep, ← ih, hmore]

end NativeBindings.Scanner
