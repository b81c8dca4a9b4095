import NativeBindings.Proofs.Scanner.Balance
import NativeBindings.Proofs.Scanner.Machine

/-!
# What holds in every state that is reached

`Reached` follows the scanner step by step while lines are fed to it, and says in which state it is
and what is left of its line. The states behind whole lines are among those reached
(`Reached.feedAll`), and so is the state in which a declaration is completed
(`Reached.exists_of_mem_feedAll`). One invariant goes through all steps: a list has at least one
parenthesis open, and the parameters collected so far have as many opening parentheses more than
closing ones as are open inside the list (`State.Nested.read`). Behind the parameters none is open
inside, so what is read as a list of parameters is balanced (`params_balanced`). All this holds of
the machine that keeps what it collects in a field of its own as well, since it comes to the same
states (`Machine.Reached.state`).
-/

namespace NativeBindings.Scanner

variable {policy : ScanPolicy} {file : Path} {init s : State}

/-! ## Opening and closing parentheses -/

/-- A text has `n` more opening parentheses than closing ones, and no start of it has more closing
than opening ones. -/
structure Exceeds (n : Nat) (t : Text) : Prop where
  /-- How many more the text has. -/
  total : t.count '(' = t.count ')' + n
  /-- What holds of every start. -/
  prefixes : ∀ p, p <+: t → p.count ')' ≤ p.count '('

/-- Without text there are no parentheses. -/
theorem exceeds_nil : Exceeds 0 [] where
  total := rfl
  prefixes p hp := by
    rw [List.prefix_nil.1 hp]
    exact le_refl 0

/-- With one more character only the number for the whole text changes. -/
theorem Exceeds.push {n m : Nat} {t : String} {ch : Char} (h : Exceeds n t.toList)
    (hcount : n + [ch].count '(' = m + [ch].count ')') : Exceeds m (t.push ch).toList := by
  have htotal : (t.toList ++ [ch]).count '(' = (t.toList ++ [ch]).count ')' + m := by
    have hbefore := h.total
    rw [List.count_append, List.count_append]
    omega
  rw [String.toList_push]
  refine ⟨htotal, fun p hp => ?_⟩
  rcases List.prefix_concat_iff.1 hp with rfl | hp
  · omega
  · exact h.prefixes p hp

/-- A text with no start that closes `depth` parentheses keeps a list open. -/
theorem keepsOpen_of_prefixes {depth : Nat} {t : Text}
    (h : ∀ p, p <+: t → p.count ')' < depth + p.count '(') :
    KeepsOpen depth t ∧ t.foldl depthAfter depth + t.count ')' = depth + t.count '(' := by
  induction t generalizing depth with
  | nil => exact ⟨trivial, rfl⟩
  | cons ch t ih =>
    -- The first character does not close the last parenthesis, and changes the depth by the count.
    have hfirst : [ch].count ')' < depth + [ch].count '(' := h [ch] ⟨t, rfl⟩
    have hstep : depthAfter depth ch + [ch].count ')' = depth + [ch].count '(' := by
      unfold depthAfter
      split_ifs with hopen hclose
      · subst hopen
        simp
      · subst hclose
        have hpos : [')'].count ')' = 1 := rfl
        have hnone : [')'].count '(' = 0 := rfl
        omega
      · simp [hopen, hclose]
    have hcount : ∀ (x : Char) (p : Text), (ch :: p).count x = [ch].count x + p.count x :=
      fun _ _ => @List.count_append _ _ _ [ch] _
    -- The starts of the rest are those of the text without its first character.
    have hrest : ∀ p, p <+: t → p.count ')' < depthAfter depth ch + p.count '(' := by
      intro p hp
      have hp' := h (ch :: p) ((List.prefix_cons_inj ch).2 hp)
      rw [hcount ')' p, hcount '(' p] at hp'
      omega
    obtain ⟨hkeeps, hsame⟩ := ih hrest
    refine ⟨⟨fun hclose hone => ?_, hkeeps⟩, ?_⟩
    · subst hclose hone
      simp at hfirst
    · rw [List.foldl_cons, hcount ')' t, hcount '(' t]
      omega

/-- A text in which no parenthesis stays open is balanced. -/
theorem Exceeds.balanced {t : Text} (h : Exceeds 0 t) : Balanced t := by
  have hprefixes : ∀ p, p <+: t → p.count ')' < 1 + p.count '(' := fun p hp =>
    Nat.lt_one_add_iff.2 (h.prefixes p hp)
  obtain ⟨hkeeps, hsame⟩ := keepsOpen_of_prefixes hprefixes
  have htotal := h.total
  exact ⟨hkeeps, by omega⟩

/-! ## The states that are reached -/

/-- While lines are fed to it in turn, from a first state on, the scanner is in the given state,
between two lines or with the given text of a line left to read. -/
inductive Reached (policy : ScanPolicy) (file : Path) (init : State) :
    State → Option (CodeLine × Text) → Prop
  /-- In front of all lines. -/
  | start : Reached policy file init init none
  /-- A further line may give a declaration up; then it is read. -/
  | line {s : State} (l : CodeLine) (h : Reached policy file init s none) :
      Reached policy file init (s.expire policy l.number).1 (some (l, l.code))
  /-- Outside declarations the next marker is taken. -/
  | marker {l : CodeLine} {text rest : Text}
      (h : Reached policy file init .outside (some (l, text))) (hne : text ≠ [])
      (hmarker : afterMarker? policy text = some rest) :
      Reached policy file init (.inHead { line := l.number }) (some (l, rest))
  /-- Inside a declaration the next character is read. -/
  | read {s : State} {l : CodeLine} {ch : Char} {text : Text}
      (h : Reached policy file init s (some (l, ch :: text))) (hs : s ≠ .outside) :
      Reached policy file init (s.read file l.comment ch).1 (some (l, text))
  /-- The line ends where nothing is left to read, or no marker. -/
  | done {s : State} {l : CodeLine} {text : Text} (h : Reached policy file init s (some (l, text)))
      (hend : text = [] ∨ s = .outside ∧ afterMarker? policy text = none) :
      Reached policy file init s.endLine none

/-- A text on a line leads to a state with nothing left to read. -/
theorem Reached.readText {l : CodeLine} {text : Text}
    (h : Reached policy file init s (some (l, text))) :
    ∃ rest, Reached policy file init (readText policy file l.number l.comment s text).1
      (some (l, rest)) ∧ (rest = [] ∨
        (Scanner.readText policy file l.number l.comment s text).1 = .outside ∧
          afterMarker? policy rest = none) := by
  fun_induction Scanner.readText policy file l.number l.comment s text with
  | case1 s => exact ⟨[], h, .inl rfl⟩
  | case2 c cs hnone => exact ⟨c :: cs, h, .inr ⟨rfl, hnone⟩⟩
  | case3 c cs rest hsome hshorter ih => exact ih (h.marker (List.cons_ne_nil c cs) hsome)
  | case4 s c cs hs s' found hread s'' more hmore ih =>
    have hnext : Reached policy file init s' (some (l, cs)) := by
      have hstep := h.read hs
      rwa [hread] at hstep
    have hrest := ih hnext
    rwa [hmore] at hrest

/-- A line leads to a state between lines. -/
theorem Reached.feed (h : Reached policy file init s none) (l : CodeLine) :
    Reached policy file init (feed policy file s l).1 none := by
  obtain ⟨rest, hreached, hend⟩ := (h.line l).readText
  exact hreached.done hend

/-- Lines lead to a state between lines. -/
theorem Reached.feedAll (h : Reached policy file init s none) (ls : List CodeLine) :
    Reached policy file init (feedAll policy file s ls).1 none := by
  induction ls generalizing s with
  | nil => exact h
  | cons l ls ih => exact ih (h.feed l)

/-- What is reached from a sound state is sound. -/
theorem Reached.sound {rest : Option (CodeLine × Text)} (h : Reached policy file init s rest)
    (hinit : init.Sound) : s.Sound := by
  induction h with
  | start => exact hinit
  | line l _ ih => exact ih.expire l.number
  | marker => rfl
  | @read s l ch _ _ _ ih => exact ih.read file l.comment ch
  | done _ _ ih => exact ih.endLine

/-- A machine that is reached is in a state that is reached. -/
theorem Machine.Reached.state {m : Machine} {rest : Option (CodeLine × Text)}
    (h : Machine.Reached policy file m rest) :
    Scanner.Reached policy file .outside m.state rest := by
  induction h with
  | start => exact .start
  | @line m l _ ih =>
    have hline := ih.line l
    rwa [Machine.expire_eq] at hline
  | @marker m l text rest _ hphase hne hmarker ih =>
    rw [m.state_eq_outside_iff.2 hphase] at ih
    exact ih.marker hne hmarker
  | @read m l ch text _ hphase ih =>
    have hread := ih.read (mt m.state_eq_outside_iff.1 hphase)
    rwa [Machine.read_eq] at hread
  | @done m l text _ hend ih =>
    have hdone := ih.done (hend.imp_right (And.imp_left m.state_eq_outside_iff.2))
    rwa [Machine.endLine_eq] at hdone

/-! ## The invariant -/

/-- Of the parameters collected in a list all parentheses are closed but those open inside the list,
and of complete parameters all. -/
def State.Nested : State → Prop
  | .inParams c depth => Exceeds (depth - 1) c.params.toList
  | .afterParams c => Exceeds 0 c.params.toList
  | .outside | .inHead _ | .inAttribute _ _ => True

/-- A character keeps the invariant up. -/
theorem State.Nested.read (h : s.Nested) (hsound : s.Sound) (file : Path) (doc : Option Text)
    (ch : Char) : (s.read file doc ch).1.Nested := by
  fun_cases State.read file doc s ch with
  | case3 c =>
    -- Nothing of the parameters is collected in front of their list.
    have hempty : c.params = "" := hsound
    change Exceeds 0 c.params.toList
    rw [hempty]
    exact exceeds_nil
  | case10 c depth hclose =>
    have hopen : Exceeds (depth - 1) c.params.toList := h
    rwa [hclose.2] at hopen
  | case11 c depth hinside c' hopen =>
    subst hopen
    have hdepth : 1 ≤ depth := hsound
    have hlist : Exceeds (depth - 1) c.params.toList := h
    exact hlist.push (show depth - 1 + 1 = depth + 1 - 1 + 0 by omega)
  | case12 c depth hinside c' hopen hclose =>
    -- One parenthesis at least is open inside the list.
    subst hclose
    have hdepth : 1 ≤ depth := hsound
    have hne : depth ≠ 1 := fun hone => hinside ⟨rfl, hone⟩
    have hlist : Exceeds (depth - 1) c.params.toList := h
    exact hlist.push (show depth - 1 + 0 = depth - 1 - 1 + 1 by omega)
  | case13 c depth hinside c' hopen hclose =>
    have hlist : Exceeds (depth - 1) c.params.toList := h
    exact hlist.push (by simp [hopen, hclose])
  | case15 c => exact h
  | _ => trivial

/-- The end of a line adds no parenthesis. -/
theorem State.Nested.endLine (h : s.Nested) : s.endLine.Nested := by
  cases s with
  | inParams c depth =>
    have hlist : Exceeds (depth - 1) c.params.toList := h
    exact hlist.push rfl
  | _ => exact h

/-- Giving a declaration up keeps the invariant up. -/
theorem State.Nested.expire (h : s.Nested) (n : Nat) : (s.expire policy n).1.Nested := by
  rcases s.expire_cases policy n with hstays | ⟨line, -, hends⟩
  · rwa [hstays]
  · rw [hends]
    trivial

/-- The invariant goes on to every state that is reached. -/
theorem Reached.nested {rest : Option (CodeLine × Text)} (h : Reached policy file init s rest)
    (hsound : init.Sound) (hnested : init.Nested) : s.Nested := by
  induction h with
  | start => exact hnested
  | line l _ ih => exact ih.expire l.number
  | marker => trivial
  | @read s l ch _ h _ ih => exact ih.read (h.sound hsound) file l.comment ch
  | done _ _ ih => exact ih.endLine

/-! ## Complete declarations -/

/-- A finding about a declaration that is complete, whether it can be bound or not. -/
def Finding.IsComplete : Finding → Prop
  | .declared _ | .skipped _ (.defect _) => True
  | .skipped _ _ => False

/-- Only a character behind the parameters completes a declaration. -/
theorem exists_afterParams_of_read {doc : Option Text} {ch : Char} {f : Finding}
    (h : (s.read file doc ch).2 = some f) (hf : f.IsComplete) :
    ∃ c, s = .afterParams c ∧ f = finish file c doc := by
  cases s with
  | outside => cases h
  | afterParams c =>
    rw [State.read] at h
    split_ifs at h with hend
    · exact ⟨c, rfl, (Option.some.inj h).symm⟩
    · cases h
      exact hf.elim
  | inHead c =>
    -- A head that ends here gives a warning; attributes and parameters give nothing.
    rw [State.read] at h
    split_ifs at h
    cases h
    exact hf.elim
  | inAttribute c depth =>
    rw [State.read] at h
    split_ifs at h
  | inParams c depth =>
    rw [State.read] at h
    split_ifs at h

/-- A declaration that is completed in a text is completed in a state that is reached. -/
theorem Reached.exists_of_mem_readText {l : CodeLine} {text : Text}
    (h : Reached policy file init s (some (l, text))) {f : Finding}
    (hf : f ∈ (Scanner.readText policy file l.number l.comment s text).2)
    (hcomplete : f.IsComplete) :
    ∃ c rest, Reached policy file init (.afterParams c) (some (l, rest)) ∧
      f = finish file c l.comment := by
  fun_induction Scanner.readText policy file l.number l.comment s text with
  | case1 s => cases hf
  | case2 c cs hnone => cases hf
  | case3 c cs rest hsome hshorter ih => exact ih (h.marker (List.cons_ne_nil c cs) hsome) hf
  | case4 s c cs hs s' found hread s'' more hmore ih =>
    -- The finding is that of the character or one of the rest of the line.
    rcases List.mem_append.1 hf with hfound | hlater
    · have hread' : (s.read file l.comment c).2 = some f := by
        rw [hread]
        exact Option.mem_toList.1 hfound
      obtain ⟨c', rfl, hfinish⟩ := exists_afterParams_of_read hread' hcomplete
      exact ⟨c', c :: cs, h, hfinish⟩
    · have hnext : Reached policy file init s' (some (l, cs)) := by
        have hstep := h.read hs
        rwa [hread] at hstep
      rw [hmore] at ih
      exact ih hnext hlater

/-- A declaration that is completed on a line is completed in a state that is reached. -/
theorem Reached.exists_of_mem_feed (h : Reached policy file init s none) {l : CodeLine}
    {f : Finding} (hf : f ∈ (Scanner.feed policy file s l).2) (hcomplete : f.IsComplete) :
    ∃ c rest, Reached policy file init (.afterParams c) (some (l, rest)) ∧
      f = finish file c l.comment := by
  rw [feed_eq] at hf
  rcases List.mem_append.1 hf with hexpired | hfound
  · -- What is given up is not complete.
    rcases s.expire_cases policy l.number with hexpire | ⟨n, -, hexpire⟩
    · rw [hexpire] at hexpired
      cases hexpired
    · rw [hexpire] at hexpired
      cases List.mem_singleton.1 hexpired
      exact hcomplete.elim
  · exact (h.line l).exists_of_mem_readText hfound hcomplete

/-- A declaration that is completed in lines is completed in a state that is reached. -/
theorem Reached.exists_of_mem_feedAll (h : Reached policy file init s none) {ls : List CodeLine}
    {f : Finding} (hf : f ∈ (Scanner.feedAll policy file s ls).2) (hcomplete : f.IsComplete) :
    ∃ c l rest, Reached policy file init (.afterParams c) (some (l, rest)) ∧
      f = finish file c l.comment := by
  induction ls generalizing s with
  | nil => cases hf
  | cons l ls ih =>
    rw [feedAll_cons] at hf
    rcases List.mem_append.1 hf with hline | hmore
    · obtain ⟨c, rest, hreached, hfinish⟩ := h.exists_of_mem_feed hline hcomplete
      exact ⟨c, l, rest, hreached, hfinish⟩
    · exact ih (h.feed l) hmore

/-- In every state that the scanner reaches from outside declarations: outside nothing is collected;
in a list at least one parenthesis is open; of parameters in a list, `depth - 1` more parentheses
are opened than closed, and behind them none, where no start has more closed than opened. The states
between lines are among those reached, and every complete declaration is read in a state that is
reached behind its parameters, from parameters in which all parentheses match. A machine that keeps
what it collects in a field of its own has that field empty wherever it is outside declarations, and
comes to the same states with the same findings. The scanner reaches these states as far as its
searches end, which they do unless the empty word is a marker (`scanning_ends_iff`). -/
theorem params_balanced (policy : ScanPolicy) (file : Path) :
    (∀ s rest, Reached policy file .outside s rest →
      (s = .outside → s.candidate? = none) ∧
      (∀ c depth, s = .inAttribute c depth → 1 ≤ depth) ∧
      (∀ c depth, s = .inParams c depth → 1 ≤ depth ∧ Exceeds (depth - 1) c.params.toList) ∧
      ∀ c, s = .afterParams c → Exceeds 0 c.params.toList) ∧
    (∀ ls, Reached policy file .outside (feedAll policy file .outside ls).1 none ∧
      ∀ f ∈ (feedAll policy file .outside ls).2, f.IsComplete →
        ∃ c l rest, Reached policy file .outside (.afterParams c) (some (l, rest)) ∧
          f = finish file c l.comment ∧ Exceeds 0 c.params.toList ∧ Balanced c.params.toList) ∧
    (∀ m rest, Machine.Reached policy file m rest →
      (m.phase = .outside → m.pending = { line := 0 }) ∧
        Reached policy file .outside m.state rest) ∧
    ∀ ls, Machine.Reached policy file (Machine.feedAll policy file {} ls).1 none ∧
      feedAll policy file .outside ls =
        (Machine.feedAll policy file {} ls).map Machine.state id := by
  refine ⟨fun s rest h => ?_, fun ls => ⟨Reached.start.feedAll ls, fun f hf hcomplete => ?_⟩,
    fun m rest h => ⟨h.clean, h.state⟩, fun ls => ⟨.feedAll .start ls, Machine.feedAll_eq {} ls⟩⟩
  · -- In any state that is reached.
    have hsound := h.sound trivial
    have hnested := h.nested trivial trivial
    refine ⟨?_, ?_, ?_, ?_⟩
    · rintro rfl
      rfl
    · rintro c depth rfl
      exact hsound.2
    · rintro c depth rfl
      exact ⟨hsound, hnested⟩
    · rintro c rfl
      exact hnested
  · -- A complete declaration was one behind its parameters before.
    obtain ⟨c, l, rest, hreached, hfinish⟩ := Reached.start.exists_of_mem_feedAll hf hcomplete
    have hparams : Exceeds 0 c.params.toList := hreached.nested trivial trivial
    exact ⟨c, l, rest, hreached, hfinish, hparams, hparams.balanced⟩

/-- A list that lines break inside two of its parentheses, and what the complete list gives. Behind
it nothing is left of it. -/
theorem params_balanced_callback :
    let policy : ScanPolicy := { markers := ["API"] }
    let file : Path := ⟨"a.h"⟩
    let ls : List CodeLine := [⟨3, "API int f(int (*g)(int), int h[".toList, none⟩,
      ⟨4, "sizeof(".toList, none⟩, ⟨5, "int)], int k);".toList, none⟩]
    let c : Candidate := ⟨3, " int f", "int (*g)(int), int h[ sizeof( "⟩
    let f : Finding := .skipped 3 (.defect (.badParameter "int (*g)(int)" "f"))
    let m := (Machine.feedAll policy file {} ls).1
    Reached policy file .outside (.inParams c 2) none ∧ 1 ≤ 2 ∧ Exceeds 1 c.params.toList ∧
      f ∈ (feedAll policy file .outside ls).2 ∧ f.IsComplete ∧
      (∃ c l rest, Reached policy file .outside (.afterParams c) (some (l, rest)) ∧
        f = finish file c l.comment ∧ Exceeds 0 c.params.toList ∧ Balanced c.params.toList) ∧
      Machine.Reached policy file m none ∧ m.phase = .outside ∧ m.pending = { line := 0 } := by
  intro policy file ls c f m
  obtain ⟨hstates, hlines, hmachines, hruns⟩ := params_balanced policy file
  have hstate : (feedAll policy file .outside (ls.take 2)).1 = .inParams c 2 := by decide +kernel
  have hreached := (hlines (ls.take 2)).1
  rw [hstate] at hreached
  have hlist := (hstates _ _ hreached).2.2.1 c 2 rfl
  have hfound : f ∈ (feedAll policy file .outside ls).2 := by decide +kernel
  have hphase : m.phase = .outside := by decide +kernel
  exact ⟨hreached, hlist.1, hlist.2, hfound, trivial, (hlines ls).2 f hfound trivial,
    (hruns ls).1, hphase, (hmachines m none (hruns ls).1).1 hphase⟩

end NativeBindings.Scanner
