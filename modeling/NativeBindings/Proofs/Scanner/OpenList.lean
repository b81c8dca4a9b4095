import NativeBindings.Proofs.Scanner.LineBreak

/-!
# What the scanner does with a line that it does not expect

Every state that a run reaches has parentheses open in lists and no parameters in front of them
(`State.Sound`). A text whose parentheses close none that were open is read into a list, gives
nothing and leaves the list open (`State.OpenAt.feed`). Behind parameters the first character that
is no word ends the declaration, and what follows is read as outside (`readText_afterParams`).
-/

namespace NativeBindings

namespace Scanner

variable {policy : ScanPolicy} {file : Path} {line : Nat} {doc : Option Text} {s : State}

/-! ## The end of a head -/

/-- No character of a class ends a head when none of the five is in the class. -/
theorem endsHead_of_class {p : Char → Bool} (hp : ['(', ';', '{', '}', '='].all (!p ·)) {ch : Char}
    (h : p ch) : endsHead ch = false := by
  cases hends : endsHead ch with
  | false => rfl
  | true =>
    have hnot := List.all_eq_true.1 hp ch (mem_of_endsHead hends)
    rw [h] at hnot
    cases hnot

/-- No character of an identifier ends a head. -/
theorem endsHead_of_isIdentChar {ch : Char} (h : isIdentChar ch) : endsHead ch = false :=
  endsHead_of_class (by decide) h

/-- No blank ends a head. -/
theorem endsHead_of_isBlank {ch : Char} (h : isBlank ch) : endsHead ch = false :=
  endsHead_of_class (by decide) h

/-! ## The lookahead -/

/-- Within the lookahead a declaration stays open. -/
theorem State.expire_of_lt {c : Candidate} {n : Nat} (hc : s.candidate? = some c)
    (hlate : n - c.line < policy.lookahead) : s.expire policy n = (s, none) := by
  unfold State.expire
  rw [hc]
  exact if_neg (Nat.not_le.2 hlate)

/-- At its end the declaration is given up. -/
theorem State.expire_of_le {c : Candidate} {n : Nat} (hc : s.candidate? = some c)
    (hlate : policy.lookahead ≤ n - c.line) :
    s.expire policy n = (.outside, some (.skipped c.line (.tooLong policy.lookahead))) := by
  unfold State.expire
  rw [hc]
  exact if_pos hlate

/-! ## States that a run reaches -/

/-- What holds of every state that a run reaches: parentheses are open in lists, and no parameters
are collected in front of them. -/
def State.Sound : State → Prop
  | .outside | .afterParams _ => True
  | .inHead c => c.params = ""
  | .inAttribute c depth => c.params = "" ∧ 1 ≤ depth
  | .inParams _ depth => 1 ≤ depth

/-- A character leads to a sound state. -/
theorem State.Sound.read (h : s.Sound) (file : Path) (doc : Option Text) (ch : Char) :
    (s.read file doc ch).1.Sound := by
  -- The cases left out lead outside, or behind the parameters.
  fun_cases State.read file doc s ch with
  | case2 c => exact ⟨h, le_refl 1⟩
  | case3 c => exact le_refl 1
  | case5 c => exact h
  | case6 c depth =>
    obtain ⟨hparams, hdepth⟩ : c.params = "" ∧ 1 ≤ depth := h
    exact ⟨hparams, by omega⟩
  | case7 c =>
    obtain ⟨hparams, -⟩ : c.params = "" ∧ 1 ≤ 1 := h
    exact hparams
  | case8 c depth _ _ _ hdeeper =>
    obtain ⟨hparams, hdepth⟩ : c.params = "" ∧ 1 ≤ depth := h
    exact ⟨hparams, by omega⟩
  | case9 c depth => exact h
  | case11 c depth =>
    change 1 ≤ depth + 1
    omega
  | case12 c depth hdeeper _ _ hclose =>
    -- The parenthesis that closes the parameters is read in another case.
    have hdepth : 1 ≤ depth := h
    have hne : depth ≠ 1 := fun heq => hdeeper ⟨hclose, heq⟩
    change 1 ≤ depth - 1
    omega
  | case13 c depth => exact h
  | _ => trivial

/-- A text leads to a sound state. -/
theorem State.Sound.readText (h : s.Sound) (text : Text) :
    (readText policy file line doc s text).1.Sound := by
  fun_induction Scanner.readText policy file line doc s text with
  | case1 s => exact h
  | case2 c cs hnone => exact h
  | case3 c cs rest hsome hshorter ih => exact ih rfl
  | case4 s c cs hs s' found hread s'' more hmore ih =>
    have hnext : s'.Sound := by
      have hstep := h.read file doc c
      rwa [hread] at hstep
    have hrest := ih hnext
    rwa [hmore] at hrest

/-- Giving a declaration up leads to a sound state. -/
theorem State.Sound.expire (h : s.Sound) (n : Nat) : (s.expire policy n).1.Sound := by
  rcases s.expire_cases policy n with hstays | ⟨line, -, hends⟩
  · rwa [hstays]
  · rw [hends]
    trivial

/-- The end of a line adds a space to what is collected. -/
theorem State.Sound.endLine (h : s.Sound) : s.endLine.Sound := by
  cases s <;> exact h

/-- A line leads to a sound state. -/
theorem State.Sound.feed (h : s.Sound) (l : CodeLine) : (feed policy file s l).1.Sound := by
  have hread : (Scanner.readText policy file l.number l.comment (s.expire policy l.number).1
      l.code).1.Sound := (h.expire l.number).readText l.code
  exact hread.endLine

/-- Lines lead to a sound state. -/
theorem State.Sound.feedAll (h : s.Sound) (ls : List CodeLine) :
    (feedAll policy file s ls).1.Sound := by
  induction ls generalizing s with
  | nil => exact h
  | cons l ls ih => exact ih (h.feed l)

/-! ## Lists that stay open -/

/-- The number of parentheses that are open, where the scanner counts them. -/
def State.depth? : State → Option Nat
  | .inAttribute _ depth | .inParams _ depth => some depth
  | _ => none

/-- The scanner is inside a list, with parentheses open, of the declaration of a given line. -/
def State.OpenAt (s : State) (n depth : Nat) : Prop := s.line? = some n ∧ s.depth? = some depth

variable {n depth : Nat}

/-- A character in a list leaves the list open, unless it closes the last parenthesis. -/
theorem State.OpenAt.read (h : s.OpenAt n depth) (file : Path) (doc : Option Text) {ch : Char}
    (hch : ch = ')' → depth ≠ 1) :
    ∃ s', s.read file doc ch = (s', none) ∧ s'.OpenAt n (depthAfter depth ch) := by
  obtain ⟨hline, hdepth⟩ := h
  cases s with
  | inAttribute c d =>
    obtain rfl : d = depth := Option.some.inj hdepth
    rw [State.read]
    unfold depthAfter
    split_ifs with hopen hclose hone
    · exact ⟨_, rfl, hline, rfl⟩
    · exact absurd hone (hch hclose)
    · exact ⟨_, rfl, hline, rfl⟩
    · exact ⟨_, rfl, hline, rfl⟩
  | inParams c d =>
    obtain rfl : d = depth := Option.some.inj hdepth
    -- The parameters go on, for this is not the parenthesis that ends them.
    rw [State.read, if_neg fun hone => hch hone.1 hone.2]
    unfold depthAfter
    split_ifs with hopen hclose
    · exact ⟨_, rfl, hline, rfl⟩
    · exact ⟨_, rfl, hline, rfl⟩
    · exact ⟨_, rfl, hline, rfl⟩
  | _ => cases hdepth

/-- A text that keeps the list open gives nothing. -/
theorem State.OpenAt.readText (h : s.OpenAt n depth) {text : Text} (ht : KeepsOpen depth text) :
    ∃ s', readText policy file line doc s text = (s', []) ∧
      s'.OpenAt n (text.foldl depthAfter depth) := by
  induction text generalizing s depth with
  | nil => exact ⟨s, readText_nil s, h⟩
  | cons ch text ih =>
    obtain ⟨hch, htext⟩ := ht
    obtain ⟨s', hread, hopen⟩ := h.read file doc hch
    have hs : s ≠ .outside := by
      rintro rfl
      cases h.1
    rw [readText_step hs hread, List.foldl_cons]
    exact ih hopen htext

/-- A line that keeps the list open gives nothing, unless the lookahead gives the declaration up. -/
theorem State.OpenAt.feed (h : s.OpenAt n depth) {l : CodeLine} (ht : KeepsOpen depth l.code)
    (hlate : l.number - n < policy.lookahead) :
    ∃ s', feed policy file s l = (s', []) ∧ s'.OpenAt n (l.code.foldl depthAfter depth) := by
  have hstays : s.expire policy l.number = (s, none) := by
    obtain ⟨c, hc, rfl⟩ := Option.map_eq_some_iff.1 h.1
    exact State.expire_of_lt hc hlate
  obtain ⟨s', hread, hopen⟩ : ∃ s', Scanner.readText policy file l.number l.comment s l.code =
      (s', []) ∧ s'.OpenAt n (l.code.foldl depthAfter depth) := h.readText ht
  refine ⟨s'.endLine, ?_, ?_⟩
  · rw [feed_eq, hstays, hread]
    rfl
  · obtain ⟨hline, hdepth⟩ := hopen
    refine ⟨by rwa [line?_endLine], ?_⟩
    cases s' <;> exact hdepth

/-! ## Behind parameters -/

/-- Behind parameters only words may stand in front of the end, so a parenthesis, or another
character before it, ends the declaration. -/
theorem readText_afterParams {t : Text} (ht : ∀ ch ∈ t, endsHead ch = false) (rest : Text) :
    ∃ past ch u, t ++ '(' :: rest = past ++ ch :: u ∧ isIdentChar ch = false ∧
      ∀ c, readText policy file line doc (.afterParams c) (t ++ '(' :: rest) =
        ((readText policy file line doc .outside u).1,
          .skipped c.line .badEnd :: (readText policy file line doc .outside u).2) := by
  -- A character that may not stand there ends the declaration.
  have hends : ∀ (c : Candidate) (ch : Char) (u : Text), ch ≠ ';' → ch ≠ '{' →
      (isBlank ch || isIdentChar ch) = false →
      readText policy file line doc (.afterParams c) (ch :: u) =
        ((readText policy file line doc .outside u).1,
          .skipped c.line .badEnd :: (readText policy file line doc .outside u).2) := by
    intro c ch u hsemi hbrace hother
    have hread : (State.afterParams c).read file doc ch =
        (.outside, some (.skipped c.line .badEnd)) := by
      rw [State.read, if_neg (by simp [hsemi, hbrace]), if_neg (by simp [hother])]
    rw [readText_cons (by simp), hread]
    rfl
  -- The first character that is neither blank nor part of a word ends it, at the latest the
  -- parenthesis.
  induction t with
  | nil =>
    exact ⟨[], '(', rest, rfl, by decide, fun c =>
      hends c '(' rest (by decide) (by decide) (by decide)⟩
  | cons ch t ih =>
    obtain ⟨past, x, u, hsplit, hx, hread⟩ := ih fun y hy => ht y (.tail ch hy)
    have hsemi : ch ≠ ';' := by
      rintro rfl
      exact absurd (ht ';' (.head t)) (by decide)
    have hbrace : ch ≠ '{' := by
      rintro rfl
      exact absurd (ht '{' (.head t)) (by decide)
    cases hword : isBlank ch || isIdentChar ch with
    | true =>
      refine ⟨ch :: past, x, u, by rw [List.cons_append, hsplit, List.cons_append], hx,
        fun c => ?_⟩
      have hstep : (State.afterParams c).read file doc ch = (.afterParams c, none) := by
        rw [State.read, if_neg (by simp [hsemi, hbrace]), if_pos hword]
      rw [List.cons_append, readText_step (by simp) hstep, hread]
    | false =>
      have hident : isIdentChar ch = false := (Bool.or_eq_false_iff.1 hword).2
      exact ⟨[], ch, t ++ '(' :: rest, rfl, hident, fun c => hends c ch _ hsemi hbrace hword⟩

end Scanner

end NativeBindings
