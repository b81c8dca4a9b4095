import Mathlib.Logic.Function.Basic
import NativeBindings.Proofs.Conditional.Nesting

/-!
# Standard inclusion

Standard conditional inclusion keeps of each section the first group whose condition is true, or the
last group when that has no condition and no other one is kept. `Block.kept` states this by
recursion over the nesting. The value of a condition that cannot be decided is taken from `guess`,
which gives one for each line of a source, so that every such condition has a value of its own.

The lines that stay are compared with the lines kept in three steps. A group that is not live keeps
no line (`Block.live_dead`), so nothing that is kept for some guess is missing
(`Block.kept_sublist`). For a line that stays there is a guess that keeps it, which is put together
along the sections around the line (`Block.exists_kept`); for this the directives have to start on
different lines. And when no condition is reported, what stays does not depend on the guess
(`Block.live_eq_kept`).
-/

namespace NativeBindings.Conditional

/-- The value of the test of a directive on the given line, where a guess decides what the symbols
leave open. -/
def Test.holds (symbols : SymbolSet) (guess : Nat → Bool) (line : Nat) (test : Test) : Bool :=
  (test.value? symbols).getD (guess line)

mutual

/-- The lines of a block that standard inclusion keeps. -/
def Block.kept (symbols : SymbolSet) (guess : Nat → Bool) : Block → List SourceLine
  | .nil => []
  | .line l rest => l :: rest.kept symbols guess
  | .other _ rest => rest.kept symbols guess
  | .conditional test w body groups rest =>
    (if test.holds symbols guess w.first.number then body.kept symbols guess
      else groups.kept symbols guess) ++ rest.kept symbols guess

/-- The lines that standard inclusion keeps of the end of a section, when it keeps no group in
front. -/
def Groups.kept (symbols : SymbolSet) (guess : Nat → Bool) : Groups → List SourceLine
  | .closing _ => []
  | .elif text w body groups =>
    if (Test.condition text).holds symbols guess w.first.number then body.kept symbols guess
    else groups.kept symbols guess
  | .otherwise _ body _ => body.kept symbols guess

end

mutual

/-- The tests of all sections of a block. -/
def Block.tests : Block → List Test
  | .nil => []
  | .line _ rest => rest.tests
  | .other _ rest => rest.tests
  | .conditional test _ body groups rest => test :: (body.tests ++ (groups.tests ++ rest.tests))

/-- The tests of the end of a section. -/
def Groups.tests : Groups → List Test
  | .closing _ => []
  | .elif text _ body groups => .condition text :: (body.tests ++ groups.tests)
  | .otherwise _ body _ => body.tests

end

variable {symbols : SymbolSet}

/-! ## What is not live -/

mutual

/-- No line of a block stays where text is not live. -/
theorem Block.live_dead : ∀ b : Block, (b.filtered symbols false).live = []
  | .nil => by rw [Block.filtered, Filtered.live_nothing]
  | .line l rest => by
    rw [Block.filtered, Filtered.live_append, rest.live_dead]
    rfl
  | .other w rest => by
    rw [Block.filtered, Filtered.live_append, rest.live_dead, w.live_filtered]
    rfl
  | .conditional test w body groups rest => by
    rw [Block.filtered]
    simp only [Filtered.live_append, Written.live_filtered, Bool.false_and, body.live_dead,
      groups.live_dead false _ rfl, rest.live_dead, List.append_nil]

/-- No line of the end of a section stays where the text around it is not live or a group in front
is taken. -/
theorem Groups.live_dead : ∀ (g : Groups) (outerLive taken : Bool), (outerLive && !taken) = false →
    (g.filtered symbols outerLive taken).live = []
  | .closing w, outerLive, taken, _ => by rw [Groups.filtered, w.live_filtered]
  | .elif text w body groups, outerLive, taken, h => by
    -- What keeps this group from being live keeps those behind it from it as well.
    have hgroups : (outerLive && !(taken || evaluate? symbols text == some true)) = false := by
      rw [Bool.not_or, ← Bool.and_assoc, h, Bool.false_and]
    rw [Groups.filtered, h, Bool.false_and]
    simp only [Filtered.live_append, Written.live_filtered, body.live_dead,
      groups.live_dead _ _ hgroups, List.append_nil]
  | .otherwise w body closing, outerLive, taken, h => by
    rw [Groups.filtered, h]
    simp only [Filtered.live_append, Written.live_filtered, body.live_dead, List.append_nil]

end

/-! ## One group and those behind it -/

/-- The lines that stay of a group with a condition of the given value and of the groups behind it,
where the text around the section is live and no group in front is taken. -/
def liveFrom (symbols : SymbolSet) (value : Option Bool) (body : Block) (groups : Groups) :
    List SourceLine :=
  (body.filtered symbols (value.getD true)).live ++
    (groups.filtered symbols true (value == some true)).live

theorem liveFrom_true (body : Block) (groups : Groups) :
    liveFrom symbols (some true) body groups = (body.filtered symbols true).live := by
  unfold liveFrom
  rw [groups.live_dead true _ rfl, List.append_nil]
  rfl

theorem liveFrom_false (body : Block) (groups : Groups) :
    liveFrom symbols (some false) body groups = (groups.filtered symbols true false).live := by
  unfold liveFrom
  rw [Option.getD_some, body.live_dead]
  rfl

theorem liveFrom_none (body : Block) (groups : Groups) :
    liveFrom symbols none body groups =
      (body.filtered symbols true).live ++ (groups.filtered symbols true false).live := rfl

/-- The lines that stay of a section in live text, and of the block behind it. -/
theorem Block.live_conditional (test : Test) (w : Written (.opens test)) (body : Block)
    (groups : Groups) (rest : Block) :
    ((Block.conditional test w body groups rest).filtered symbols true).live =
      liveFrom symbols (test.value? symbols) body groups ++ (rest.filtered symbols true).live := by
  unfold liveFrom
  rw [Block.filtered, Bool.true_and]
  simp only [Filtered.live_append, Written.live_filtered, List.nil_append, List.append_assoc]

/-- The lines that stay of the end of a section in live text, behind groups that are not taken. -/
theorem Groups.live_elif (text : Text) (w : Written (.elif text)) (body : Block)
    (groups : Groups) :
    ((Groups.elif text w body groups).filtered symbols true false).live =
      liveFrom symbols ((Test.condition text).value? symbols) body groups := by
  unfold liveFrom
  rw [Groups.filtered]
  simp only [Filtered.live_append, Written.live_filtered, List.nil_append, Bool.not_false,
    Bool.and_true, Bool.true_and, Bool.false_or]
  rfl

theorem Groups.live_otherwise (w : Written .otherwise) (body : Block) (closing : Written .closes) :
    ((Groups.otherwise w body closing).filtered symbols true false).live =
      (body.filtered symbols true).live := by
  rw [Groups.filtered]
  simp only [Filtered.live_append, Written.live_filtered, List.nil_append, List.append_nil,
    Bool.not_false, Bool.and_true]

/-! ## What is kept stays -/

/-- When what is kept of a group and of those behind it stays, so does what is kept of both. -/
theorem kept_sublist_liveFrom {guess : Nat → Bool} {body : Block} {groups : Groups}
    (hbody : (body.kept symbols guess).Sublist (body.filtered symbols true).live)
    (hgroups : (groups.kept symbols guess).Sublist (groups.filtered symbols true false).live)
    (line : Nat) (test : Test) :
    (if test.holds symbols guess line then body.kept symbols guess
      else groups.kept symbols guess).Sublist
        (liveFrom symbols (test.value? symbols) body groups) := by
  unfold Test.holds
  rcases test.value? symbols with _ | _ | _
  · -- Without a value both stay, and the guess keeps one of them.
    rw [liveFrom_none]
    split
    · exact hbody.trans (List.sublist_append_left _ _)
    · exact hgroups.trans (List.sublist_append_right _ _)
  -- With a value, only the one or the other stays, and the same is kept.
  · rw [liveFrom_false]
    exact hgroups
  · rw [liveFrom_true]
    exact hbody

mutual

/-- What standard inclusion keeps of a block stays, whatever the guess. -/
theorem Block.kept_sublist (guess : Nat → Bool) :
    ∀ b : Block, (b.kept symbols guess).Sublist (b.filtered symbols true).live
  | .nil => by
    rw [Block.kept]
    exact List.nil_sublist _
  | .line l rest => by
    rw [Block.kept, Block.filtered, Filtered.live_append]
    exact .cons_cons l (rest.kept_sublist guess)
  | .other w rest => by
    rw [Block.kept, Block.filtered, Filtered.live_append, w.live_filtered, List.nil_append]
    exact rest.kept_sublist guess
  | .conditional test w body groups rest => by
    rw [Block.kept, Block.live_conditional]
    exact (kept_sublist_liveFrom (body.kept_sublist guess) (groups.kept_sublist guess) _ _).append
      (rest.kept_sublist guess)

/-- What standard inclusion keeps of the end of a section stays, whatever the guess. -/
theorem Groups.kept_sublist (guess : Nat → Bool) :
    ∀ g : Groups, (g.kept symbols guess).Sublist (g.filtered symbols true false).live
  | .closing w => by
    rw [Groups.kept]
    exact List.nil_sublist _
  | .elif text w body groups => by
    rw [Groups.kept, Groups.live_elif]
    exact kept_sublist_liveFrom (body.kept_sublist guess) (groups.kept_sublist guess) _ _
  | .otherwise w body closing => by
    rw [Groups.kept, Groups.live_otherwise]
    exact body.kept_sublist guess

end

/-! ## What stays is kept for some guess -/

mutual

/-- What is kept of a block depends on the guesses for its own directives only. -/
theorem Block.kept_congr {guess guess' : Nat → Bool} :
    ∀ b : Block, (∀ n ∈ Item.directiveLines b.items, guess n = guess' n) →
      b.kept symbols guess = b.kept symbols guess'
  | .nil, _ => by rw [Block.kept, Block.kept]
  | .line l rest, h => by
    rw [Block.kept, Block.kept, rest.kept_congr h]
  | .other w rest, h => by
    rw [Block.items, Written.directiveLines_item] at h
    rw [Block.kept, Block.kept, rest.kept_congr fun n hn => h n (.tail _ hn)]
  | .conditional test w body groups rest, h => by
    rw [Block.items, Written.directiveLines_item, Item.directiveLines_append,
      Item.directiveLines_append] at h
    have hbody := body.kept_congr fun n hn => h n (.tail _ (List.mem_append_left _ hn))
    have hgroups := groups.kept_congr fun n hn =>
      h n (.tail _ (List.mem_append_right _ (List.mem_append_left _ hn)))
    have hrest := rest.kept_congr fun n hn =>
      h n (.tail _ (List.mem_append_right _ (List.mem_append_right _ hn)))
    rw [Block.kept, Block.kept, hbody, hgroups, hrest, Test.holds, Test.holds, h _ (.head _)]

/-- What is kept of the end of a section depends on the guesses for its own directives only. -/
theorem Groups.kept_congr {guess guess' : Nat → Bool} :
    ∀ g : Groups, (∀ n ∈ Item.directiveLines g.items, guess n = guess' n) →
      g.kept symbols guess = g.kept symbols guess'
  | .closing _, _ => by rw [Groups.kept, Groups.kept]
  | .elif text w body groups, h => by
    rw [Groups.items, Written.directiveLines_item, Item.directiveLines_append] at h
    have hbody := body.kept_congr fun n hn => h n (.tail _ (List.mem_append_left _ hn))
    have hgroups := groups.kept_congr fun n hn => h n (.tail _ (List.mem_append_right _ hn))
    rw [Groups.kept, Groups.kept, hbody, hgroups, Test.holds, Test.holds, h _ (.head _)]
  | .otherwise w body closing, h => by
    rw [Groups.items, Written.directiveLines_item, Item.directiveLines_append] at h
    rw [Groups.kept, Groups.kept,
      body.kept_congr fun n hn => h n (.tail _ (List.mem_append_left _ hn))]

end

/-- The guess for a test that cannot be decided is its value. -/
theorem Test.holds_update {test : Test} (htest : test.value? symbols = none) (guess : Nat → Bool)
    (line : Nat) (value : Bool) :
    test.holds symbols (Function.update guess line value) line = value := by
  unfold Test.holds
  rw [htest, Option.getD_none, Function.update_self]

/-- When a line that stays of a group or of those behind it is kept of them for some guess, it is
kept of both for some guess. The line of the test is not among those of their own directives, so the
guess for it is free. -/
theorem exists_kept_of_mem_liveFrom {body : Block} {groups : Groups} {line : Nat} {l : SourceLine}
    (hbody : line ∉ Item.directiveLines body.items)
    (hgroups : line ∉ Item.directiveLines groups.items)
    (ihbody : l ∈ (body.filtered symbols true).live → ∃ guess, l ∈ body.kept symbols guess)
    (ihgroups : l ∈ (groups.filtered symbols true false).live →
      ∃ guess, l ∈ groups.kept symbols guess) (test : Test)
    (h : l ∈ liveFrom symbols (test.value? symbols) body groups) :
    ∃ guess, l ∈ if test.holds symbols guess line then body.kept symbols guess
      else groups.kept symbols guess := by
  -- Another guess for the test changes none of those for other lines.
  have hfree : ∀ (guess : Nat → Bool) (value : Bool) {lines : List Nat}, line ∉ lines →
      ∀ n ∈ lines, Function.update guess line value n = guess n := by
    intro guess value lines hline n hn
    have hne : n ≠ line := by
      rintro rfl
      exact hline hn
    exact Function.update_of_ne hne value guess
  rcases hvalue : test.value? symbols with _ | _ | _
  · -- The guess for the test is the group that the line is in.
    rw [hvalue, liveFrom_none] at h
    rcases List.mem_append.1 h with h | h
    · obtain ⟨guess, hguess⟩ := ihbody h
      refine ⟨Function.update guess line true, ?_⟩
      rw [Test.holds_update hvalue, if_pos rfl, body.kept_congr (hfree guess true hbody)]
      exact hguess
    · obtain ⟨guess, hguess⟩ := ihgroups h
      refine ⟨Function.update guess line false, ?_⟩
      rw [Test.holds_update hvalue, if_neg Bool.false_ne_true,
        groups.kept_congr (hfree guess false hgroups)]
      exact hguess
  · -- A test with a value leaves no choice.
    rw [hvalue, liveFrom_false] at h
    obtain ⟨guess, hguess⟩ := ihgroups h
    exact ⟨guess, by rw [Test.holds, hvalue]; exact hguess⟩
  · rw [hvalue, liveFrom_true] at h
    obtain ⟨guess, hguess⟩ := ihbody h
    exact ⟨guess, by rw [Test.holds, hvalue]; exact hguess⟩

mutual

/-- A line of a block that stays is kept for some guess. -/
theorem Block.exists_kept {l : SourceLine} :
    ∀ b : Block, (Item.directiveLines b.items).Nodup → l ∈ (b.filtered symbols true).live →
      ∃ guess, l ∈ b.kept symbols guess
  | .nil, _, h => by
    rw [Block.filtered, Filtered.live_nothing] at h
    cases h
  | .line l' rest, hnodup, h => by
    rw [Block.filtered, Filtered.live_append] at h
    rcases List.mem_append.1 h with h | h
    · obtain rfl : l = l' := List.mem_singleton.1 h
      exact ⟨fun _ => true, by rw [Block.kept]; exact .head _⟩
    · obtain ⟨guess, hguess⟩ := rest.exists_kept hnodup h
      exact ⟨guess, by rw [Block.kept]; exact .tail _ hguess⟩
  | .other w rest, hnodup, h => by
    rw [Block.items, Written.directiveLines_item] at hnodup
    rw [Block.filtered, Filtered.live_append, w.live_filtered, List.nil_append] at h
    obtain ⟨guess, hguess⟩ := rest.exists_kept (List.nodup_cons.1 hnodup).2 h
    exact ⟨guess, by rw [Block.kept]; exact hguess⟩
  | .conditional test w body groups rest, hnodup, h => by
    rw [Block.items, Written.directiveLines_item, Item.directiveLines_append,
      Item.directiveLines_append] at hnodup
    -- The line of the test is none of the lines of the directives in its section.
    obtain ⟨hline, hnodup⟩ := List.nodup_cons.1 hnodup
    obtain ⟨hbody, hnodup, -⟩ := List.nodup_append.1 hnodup
    obtain ⟨hgroups, hrest, -⟩ := List.nodup_append.1 hnodup
    simp only [List.mem_append, not_or] at hline
    rw [Block.live_conditional] at h
    rcases List.mem_append.1 h with h | h
    · obtain ⟨guess, hguess⟩ := exists_kept_of_mem_liveFrom hline.1 hline.2.1
        (body.exists_kept hbody) (groups.exists_kept hgroups) test h
      exact ⟨guess, by rw [Block.kept]; exact List.mem_append_left _ hguess⟩
    · obtain ⟨guess, hguess⟩ := rest.exists_kept hrest h
      exact ⟨guess, by rw [Block.kept]; exact List.mem_append_right _ hguess⟩

/-- A line of the end of a section that stays is kept for some guess. -/
theorem Groups.exists_kept {l : SourceLine} :
    ∀ g : Groups, (Item.directiveLines g.items).Nodup → l ∈ (g.filtered symbols true false).live →
      ∃ guess, l ∈ g.kept symbols guess
  | .closing w, _, h => by
    rw [Groups.filtered, w.live_filtered] at h
    cases h
  | .elif text w body groups, hnodup, h => by
    rw [Groups.items, Written.directiveLines_item, Item.directiveLines_append] at hnodup
    obtain ⟨hline, hnodup⟩ := List.nodup_cons.1 hnodup
    obtain ⟨hbody, hgroups, -⟩ := List.nodup_append.1 hnodup
    simp only [List.mem_append, not_or] at hline
    rw [Groups.live_elif] at h
    obtain ⟨guess, hguess⟩ := exists_kept_of_mem_liveFrom hline.1 hline.2
      (body.exists_kept hbody) (groups.exists_kept hgroups) (.condition text) h
    exact ⟨guess, by rw [Groups.kept]; exact hguess⟩
  | .otherwise w body closing, hnodup, h => by
    rw [Groups.items, Written.directiveLines_item, Item.directiveLines_append] at hnodup
    -- The last group has no condition, so any guess that keeps the line of it will do.
    have hbody := (List.nodup_append.1 (List.nodup_cons.1 hnodup).2).1
    rw [Groups.live_otherwise] at h
    obtain ⟨guess, hguess⟩ := body.exists_kept hbody h
    exact ⟨guess, by rw [Groups.kept]; exact hguess⟩

end

/-! ## Without a report nothing depends on the guess -/

/-- A directive is reported when it says so. -/
theorem Written.undecided_filtered {d : Directive} (w : Written d) (reported : Bool) :
    (w.filtered reported).undecided = [] ↔ reported = false := by
  unfold Written.filtered directiveResult
  cases reported <;> simp

/-- When what stays of a group and of those behind it does not depend on the guess and the test in
front is decided, then neither does what stays of both. -/
theorem liveFrom_eq_kept {body : Block} {groups : Groups} {guess : Nat → Bool} {test : Test}
    (htest : (test.value? symbols).isNone = false)
    (hbody : test.value? symbols = some true →
      (body.filtered symbols true).live = body.kept symbols guess)
    (hgroups : test.value? symbols = some false →
      (groups.filtered symbols true false).live = groups.kept symbols guess) (line : Nat) :
    liveFrom symbols (test.value? symbols) body groups =
      if test.holds symbols guess line then body.kept symbols guess
      else groups.kept symbols guess := by
  unfold Test.holds
  rcases hvalue : test.value? symbols with _ | _ | _
  · rw [hvalue] at htest
    cases htest
  · rw [liveFrom_false]
    exact hgroups hvalue
  · rw [liveFrom_true]
    exact hbody hvalue

mutual

/-- When no condition of a block is reported, the lines that stay are those kept for every guess. -/
theorem Block.live_eq_kept (guess : Nat → Bool) :
    ∀ b : Block, (b.filtered symbols true).undecided = [] →
      (b.filtered symbols true).live = b.kept symbols guess
  | .nil, _ => by
    rw [Block.filtered, Block.kept]
    rfl
  | .line l rest, h => by
    rw [Block.filtered] at h ⊢
    rw [Filtered.live_append, rest.live_eq_kept guess h, Block.kept]
    rfl
  | .other w rest, h => by
    rw [Block.filtered] at h ⊢
    obtain ⟨-, hrest⟩ := List.append_eq_nil_iff.1 h
    rw [Filtered.live_append, w.live_filtered, rest.live_eq_kept guess hrest, Block.kept]
    rfl
  | .conditional test w body groups rest, h => by
    rw [Block.live_conditional, Block.kept]
    rw [Block.filtered] at h
    obtain ⟨htest, h⟩ := List.append_eq_nil_iff.1 h
    obtain ⟨hbody, h⟩ := List.append_eq_nil_iff.1 h
    obtain ⟨hgroups, hrest⟩ := List.append_eq_nil_iff.1 h
    rw [Written.undecided_filtered, Bool.and_true] at htest
    rw [rest.live_eq_kept guess hrest, liveFrom_eq_kept htest]
    · intro hvalue
      rw [hvalue] at hbody
      exact body.live_eq_kept guess hbody
    · intro hvalue
      rw [hvalue] at hgroups
      exact groups.live_eq_kept guess hgroups

/-- When no condition of the end of a section is reported, the lines that stay are those kept for
every guess. -/
theorem Groups.live_eq_kept (guess : Nat → Bool) :
    ∀ g : Groups, (g.filtered symbols true false).undecided = [] →
      (g.filtered symbols true false).live = g.kept symbols guess
  | .closing w, _ => by
    rw [Groups.filtered, Groups.kept, w.live_filtered]
  | .elif text w body groups, h => by
    have hvalue? : evaluate? symbols text = (Test.condition text).value? symbols := rfl
    rw [Groups.live_elif, Groups.kept]
    rw [Groups.filtered, hvalue?] at h
    obtain ⟨htest, h⟩ := List.append_eq_nil_iff.1 h
    obtain ⟨hbody, hgroups⟩ := List.append_eq_nil_iff.1 h
    rw [Written.undecided_filtered, Bool.and_true, Bool.not_false, Bool.and_true] at htest
    apply liveFrom_eq_kept htest
    · intro hvalue
      rw [hvalue] at hbody
      exact body.live_eq_kept guess hbody
    · intro hvalue
      rw [hvalue] at hgroups
      exact groups.live_eq_kept guess hgroups
  | .otherwise w body closing, h => by
    rw [Groups.live_otherwise, Groups.kept]
    rw [Groups.filtered] at h
    obtain ⟨-, h⟩ := List.append_eq_nil_iff.1 h
    exact body.live_eq_kept guess (List.append_eq_nil_iff.1 h).1

end

mutual

/-- When every test of a block can be decided, none is reported. -/
theorem Block.undecided_eq_nil :
    ∀ (b : Block) (live : Bool), (∀ t ∈ b.tests, (t.value? symbols).isSome) →
      (b.filtered symbols live).undecided = []
  | .nil, _, _ => by rw [Block.filtered, Filtered.undecided_nothing]
  | .line l rest, live, h => by
    rw [Block.tests] at h
    rw [Block.filtered, Filtered.undecided_append, rest.undecided_eq_nil live h]
    rfl
  | .other w rest, live, h => by
    rw [Block.tests] at h
    rw [Block.filtered, Filtered.undecided_append, rest.undecided_eq_nil live h,
      (w.undecided_filtered false).2 rfl]
    rfl
  | .conditional test w body groups rest, live, h => by
    rw [Block.tests] at h
    have hbody := fun live => body.undecided_eq_nil live fun t ht =>
      h t (.tail _ (List.mem_append_left _ ht))
    have hgroups := fun live taken => groups.undecided_eq_nil live taken fun t ht =>
      h t (.tail _ (List.mem_append_right _ (List.mem_append_left _ ht)))
    have hrest := rest.undecided_eq_nil live fun t ht =>
      h t (.tail _ (List.mem_append_right _ (List.mem_append_right _ ht)))
    -- A test with a value is not reported, in live text or not.
    have htest : ((test.value? symbols).isNone && live) = false := by
      rw [Option.isNone_eq_false_iff.2 (h test (.head _)), Bool.false_and]
    rw [Block.filtered]
    simp only [Filtered.undecided_append, (w.undecided_filtered _).2 htest, hbody, hgroups, hrest,
      List.append_nil]

/-- When every test of the end of a section can be decided, none is reported. -/
theorem Groups.undecided_eq_nil :
    ∀ (g : Groups) (outerLive taken : Bool), (∀ t ∈ g.tests, (t.value? symbols).isSome) →
      (g.filtered symbols outerLive taken).undecided = []
  | .closing w, _, _, _ => by
    rw [Groups.filtered, (w.undecided_filtered false).2 rfl]
  | .elif text w body groups, outerLive, taken, h => by
    rw [Groups.tests] at h
    have hbody := fun live => body.undecided_eq_nil live fun t ht =>
      h t (.tail _ (List.mem_append_left _ ht))
    have hgroups := fun live taken => groups.undecided_eq_nil live taken fun t ht =>
      h t (.tail _ (List.mem_append_right _ ht))
    -- A condition with a value is not reported, whether a group in front is taken or not.
    have hvalue : (evaluate? symbols text).isNone = false :=
      Option.isNone_eq_false_iff.2 (h (.condition text) (.head _))
    rw [Groups.filtered, hvalue, Bool.false_and, Bool.false_and]
    simp only [Filtered.undecided_append, (w.undecided_filtered false).2 rfl, hbody, hgroups,
      List.append_nil]
  | .otherwise w body closing, outerLive, taken, h => by
    rw [Groups.tests] at h
    rw [Groups.filtered]
    simp only [Filtered.undecided_append, (w.undecided_filtered false).2 rfl,
      (closing.undecided_filtered false).2 rfl, body.undecided_eq_nil _ h, List.append_nil]

end

/-! ## The lines that stay -/

/-- An accepted source is a block. A line of it stays exactly when standard inclusion keeps it for
some guess about the conditions that cannot be decided, and all lines that are kept for one guess
stay together and in order. When all conditions can be decided, the lines that stay are those that
standard inclusion keeps. -/
theorem stays_iff_exists_kept {source : Text} {f : Filtered} (h : filter symbols source = .ok f) :
    (∃ b : Block, b.items = Item.ofText source) ∧
    ∀ b : Block, b.items = Item.ofText source →
      (∀ l, ⟨l, true⟩ ∈ f.lines ↔ ∃ guess, l ∈ b.kept symbols guess) ∧
      (∀ guess, (b.kept symbols guess).Sublist f.live) ∧
      ((∀ t ∈ b.tests, (t.value? symbols).isSome) → ∀ guess, f.live = b.kept symbols guess) := by
  unfold filter at h
  rw [filterItems_eq_ok_iff] at h
  refine ⟨(isBlock_iff symbols).2 ⟨f, h⟩, ?_⟩
  intro b hb
  rw [← hb] at h
  -- A run over the parts of the block makes of them what the block says.
  obtain ⟨-, rfl⟩ := h.unique (b.reads symbols [])
  refine ⟨fun l => ?_, fun guess => b.kept_sublist guess, fun htests guess => ?_⟩
  · rw [← Filtered.mem_live]
    constructor
    -- Directives start on lines of their own, so each can be given a guess of its own.
    · have hnodup := Item.nodup_directiveLines_ofText source
      rw [← hb] at hnodup
      exact b.exists_kept hnodup
    · rintro ⟨guess, hguess⟩
      exact (b.kept_sublist guess).subset hguess
  · exact b.live_eq_kept guess (b.undecided_eq_nil true htests)

/-- Two of the groups of a section have conditions that cannot be decided, and one of them holds a
section of its own. Each group of the outer section is kept for some guess; the inner section keeps
its first group alone, whatever the guess. -/
theorem undecided_groups_stay :
    ∃ f b, filter (.ofList ["A"]) ("#if V > 3\n#ifdef A\na;\n#else\nb;\n#endif\n" ++
        "#elif V > 1\nc;\n#else\nd;\n#endif\n").toList = .ok f ∧
      f.live = [⟨3, "a;".toList⟩, ⟨8, "c;".toList⟩, ⟨10, "d;".toList⟩] ∧
      (∃ guess, ⟨3, "a;".toList⟩ ∈ Block.kept (.ofList ["A"]) guess b) ∧
      (∃ guess, ⟨8, "c;".toList⟩ ∈ Block.kept (.ofList ["A"]) guess b) ∧
      ∀ guess, ⟨5, "b;".toList⟩ ∉ Block.kept (.ofList ["A"]) guess b := by
  have h : filter (.ofList ["A"]) ("#if V > 3\n#ifdef A\na;\n#else\nb;\n#endif\n" ++
        "#elif V > 1\nc;\n#else\nd;\n#endif\n").toList =
      .ok ⟨[⟨⟨1, "#if V > 3".toList⟩, false⟩, ⟨⟨2, "#ifdef A".toList⟩, false⟩,
        ⟨⟨3, "a;".toList⟩, true⟩, ⟨⟨4, "#else".toList⟩, false⟩, ⟨⟨5, "b;".toList⟩, false⟩,
        ⟨⟨6, "#endif".toList⟩, false⟩, ⟨⟨7, "#elif V > 1".toList⟩, false⟩,
        ⟨⟨8, "c;".toList⟩, true⟩, ⟨⟨9, "#else".toList⟩, false⟩, ⟨⟨10, "d;".toList⟩, true⟩,
        ⟨⟨11, "#endif".toList⟩, false⟩],
        [⟨1, "if V > 3".toList⟩, ⟨7, "elif V > 1".toList⟩]⟩ := by decide +kernel
  obtain ⟨⟨b, hb⟩, hall⟩ := stays_iff_exists_kept h
  obtain ⟨hiff, -, -⟩ := hall b hb
  refine ⟨_, b, h, rfl, (hiff _).1 (by simp), (hiff _).1 (by simp), ?_⟩
  -- A line of a group that no assignment takes would be live if one did.
  intro guess hguess
  have hlive := (hiff _).2 ⟨guess, hguess⟩
  revert hlive
  decide +kernel

end NativeBindings.Conditional
