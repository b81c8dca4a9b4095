import NativeBindings.Proofs.Conditional.Inclusion

/-!
# Reported conditions

`Block.occurrences` lists the conditions of a block as they are written, each with the tests that
stand around it and in front of it; symbols do not matter to it. For given symbols a group is live
when no group in front of it in its section is known to be true, its own test is not known to be
false, and the group around its section is live. The conditions that are reported are those that
cannot be decided, lie in a live group and have no group in front that is known to be true, and the
lines that stay are those of live groups (`Block.filtered_eq`).

Guesses matter to what standard inclusion keeps at reported conditions only
(`Block.kept_congr_of_undecided`): it never asks for the value of another one that cannot be
decided. So without a report the lines that stay are those kept for every guess
(`filter_reports`).
-/

namespace NativeBindings.Conditional

/-- A group of a section, by the tests that decide whether it is live. -/
structure Branch where
  /-- The tests of the groups in front of it. -/
  earlier : List Test
  /-- Its own test; the group behind `else` has none. -/
  own : Option Test

/-- A condition as it stands in a source. -/
structure Occurrence where
  /-- The first line of its directive. -/
  line : Nat
  /-- The text of its directive. -/
  text : Text
  /-- The condition. -/
  test : Test
  /-- The groups that its section lies in, innermost first. -/
  around : List Branch
  /-- The tests of the groups in front of its own in its section. -/
  earlier : List Test

mutual

/-- The conditions of a block that lies in the given groups, in order. -/
def Block.occurrences (around : List Branch) : Block → List Occurrence
  | .nil => []
  | .line _ rest => rest.occurrences around
  | .other _ rest => rest.occurrences around
  | .conditional test w body groups rest =>
    ⟨w.first.number, w.text, test, around, []⟩ ::
      (body.occurrences (⟨[], some test⟩ :: around) ++
        (groups.occurrences around [test] ++ rest.occurrences around))

/-- The conditions of the end of a section, behind groups with the given tests. -/
def Groups.occurrences (around : List Branch) (earlier : List Test) : Groups → List Occurrence
  | .closing _ => []
  | .elif text w body groups =>
    ⟨w.first.number, w.text, .condition text, around, earlier⟩ ::
      (body.occurrences (⟨earlier, some (.condition text)⟩ :: around) ++
        groups.occurrences around (earlier ++ [.condition text]))
  | .otherwise _ body _ => body.occurrences (⟨earlier, none⟩ :: around)

end

mutual

/-- The lines of a block that lies in the given groups, each with the groups around it. -/
def Block.placed (around : List Branch) : Block → List (SourceLine × List Branch)
  | .nil => []
  | .line l rest => (l, around) :: rest.placed around
  | .other _ rest => rest.placed around
  | .conditional test _ body groups rest =>
    body.placed (⟨[], some test⟩ :: around) ++ (groups.placed around [test] ++ rest.placed around)

/-- The lines of the end of a section, behind groups with the given tests. -/
def Groups.placed (around : List Branch) (earlier : List Test) :
    Groups → List (SourceLine × List Branch)
  | .closing _ => []
  | .elif text _ body groups =>
    body.placed (⟨earlier, some (.condition text)⟩ :: around) ++
      groups.placed around (earlier ++ [.condition text])
  | .otherwise _ body _ => body.placed (⟨earlier, none⟩ :: around)

end

/-! ## Live groups -/

/-- One of the tests is known to be true. -/
def anyTrue (symbols : SymbolSet) (tests : List Test) : Bool :=
  tests.any fun t => t.value? symbols == some true

/-- No group in front is known to be true, and the group itself is not known to be false. -/
def Branch.mayHold (symbols : SymbolSet) (g : Branch) : Bool :=
  !anyTrue symbols g.earlier && g.own.all fun t => t.value? symbols != some false

/-- The innermost of the groups is live when each of them may hold. -/
def liveIn (symbols : SymbolSet) (around : List Branch) : Bool :=
  around.all fun g => g.mayHold symbols

/-- The condition cannot be decided, its section lies in a live group, and no group in front in the
section is known to be true. -/
def Occurrence.isReported (symbols : SymbolSet) (o : Occurrence) : Bool :=
  (o.test.value? symbols).isNone && liveIn symbols o.around && !anyTrue symbols o.earlier

/-- The report of a condition. -/
def Occurrence.undecided (o : Occurrence) : Undecided := ⟨o.line, o.text⟩

/-- The conditions among the given ones that are reported. -/
def reported (symbols : SymbolSet) (os : List Occurrence) : List Undecided :=
  (os.filter (·.isReported symbols)).map (·.undecided)

/-- The lines among the given ones that lie in live groups. -/
def liveLines (symbols : SymbolSet) (ls : List (SourceLine × List Branch)) : List SourceLine :=
  (ls.filter fun l => liveIn symbols l.2).map (·.1)

variable {symbols : SymbolSet}

@[simp] theorem reported_append (os os' : List Occurrence) :
    reported symbols (os ++ os') = reported symbols os ++ reported symbols os' := by
  unfold reported
  rw [List.filter_append, List.map_append]

@[simp] theorem liveLines_append (ls ls' : List (SourceLine × List Branch)) :
    liveLines symbols (ls ++ ls') = liveLines symbols ls ++ liveLines symbols ls' := by
  unfold liveLines
  rw [List.filter_append, List.map_append]

/-- A condition is reported when its directive says so. -/
theorem reported_cons {d : Directive} (w : Written d) (test : Test) (around : List Branch)
    (earlier : List Test) (os : List Occurrence) :
    reported symbols (⟨w.first.number, w.text, test, around, earlier⟩ :: os) =
      (w.filtered ((test.value? symbols).isNone && liveIn symbols around &&
        !anyTrue symbols earlier)).undecided ++ reported symbols os := by
  unfold reported Written.filtered directiveResult
  rw [List.filter_cons]
  unfold Occurrence.isReported
  split <;> rfl

/-- A line stays when it lies in a live group. -/
theorem liveLines_cons (l : SourceLine) (around : List Branch)
    (ls : List (SourceLine × List Branch)) :
    liveLines symbols ((l, around) :: ls) =
      (⟨[⟨l, liveIn symbols around⟩], []⟩ : Filtered).live ++ liveLines symbols ls := by
  unfold liveLines Filtered.live
  rw [List.filter_cons]
  cases liveIn symbols around <;> rfl

/-- A value is not known to be false when it is true or not known. -/
theorem ne_some_false (value : Option Bool) : (value != some false) = value.getD true := by
  rcases value with _ | _ | _ <;> rfl

/-- A group with a test is live. -/
theorem liveIn_cons_some (earlier : List Test) (test : Test) (around : List Branch) :
    liveIn symbols (⟨earlier, some test⟩ :: around) =
      (liveIn symbols around && !anyTrue symbols earlier &&
        (test.value? symbols).getD true) := by
  unfold liveIn
  rw [List.all_cons, Bool.and_comm, Bool.and_assoc, ← ne_some_false]
  rfl

/-- The group behind `else` is live. -/
theorem liveIn_cons_none (earlier : List Test) (around : List Branch) :
    liveIn symbols (⟨earlier, none⟩ :: around) =
      (liveIn symbols around && !anyTrue symbols earlier) := by
  unfold liveIn
  rw [List.all_cons, Bool.and_comm]
  unfold Branch.mayHold
  rw [Option.all_none, Bool.and_true]

/-- A group in front of others is known to be true or one of those is. -/
theorem anyTrue_concat (tests : List Test) (test : Test) :
    anyTrue symbols (tests ++ [test]) =
      (anyTrue symbols tests || test.value? symbols == some true) := by
  unfold anyTrue
  rw [List.any_append, List.any_cons, List.any_nil, Bool.or_false]

mutual

/-- The conditions of a block that are reported are those that cannot be decided, in live groups
and behind no group that is known to be true; the lines that stay are those in live groups. -/
theorem Block.filtered_eq : ∀ (b : Block) (around : List Branch),
    (b.filtered symbols (liveIn symbols around)).undecided =
        reported symbols (b.occurrences around) ∧
      (b.filtered symbols (liveIn symbols around)).live = liveLines symbols (b.placed around)
  | .nil, _ => by
    rw [Block.filtered, Block.occurrences, Block.placed]
    exact ⟨rfl, rfl⟩
  | .line l rest, around => by
    obtain ⟨hrest, hrest'⟩ := rest.filtered_eq around
    rw [Block.filtered, Block.occurrences, Block.placed, Filtered.undecided_append,
      Filtered.live_append, liveLines_cons, hrest, hrest']
    exact ⟨rfl, rfl⟩
  | .other w rest, around => by
    obtain ⟨hrest, hrest'⟩ := rest.filtered_eq around
    rw [Block.filtered, Block.occurrences, Block.placed, Filtered.undecided_append,
      Filtered.live_append, (w.undecided_filtered false).2 rfl, w.live_filtered, hrest, hrest']
    exact ⟨rfl, rfl⟩
  | .conditional test w body groups rest, around => by
    obtain ⟨hbody, hbody'⟩ := body.filtered_eq (⟨[], some test⟩ :: around)
    obtain ⟨hgroups, hgroups'⟩ := groups.filtered_eq around [test]
    obtain ⟨hrest, hrest'⟩ := rest.filtered_eq around
    -- No group stands in front of the first one, and that one alone in front of the others.
    have hnone : anyTrue symbols [] = false := rfl
    have hone : anyTrue symbols [test] = (test.value? symbols == some true) := Bool.or_false _
    rw [liveIn_cons_some, hnone, Bool.not_false, Bool.and_true] at hbody hbody'
    rw [hone] at hgroups hgroups'
    rw [Block.filtered, Block.occurrences, Block.placed, reported_cons, hnone, Bool.not_false,
      Bool.and_true]
    simp only [Filtered.undecided_append, Filtered.live_append, Written.live_filtered,
      reported_append, liveLines_append, hbody, hbody', hgroups, hgroups', hrest, hrest',
      List.nil_append, and_self]

/-- The same for the end of a section, behind groups with the given tests. -/
theorem Groups.filtered_eq : ∀ (g : Groups) (around : List Branch) (earlier : List Test),
    (g.filtered symbols (liveIn symbols around) (anyTrue symbols earlier)).undecided =
        reported symbols (g.occurrences around earlier) ∧
      (g.filtered symbols (liveIn symbols around) (anyTrue symbols earlier)).live =
        liveLines symbols (g.placed around earlier)
  | .closing w, _, _ => by
    rw [Groups.filtered, Groups.occurrences, Groups.placed, (w.undecided_filtered false).2 rfl,
      w.live_filtered]
    exact ⟨rfl, rfl⟩
  | .elif text w body groups, around, earlier => by
    have hvalue? : evaluate? symbols text = (Test.condition text).value? symbols := rfl
    obtain ⟨hbody, hbody'⟩ := body.filtered_eq (⟨earlier, some (.condition text)⟩ :: around)
    obtain ⟨hgroups, hgroups'⟩ := groups.filtered_eq around (earlier ++ [.condition text])
    rw [liveIn_cons_some] at hbody hbody'
    rw [anyTrue_concat] at hgroups hgroups'
    rw [Groups.filtered, Groups.occurrences, Groups.placed, reported_cons, hvalue?]
    simp only [Filtered.undecided_append, Filtered.live_append, Written.live_filtered,
      reported_append, liveLines_append, hbody, hbody', hgroups, hgroups', List.nil_append,
      and_self]
  | .otherwise w body closing, around, earlier => by
    obtain ⟨hbody, hbody'⟩ := body.filtered_eq (⟨earlier, none⟩ :: around)
    rw [liveIn_cons_none] at hbody hbody'
    rw [Groups.filtered, Groups.occurrences, Groups.placed]
    simp only [Filtered.undecided_append, Filtered.live_append, Written.live_filtered,
      (w.undecided_filtered false).2 rfl, (closing.undecided_filtered false).2 rfl, hbody, hbody',
      List.nil_append, List.append_nil, and_self]

end

/-! ## All conditions are listed -/

/-- The condition of a directive. -/
def Directive.test? : Directive → Option Test
  | .opens test => some test
  | .elif text => some (.condition text)
  | .otherwise | .closes | .other => none

/-- The condition of a part of a source, with the first line and the text of its directive. -/
def Item.condition? : Item → Option (Nat × Text × Test)
  | .ordinary _ => none
  | .directive first _ text =>
    (Directive.ofText text).test?.map fun test => (first.number, text, test)

/-- A condition without what stands around it. -/
def Occurrence.condition (o : Occurrence) : Nat × Text × Test := (o.line, o.text, o.test)

/-- A directive has the condition that it is written with. -/
theorem Written.condition?_item {d : Directive} (w : Written d) :
    w.item.condition? = d.test?.map fun test => (w.first.number, w.text, test) := by
  show (Directive.ofText w.text).test?.map _ = _
  rw [w.ofText_text]

mutual

/-- The conditions of a block are those of its directives, in order. -/
theorem Block.map_occurrences : ∀ (b : Block) (around : List Branch),
    (b.occurrences around).map (·.condition) = b.items.filterMap Item.condition?
  | .nil, _ => by rw [Block.occurrences, Block.items, List.map_nil, List.filterMap_nil]
  | .line l rest, around => by
    rw [Block.occurrences, Block.items, List.filterMap_cons_none rfl, rest.map_occurrences around]
  | .other w rest, around => by
    rw [Block.occurrences, Block.items, List.filterMap_cons_none w.condition?_item,
      rest.map_occurrences around]
  | .conditional test w body groups rest, around => by
    rw [Block.occurrences, Block.items, List.filterMap_cons_some w.condition?_item]
    simp only [List.map_cons, List.map_append, List.filterMap_append, body.map_occurrences,
      groups.map_occurrences, rest.map_occurrences]
    rfl

/-- The conditions of the end of a section are those of its directives, in order. -/
theorem Groups.map_occurrences : ∀ (g : Groups) (around : List Branch) (earlier : List Test),
    (g.occurrences around earlier).map (·.condition) = g.items.filterMap Item.condition?
  | .closing w, _, _ => by
    rw [Groups.occurrences, Groups.items, List.filterMap_cons_none w.condition?_item,
      List.map_nil, List.filterMap_nil]
  | .elif text w body groups, around, earlier => by
    rw [Groups.occurrences, Groups.items, List.filterMap_cons_some w.condition?_item]
    simp only [List.map_cons, List.map_append, List.filterMap_append, body.map_occurrences,
      groups.map_occurrences]
    rfl
  | .otherwise w body closing, around, earlier => by
    rw [Groups.occurrences, Groups.items, List.filterMap_cons_none w.condition?_item,
      List.filterMap_append, List.filterMap_cons_none closing.condition?_item,
      body.map_occurrences, List.filterMap_nil, List.append_nil]

end

/-! ## Guesses for reported conditions -/

/-- What is kept of a group and of those behind it is the same for two guesses when both give the
test one value, and when what is kept of the group and of those behind it is the same wherever the
test leaves them open. -/
theorem kept_congr_of_test {guess guess' : Nat → Bool} {test : Test} {line : Nat} {body : Block}
    {groups : Groups} (htest : test.value? symbols = none → guess line = guess' line)
    (hbody : (test.value? symbols).getD true = true →
      body.kept symbols guess = body.kept symbols guess')
    (hgroups : (test.value? symbols == some true) = false →
      groups.kept symbols guess = groups.kept symbols guess') :
    (if test.holds symbols guess line then body.kept symbols guess
      else groups.kept symbols guess) =
      if test.holds symbols guess' line then body.kept symbols guess'
      else groups.kept symbols guess' := by
  unfold Test.holds
  rcases hvalue : test.value? symbols with _ | _ | _
  · rw [hvalue] at hbody hgroups
    rw [hbody rfl, hgroups rfl, htest hvalue]
  · rw [hvalue] at hgroups
    exact hgroups rfl
  · rw [hvalue] at hbody
    exact hbody rfl

/-- A directive whose condition is reported is among the reports. -/
theorem Written.mem_undecided_filtered {d : Directive} (w : Written d) {report : Bool}
    (h : report = true) : ⟨w.first.number, w.text⟩ ∈ (w.filtered report).undecided := by
  subst h
  exact .head _

mutual

/-- What is kept of a block depends on the guesses for its reported conditions only. -/
theorem Block.kept_congr_of_undecided {guess guess' : Nat → Bool} : ∀ b : Block,
    (∀ u ∈ (b.filtered symbols true).undecided, guess u.line = guess' u.line) →
      b.kept symbols guess = b.kept symbols guess'
  | .nil, _ => by rw [Block.kept, Block.kept]
  | .line l rest, h => by
    rw [Block.kept, Block.kept, rest.kept_congr_of_undecided h]
  | .other w rest, h => by
    rw [Block.filtered, Filtered.undecided_append, List.forall_mem_append] at h
    rw [Block.kept, Block.kept, rest.kept_congr_of_undecided h.2]
  | .conditional test w body groups rest, h => by
    rw [Block.filtered] at h
    simp only [Filtered.undecided_append, List.forall_mem_append, Bool.and_true,
      Bool.true_and] at h
    obtain ⟨htest, hbody, hgroups, hrest⟩ := h
    rw [Block.kept, Block.kept, rest.kept_congr_of_undecided hrest]
    congr 1
    apply kept_congr_of_test
    · intro hvalue
      exact htest _ (w.mem_undecided_filtered (by rw [hvalue]; rfl))
    -- A group that is asked about is live, so its own reports are among those of the block.
    · intro hlive
      rw [hlive] at hbody
      exact body.kept_congr_of_undecided hbody
    · intro htaken
      rw [htaken] at hgroups
      exact groups.kept_congr_of_undecided hgroups

/-- What is kept of the end of a section depends on the guesses for its reported conditions
only. -/
theorem Groups.kept_congr_of_undecided {guess guess' : Nat → Bool} : ∀ g : Groups,
    (∀ u ∈ (g.filtered symbols true false).undecided, guess u.line = guess' u.line) →
      g.kept symbols guess = g.kept symbols guess'
  | .closing _, _ => by rw [Groups.kept, Groups.kept]
  | .elif text w body groups, h => by
    have hvalue? : evaluate? symbols text = (Test.condition text).value? symbols := rfl
    rw [Groups.filtered, hvalue?] at h
    simp only [Filtered.undecided_append, List.forall_mem_append, Bool.not_false, Bool.and_true,
      Bool.true_and, Bool.false_or] at h
    obtain ⟨htest, hbody, hgroups⟩ := h
    rw [Groups.kept, Groups.kept]
    apply kept_congr_of_test
    · intro hvalue
      exact htest _ (w.mem_undecided_filtered (by rw [hvalue]; rfl))
    · intro hlive
      rw [hlive] at hbody
      exact body.kept_congr_of_undecided hbody
    · intro htaken
      rw [htaken] at hgroups
      exact groups.kept_congr_of_undecided hgroups
  | .otherwise w body closing, h => by
    rw [Groups.filtered] at h
    simp only [Filtered.undecided_append, List.forall_mem_append, Bool.not_false,
      Bool.and_true] at h
    rw [Groups.kept, Groups.kept, body.kept_congr_of_undecided h.2.1]

end

/-! ## The reports of a source -/

/-- An accepted source is a block, whose conditions are those of the directives of the source. The
lines that stay are those in live groups. The conditions that are reported are, in order, those
that cannot be decided, whose section lies in a live group and that follow no group known to be
true in it. Standard inclusion keeps the same lines for any two guesses that agree on the reported
conditions; so without a report the lines that stay are those that it keeps for every guess. -/
theorem filter_reports {source : Text} {f : Filtered} (h : filter symbols source = .ok f) :
    (∃ b : Block, b.items = Item.ofText source) ∧
    ∀ b : Block, b.items = Item.ofText source →
      (b.occurrences []).map (·.condition) = (Item.ofText source).filterMap Item.condition? ∧
      f.live = liveLines symbols (b.placed []) ∧
      f.undecided = reported symbols (b.occurrences []) ∧
      (∀ guess guess' : Nat → Bool, (∀ u ∈ f.undecided, guess u.line = guess' u.line) →
        b.kept symbols guess = b.kept symbols guess') ∧
      (f.undecided = [] → ∀ guess, f.live = b.kept symbols guess) := by
  unfold filter at h
  rw [filterItems_eq_ok_iff] at h
  refine ⟨(isBlock_iff symbols).2 ⟨f, h⟩, fun b hb => ?_⟩
  rw [← hb] at h ⊢
  -- A run over the parts of the block makes of them what the block says.
  obtain ⟨-, rfl⟩ := h.unique (b.reads symbols [])
  obtain ⟨hundecided, hlive⟩ : (b.filtered symbols true).undecided =
      reported symbols (b.occurrences []) ∧
      (b.filtered symbols true).live = liveLines symbols (b.placed []) := b.filtered_eq []
  exact ⟨b.map_occurrences [], hlive, hundecided, fun guess guess' => b.kept_congr_of_undecided,
    fun hnone guess => b.live_eq_kept guess hnone⟩

/-- Five conditions, two of which are reported: the one behind a group known to be true and the one
in a group that is not live are not. What is kept depends on the guesses for the two alone. -/
theorem filter_reports_two :
    ∃ f b, filter (.ofList ["A"])
        ("#ifdef A\na;\n#elif V > 1\nb;\n#else\n#if W < 1\nc;\n#endif\n#endif\n" ++
          "#if V > 3\n#if W > 1\nd;\n#endif\n#endif\n").toList = .ok f ∧
      f.undecided = [⟨10, "if V > 3".toList⟩, ⟨11, "if W > 1".toList⟩] ∧
      (Block.occurrences [] b).map (·.line) = [1, 3, 6, 10, 11] ∧
      ∀ guess guess' : Nat → Bool, guess 10 = guess' 10 → guess 11 = guess' 11 →
        Block.kept (.ofList ["A"]) guess b = Block.kept (.ofList ["A"]) guess' b := by
  have h : filter (.ofList ["A"])
      ("#ifdef A\na;\n#elif V > 1\nb;\n#else\n#if W < 1\nc;\n#endif\n#endif\n" ++
        "#if V > 3\n#if W > 1\nd;\n#endif\n#endif\n").toList =
      .ok ⟨[⟨⟨1, "#ifdef A".toList⟩, false⟩, ⟨⟨2, "a;".toList⟩, true⟩,
        ⟨⟨3, "#elif V > 1".toList⟩, false⟩, ⟨⟨4, "b;".toList⟩, false⟩,
        ⟨⟨5, "#else".toList⟩, false⟩, ⟨⟨6, "#if W < 1".toList⟩, false⟩, ⟨⟨7, "c;".toList⟩, false⟩,
        ⟨⟨8, "#endif".toList⟩, false⟩, ⟨⟨9, "#endif".toList⟩, false⟩,
        ⟨⟨10, "#if V > 3".toList⟩, false⟩, ⟨⟨11, "#if W > 1".toList⟩, false⟩,
        ⟨⟨12, "d;".toList⟩, true⟩, ⟨⟨13, "#endif".toList⟩, false⟩,
        ⟨⟨14, "#endif".toList⟩, false⟩],
        [⟨10, "if V > 3".toList⟩, ⟨11, "if W > 1".toList⟩]⟩ := by decide +kernel
  obtain ⟨⟨b, hb⟩, hall⟩ := filter_reports h
  obtain ⟨hlisted, -, -, hguess, -⟩ := hall b hb
  refine ⟨_, b, h, rfl, ?_, fun guess guess' h10 h11 => hguess guess guess' ?_⟩
  · -- The occurrences are the conditions of the directives, in their order.
    have hlines : (Block.occurrences [] b).map (·.line) =
        ((Block.occurrences [] b).map (·.condition)).map (·.1) := by
      rw [List.map_map]
      rfl
    rw [hlines, hlisted]
    decide +kernel
  · rw [List.forall_mem_cons, List.forall_mem_singleton]
    exact ⟨h10, h11⟩

end NativeBindings.Conditional
