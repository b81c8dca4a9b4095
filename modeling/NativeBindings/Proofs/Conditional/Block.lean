import NativeBindings.Proofs.Conditional.Division
import NativeBindings.Proofs.Conditional.Run

/-!
# The nesting grammar

A block is a sequence of lines, directives that have nothing to do with sections, and sections. A
section is opened by `if`, `ifdef` or `ifndef`; each of its groups is a block; any number of further
groups start with `elif`, then at most one with `else`; and `endif` closes it. `Block` and `Groups`
are the derivations of this grammar, with the directives as they are written.

`Block.reads` says what a run of conditional inclusion makes of a block: it leaves the sections as
they are, and gives `Block.filtered`, which follows the nesting by recursion and needs no stack.
-/

namespace NativeBindings.Conditional

/-- A directive as it is written in a source. -/
structure Written (d : Directive) where
  /-- Its first line. -/
  first : SourceLine
  /-- The lines that it takes in. -/
  more : List SourceLine
  /-- Its text. -/
  text : Text
  /-- The text is that of the directive. -/
  ofText_text : Directive.ofText text = d

namespace Written

variable {d : Directive}

/-- The part of a source that a directive is. -/
def item (w : Written d) : Item := .directive w.first w.more w.text

/-- What conditional inclusion makes of the directive, whose lines never stay. -/
def filtered (w : Written d) (reported : Bool) : Filtered :=
  directiveResult w.first w.more w.text reported

/-- Reading a directive does what the directive does to the sections. -/
theorem readItem_item (symbols : SymbolSet) (ss : List Section) (w : Written d) :
    readItem symbols ss w.item =
      (enter symbols ss w.first.number d).map fun (ss', reported) =>
        (ss', w.filtered reported) := by
  unfold item
  rw [readItem, w.ofText_text]
  rfl

/-- Reading a directive that fits is a run. -/
theorem reads {symbols : SymbolSet} {ss ss' : List Section} {reported : Bool} (w : Written d)
    (h : enter symbols ss w.first.number d = .ok (ss', reported)) :
    Reads symbols ss [w.item] ss' (w.filtered reported) := by
  apply Reads.single
  rw [readItem_item, h]
  rfl

/-- No line of a directive stays. -/
@[simp] theorem live_filtered (w : Written d) (reported : Bool) :
    (w.filtered reported).live = [] := by
  unfold filtered directiveResult Filtered.live
  simp

@[simp] theorem directiveLines_item (w : Written d) (items : List Item) :
    Item.directiveLines (w.item :: items) = w.first.number :: Item.directiveLines items := rfl

end Written

mutual

/-- A sequence of lines, directives that have nothing to do with sections, and sections. -/
inductive Block
  /-- Nothing. -/
  | nil
  /-- A line. -/
  | line (l : SourceLine) (rest : Block)
  /-- A directive that has nothing to do with sections. -/
  | other (w : Written .other) (rest : Block)
  /-- A section: the directive that opens it, its first group, and its end with all further
  groups. -/
  | conditional (test : Test) (w : Written (.opens test)) (body : Block) (groups : Groups)
      (rest : Block)

/-- The end of a section with all its groups but the first. -/
inductive Groups
  /-- There is no further group. -/
  | closing (w : Written .closes)
  /-- A group with a condition. -/
  | elif (text : Text) (w : Written (.elif text)) (body : Block) (groups : Groups)
  /-- The last group, which has no condition. -/
  | otherwise (w : Written .otherwise) (body : Block) (closing : Written .closes)

end

mutual

/-- The parts of a source that a block is. -/
def Block.items : Block → List Item
  | .nil => []
  | .line l rest => .ordinary l :: rest.items
  | .other w rest => w.item :: rest.items
  | .conditional _ w body groups rest =>
    w.item :: (body.items ++ (groups.items ++ rest.items))

/-- The parts of a source that the end of a section is. -/
def Groups.items : Groups → List Item
  | .closing w => [w.item]
  | .elif _ w body groups => w.item :: (body.items ++ groups.items)
  | .otherwise w body closing => w.item :: (body.items ++ [closing.item])

end

/-- One block behind another. -/
def Block.append : Block → Block → Block
  | .nil, b => b
  | .line l rest, b => .line l (rest.append b)
  | .other w rest, b => .other w (rest.append b)
  | .conditional test w body groups rest, b => .conditional test w body groups (rest.append b)

@[simp] theorem Block.items_append : ∀ a b : Block, (a.append b).items = a.items ++ b.items
  | .nil, _ => rfl
  | .line l rest, b => by
    rw [append, items, items, items_append rest b, List.cons_append]
  | .other w rest, b => by
    rw [append, items, items, items_append rest b, List.cons_append]
  | .conditional test w body groups rest, b => by
    rw [append, items, items, items_append rest b]
    simp

mutual

/-- What conditional inclusion makes of a block in text that is live or not. -/
def Block.filtered (symbols : SymbolSet) (live : Bool) : Block → Filtered
  | .nil => .nothing
  | .line l rest => ⟨[⟨l, live⟩], []⟩ ++ rest.filtered symbols live
  | .other w rest => w.filtered false ++ rest.filtered symbols live
  | .conditional test w body groups rest =>
    w.filtered ((test.value? symbols).isNone && live) ++
      (body.filtered symbols (live && (test.value? symbols).getD true) ++
        (groups.filtered symbols live (test.value? symbols == some true) ++
          rest.filtered symbols live))

/-- What conditional inclusion makes of the end of a section, where the text around the section is
live or not and the condition of a group in front is known to be true or not. -/
def Groups.filtered (symbols : SymbolSet) (outerLive taken : Bool) : Groups → Filtered
  | .closing w => w.filtered false
  | .elif text w body groups =>
    w.filtered ((evaluate? symbols text).isNone && outerLive && !taken) ++
      (body.filtered symbols (outerLive && !taken && (evaluate? symbols text).getD true) ++
        groups.filtered symbols outerLive (taken || evaluate? symbols text == some true))
  | .otherwise w body closing =>
    w.filtered false ++ (body.filtered symbols (outerLive && !taken) ++ closing.filtered false)

end

mutual

/-- A block leaves the open sections as they are. -/
theorem Block.reads (symbols : SymbolSet) :
    ∀ (b : Block) (ss : List Section),
      Reads symbols ss b.items ss (b.filtered symbols (isLive ss))
  | .nil, ss => .nil ss
  | .line l rest, ss => .cons rfl (rest.reads symbols ss)
  | .other w rest, ss => (w.reads (enter_other symbols ss _)).append (rest.reads symbols ss)
  | .conditional test w body groups rest, ss => by
    -- The section stays on top of those around it until its end takes it away.
    have hopen := w.reads (enter_opens symbols ss w.first.number test)
    have hbody := body.reads symbols (Section.opened symbols (isLive ss) w.first.number test :: ss)
    have hgroups := groups.reads symbols (Section.opened symbols (isLive ss) w.first.number test)
      rfl ss
    exact hopen.append (hbody.append (hgroups.append (rest.reads symbols ss)))

/-- The end of a section whose last group has not started closes it. -/
theorem Groups.reads (symbols : SymbolSet) :
    ∀ (g : Groups) (s : Section) (_ : s.elseSeen = false) (ss : List Section),
      Reads symbols (s :: ss) g.items ss (g.filtered symbols s.outerLive s.taken)
  | .closing w, s, _, ss => w.reads (enter_closes symbols s ss _)
  | .elif text w body groups, s, hs, ss => by
    have hnext := w.reads (enter_elif symbols hs ss w.first.number text)
    have hbody := body.reads symbols (s.next symbols text :: ss)
    have hgroups := groups.reads symbols (s.next symbols text) hs ss
    exact hnext.append (hbody.append hgroups)
  | .otherwise w body closing, s, hs, ss => by
    have hlast := w.reads (enter_otherwise symbols hs ss w.first.number)
    have hbody := body.reads symbols (s.last :: ss)
    have hclose := closing.reads (enter_closes symbols s.last ss closing.first.number)
    exact hlast.append (hbody.append hclose)

end

end NativeBindings.Conditional
