import Mathlib.Data.List.Induction
import NativeBindings.Proofs.Conditional.Block

/-!
# Which sources are accepted

`filter` accepts a source exactly when its parts are a block of the nesting grammar. Otherwise
`Fault` names the error: the first part that cannot continue the source, which is a directive
outside every section or one that starts a group behind the last group of its section; or, when
every part fits, the outermost section that is still open at the end. None of this depends on the
symbols (`filter_nesting`).

From blocks to runs the work is done by `Block.reads`. For the way back `Leaves` describes the parts
in front of some point by the sections open there, and each step keeps it (`Leaves.step`): a section
that is being closed is put together from its groups, last one first (`Leaves.close`).
-/

namespace NativeBindings.Conditional

variable {symbols : SymbolSet}

/-! ## Sources and beginnings of sources -/

/-- The parts are those of a block. -/
def IsBlock (items : List Item) : Prop := ∃ b : Block, b.items = items

/-- Some further parts make the parts a block. -/
def Viable (items : List Item) : Prop := ∃ more, IsBlock (items ++ more)

/-- The section that a directive outside every other section opens is never closed behind it. -/
def StaysOpen {test : Test} (before : List Item) (w : Written (.opens test))
    (after : List Item) : Prop :=
  IsBlock before ∧
    ∀ inside rest, after = inside ++ rest → ¬ IsBlock (before ++ w.item :: inside)

/-- What is wrong with a source. -/
inductive Fault (items : List Item) : NestingError → Prop
  /-- A directive is the first part that cannot continue the source, and stands outside every
  section. -/
  | unmatched {before after : List Item} {d : Directive} {name : String} (w : Written d)
      (hitems : items = before ++ w.item :: after) (hstuck : ¬ Viable (before ++ [w.item]))
      (houtside : IsBlock before) (hname : d.inner? = some name) :
      Fault items (.unmatched name w.first.number)
  /-- A directive that starts a group is the first part that cannot continue the source, and the
  group in front of it is the one behind `else`. -/
  | afterElse {before after head : List Item} {d : Directive} {name : String} (w : Written d)
      (hitems : items = before ++ w.item :: after) (hviable : Viable before)
      (hstuck : ¬ Viable (before ++ [w.item])) (otherwise : Written .otherwise) (group : Block)
      (hbefore : before = head ++ otherwise.item :: group.items) (hname : d.inner? = some name)
      (hstarts : d.startsGroup) : Fault items (.afterElse name w.first.number)
  /-- All parts fit, but a section outside every other one is never closed. -/
  | unterminated {before after : List Item} {test : Test} (w : Written (.opens test))
      (hitems : items = before ++ w.item :: after) (hviable : Viable items)
      (hopen : StaysOpen before w after) : Fault items (.unterminated w.first.number)

/-! ## From runs to blocks -/

/-- The parts leave the given sections open, innermost first. Behind the directive that started the
current group of each section stands a block. -/
inductive Leaves : List Section → List Item → Prop
  /-- No section is open. -/
  | outside (b : Block) : Leaves [] b.items
  /-- The innermost section is in its first group. -/
  | opened {ss : List Section} {s : Section} {items : List Item} {test : Test}
      (w : Written (.opens test)) (b : Block) (h : Leaves ss items) (hs : s.elseSeen = false) :
      Leaves (s :: ss) (items ++ w.item :: b.items)
  /-- The innermost section is in a further group with a condition. -/
  | next {ss : List Section} {s s' : Section} {items : List Item} {text : Text}
      (w : Written (.elif text)) (b : Block) (h : Leaves (s :: ss) items)
      (hs : s.elseSeen = false) (hs' : s'.elseSeen = false) :
      Leaves (s' :: ss) (items ++ w.item :: b.items)
  /-- The innermost section is in its last group. -/
  | last {ss : List Section} {s s' : Section} {items : List Item} (w : Written .otherwise)
      (b : Block) (h : Leaves (s :: ss) items) (hs : s.elseSeen = false)
      (hs' : s'.elseSeen = true) : Leaves (s' :: ss) (items ++ w.item :: b.items)

namespace Leaves

/-- A block leaves the same sections open. -/
theorem extend {ss : List Section} {items : List Item} (h : Leaves ss items) (b : Block) :
    Leaves ss (items ++ b.items) := by
  cases h with
  | outside a =>
    rw [← Block.items_append]
    exact .outside (a.append b)
  | opened w a h hs =>
    rw [List.append_assoc, List.cons_append, ← Block.items_append]
    exact .opened w (a.append b) h hs
  | next w a h hs hs' =>
    rw [List.append_assoc, List.cons_append, ← Block.items_append]
    exact .next w (a.append b) h hs hs'
  | last w a h hs hs' =>
    rw [List.append_assoc, List.cons_append, ← Block.items_append]
    exact .last w (a.append b) h hs hs'

/-- The end of a section closes it. Behind the last group that is `endif` alone. -/
theorem close {ss : List Section} {s : Section} {items : List Item}
    (h : Leaves (s :: ss) items) (g : Groups) (hg : s.elseSeen = true → ∃ w, g = .closing w) :
    Leaves ss (items ++ g.items) := by
  generalize hsections : s :: ss = sections at h
  -- The groups in front of `g` are put in front of it one by one, back to the first.
  induction h generalizing s g with
  | outside b => cases hsections
  | @opened _ _ items test w b h hs ih =>
    cases hsections
    have hsection := h.extend (.conditional test w b g .nil)
    rw [Block.items, Block.items, List.append_nil] at hsection
    rw [List.append_assoc, List.cons_append]
    exact hsection
  | @next _ s' _ items text w b h hs hs' ih =>
    cases hsections
    have hsection := ih (.elif text w b g) (fun htrue => by rw [hs] at htrue; cases htrue) rfl
    rw [Groups.items] at hsection
    rw [List.append_assoc, List.cons_append]
    exact hsection
  | @last _ s' _ items w b h hs hs' ih =>
    cases hsections
    obtain ⟨closing, rfl⟩ := hg hs'
    have hsection := ih (.otherwise w b closing) (fun htrue => by rw [hs] at htrue; cases htrue) rfl
    rw [Groups.items] at hsection
    rw [List.append_assoc, List.cons_append, Groups.items]
    exact hsection

/-- A step leaves open what the parts read so far, with the part of the step, leave open. -/
theorem step {ss ss' : List Section} {items : List Item} {i : Item} {f : Filtered}
    (h : Leaves ss items) (hstep : readItem symbols ss i = .ok (ss', f)) :
    Leaves ss' (items ++ [i]) := by
  rcases i with l | ⟨first, more, text⟩
  · cases hstep
    exact h.extend (.line l .nil)
  · obtain ⟨reported, henter, -⟩ := readItem_directive hstep
    rcases enter_cases henter with ⟨test, hd, rfl, -⟩ | ⟨text', s, outer, hd, rfl, hs, rfl, -⟩ |
      ⟨s, outer, hd, rfl, hs, rfl, -⟩ | ⟨s, hd, rfl, -⟩ | ⟨hd, rfl, -⟩
    · exact .opened ⟨first, more, text, hd⟩ .nil h rfl
    · exact .next ⟨first, more, text, hd⟩ .nil h hs hs
    · exact .last ⟨first, more, text, hd⟩ .nil h hs rfl
    · exact h.close (.closing ⟨first, more, text, hd⟩) fun _ => ⟨_, rfl⟩
    · exact h.extend (.other ⟨first, more, text, hd⟩ .nil)

/-- A run leaves open what the parts in front of it, with its own, leave open. -/
theorem run {ss ss' : List Section} {before items : List Item} {f : Filtered}
    (h : Leaves ss before) (hreads : Reads symbols ss items ss' f) :
    Leaves ss' (before ++ items) := by
  induction hreads generalizing before with
  | nil ss =>
    rw [List.append_nil]
    exact h
  | @cons ss mid ss' i items f g hstep _ ih =>
    rw [List.append_cons]
    exact ih (h.step hstep)

/-- Parts that leave no section open are a block. -/
theorem isBlock {items : List Item} (h : Leaves [] items) : IsBlock items := by
  cases h with
  | outside b => exact ⟨b, rfl⟩

end Leaves

/-- The parts of a source are a block exactly when a run over them leaves no section open. -/
theorem isBlock_iff (symbols : SymbolSet) {items : List Item} :
    IsBlock items ↔ ∃ f, Reads symbols [] items [] f := by
  constructor
  · rintro ⟨b, rfl⟩
    exact ⟨b.filtered symbols true, b.reads symbols []⟩
  · rintro ⟨f, h⟩
    exact ((Leaves.outside .nil).run h).isBlock

/-- A line that closes a section. -/
def closer : Written .closes := ⟨⟨0, []⟩, [], "endif".toList, by decide⟩

/-- Enough closing directives leave no section open. -/
theorem reads_closers (symbols : SymbolSet) (ss : List Section) :
    ∃ f, Reads symbols ss (List.replicate ss.length closer.item) [] f := by
  induction ss with
  | nil => exact ⟨.nothing, .nil []⟩
  | cons s ss ih =>
    obtain ⟨f, h⟩ := ih
    exact ⟨_, (closer.reads (enter_closes symbols s ss closer.first.number)).append h⟩

/-- The parts are the beginning of a block exactly when there is a run over them. -/
theorem viable_iff (symbols : SymbolSet) {items : List Item} :
    Viable items ↔ ∃ ss f, Reads symbols [] items ss f := by
  constructor
  · rintro ⟨more, h⟩
    obtain ⟨f, hreads⟩ := (isBlock_iff symbols).1 h
    obtain ⟨mid, g, _, hitems, -, -⟩ := hreads.of_append
    exact ⟨mid, g, hitems⟩
  · rintro ⟨ss, f, h⟩
    obtain ⟨g, hclosers⟩ := reads_closers symbols ss
    exact ⟨_, (isBlock_iff symbols).2 ⟨_, h.append hclosers⟩⟩

/-- A part that stops a run over a viable beginning cannot continue it. -/
theorem not_viable_of_stuck {ss : List Section} {before : List Item} {i : Item} {f : Filtered}
    {e : NestingError} (h : Reads symbols [] before ss f)
    (hstep : readItem symbols ss i = .error e) : ¬ Viable (before ++ [i]) := by
  intro hviable
  obtain ⟨ss', f', hreads⟩ := (viable_iff symbols).1 hviable
  -- A run over the part as well would start with the given one.
  obtain ⟨mid, _, _, hbefore, hlast, -⟩ := hreads.of_append
  obtain ⟨rfl, -⟩ := h.unique hbefore
  obtain ⟨_, hstep'⟩ := hlast.readItem_of_singleton
  rw [hstep] at hstep'
  cases hstep'

/-! ## The outermost open section -/

/-- A step between open sections keeps the line of the outermost one. -/
theorem openedAt_of_readItem {ss ss' : List Section} {s s' : Section} {i : Item} {f : Filtered}
    (hstep : readItem symbols ss i = .ok (ss', f)) (hs : ss.getLast? = some s)
    (hs' : ss'.getLast? = some s') : s'.openedAt = s.openedAt := by
  rcases i with l | ⟨first, more, text⟩
  · cases hstep
    rw [hs] at hs'
    cases hs'
    rfl
  · obtain ⟨reported, henter, -⟩ := readItem_directive hstep
    -- Only the innermost section changes, and none of the directives moves the line where it
    -- opened.
    rcases enter_cases henter with ⟨test, -, rfl, -⟩ | ⟨text', s₀, outer, -, rfl, -, rfl, -⟩ |
      ⟨s₀, outer, -, rfl, -, rfl, -⟩ | ⟨s₀, -, rfl, -⟩ | ⟨-, rfl, -⟩
    · rw [List.getLast?_cons, hs] at hs'
      cases hs'
      rfl
    · rw [List.getLast?_cons] at hs hs'
      cases houter : outer.getLast? <;> rw [houter] at hs hs' <;> cases hs <;> cases hs' <;> rfl
    · rw [List.getLast?_cons] at hs hs'
      cases houter : outer.getLast? <;> rw [houter] at hs hs' <;> cases hs <;> cases hs' <;> rfl
    · rw [List.getLast?_cons, hs'] at hs
      cases hs
      rfl
    · rw [hs] at hs'
      cases hs'
      rfl

/-- A step that opens a section where none is open is a directive that opens it. -/
theorem exists_opens_of_readItem {ss : List Section} {s : Section} {i : Item} {f : Filtered}
    (hstep : readItem symbols [] i = .ok (ss, f)) (hs : ss.getLast? = some s) :
    ∃ test, ∃ w : Written (.opens test), i = w.item ∧ w.first.number = s.openedAt := by
  rcases i with l | ⟨first, more, text⟩
  · cases hstep
    cases hs
  · obtain ⟨reported, henter, -⟩ := readItem_directive hstep
    rcases enter_cases henter with ⟨test, hd, rfl, -⟩ | ⟨_, _, _, -, hnil, -⟩ |
      ⟨_, _, -, hnil, -⟩ | ⟨_, -, hnil, -⟩ | ⟨-, rfl, -⟩
    · cases hs
      exact ⟨test, ⟨first, more, text, hd⟩, rfl, rfl⟩
    · cases hnil
    · cases hnil
    · cases hnil
    · cases hs

/-- The section that the last part opens is not closed. -/
theorem staysOpen_nil {before : List Item} {test : Test} {w : Written (.opens test)}
    (hbefore : IsBlock before) (hopen : ¬ IsBlock (before ++ [w.item])) :
    StaysOpen before w [] := by
  refine ⟨hbefore, ?_⟩
  intro inside rest hnil
  obtain ⟨rfl, rfl⟩ := List.append_eq_nil_iff.1 hnil.symm
  exact hopen

/-- A section stays open over one more part that does not close it. -/
theorem StaysOpen.concat {before after : List Item} {test : Test} {w : Written (.opens test)}
    {i : Item} (h : StaysOpen before w after)
    (hopen : ¬ IsBlock (before ++ w.item :: after ++ [i])) : StaysOpen before w (after ++ [i]) := by
  refine ⟨h.1, ?_⟩
  intro inside rest hafter
  rcases List.eq_nil_or_concat rest with rfl | ⟨rest, j, rfl⟩
  · rw [List.append_nil] at hafter
    rw [← hafter, ← List.cons_append, ← List.append_assoc]
    exact hopen
  · rw [List.concat_eq_append, ← List.append_assoc] at hafter
    exact h.2 inside rest (List.append_inj_left' hafter rfl)

/-- The outermost section that a run leaves open was opened outside every other one, and is never
closed. -/
theorem exists_staysOpen {items : List Item} {ss : List Section} {s : Section} {f : Filtered}
    (h : Reads symbols [] items ss f) (hs : ss.getLast? = some s) :
    ∃ before test after, ∃ w : Written (.opens test), items = before ++ w.item :: after ∧
      StaysOpen before w after ∧ w.first.number = s.openedAt := by
  -- The section was opened by the last part, or was open in front of it.
  induction items using List.reverseRecOn generalizing ss s f with
  | nil =>
    cases h
    cases hs
  | append_singleton items i ih =>
    -- Runs are unique, so the parts are no block while a section is open behind them.
    have hopen : ¬ IsBlock (items ++ [i]) := by
      intro hblock
      obtain ⟨f', hreads⟩ := (isBlock_iff symbols).1 hblock
      obtain ⟨rfl, -⟩ := h.unique hreads
      cases hs
    obtain ⟨mid, g, k, hitems, hlast, -⟩ := h.of_append
    obtain ⟨k, hstep⟩ := hlast.readItem_of_singleton
    cases hmid : mid.getLast? with
    | none =>
      obtain rfl : mid = [] := List.getLast?_eq_none_iff.1 hmid
      obtain ⟨test, w, rfl, hline⟩ := exists_opens_of_readItem hstep hs
      have hbefore := (isBlock_iff symbols).2 ⟨g, hitems⟩
      exact ⟨items, test, [], w, rfl, staysOpen_nil hbefore hopen, hline⟩
    | some s₀ =>
      obtain ⟨before, test, after, w, rfl, hstays, hline⟩ := ih hitems hmid
      refine ⟨before, test, after ++ [i], w, by simp, hstays.concat hopen, ?_⟩
      rw [hline, openedAt_of_readItem hstep hmid hs]

/-- There is one section at most that is never closed and was opened outside every other one. -/
theorem StaysOpen.unique {items before before' after after' : List Item} {test test' : Test}
    {w : Written (.opens test)} {w' : Written (.opens test')}
    (hitems : items = before ++ w.item :: after) (hitems' : items = before' ++ w'.item :: after')
    (h : StaysOpen before w after) (h' : StaysOpen before' w' after') :
    w.first = w'.first := by
  rw [hitems] at hitems'
  -- Were one of the two in front of the other, the other would stand where the first is closed.
  rcases List.append_eq_append_iff.1 hitems' with ⟨as, hb, ha⟩ | ⟨as, hb, ha⟩
  · rcases as with _ | ⟨a, as⟩
    · have hhead := (List.cons.inj ha).1
      exact (Item.directive.inj hhead).1
    · obtain ⟨rfl, hafter⟩ := List.cons.inj ha
      exact absurd (hb ▸ h'.1) (h.2 as _ hafter)
  · rcases as with _ | ⟨a, as⟩
    · have hhead := (List.cons.inj ha).1
      exact ((Item.directive.inj hhead).1).symm
    · obtain ⟨rfl, hafter⟩ := List.cons.inj ha
      exact absurd (hb ▸ h.1) (h'.2 as _ hafter)

/-! ## What is accepted, and the error otherwise -/

/-- A part that stops a run from the start of a source is at fault. -/
theorem fault_of_stuck {before after : List Item} {i : Item} {ss : List Section} {f : Filtered}
    {e : NestingError} (h : Reads symbols [] before ss f)
    (hstep : readItem symbols ss i = .error e) : Fault (before ++ i :: after) e := by
  have hstuck := not_viable_of_stuck h hstep
  -- A line never stops a run.
  rcases i with l | ⟨first, more, text⟩
  · cases hstep
  let w : Written (.ofText text) := ⟨first, more, text, rfl⟩
  have hw : w.item = .directive first more text := rfl
  rw [← hw, w.readItem_item] at hstep
  rw [← hw] at hstuck ⊢
  cases henter : enter symbols ss w.first.number (.ofText text) with
  | ok r => rw [henter] at hstep; cases hstep
  | error e' =>
    rw [henter] at hstep
    cases hstep
    obtain ⟨name, hname, ⟨rfl, rfl⟩ | ⟨hstarts, s, outer, rfl, hs, rfl⟩⟩ :=
      enter_eq_error_iff.1 henter
    · exact .unmatched w rfl hstuck ((isBlock_iff symbols).2 ⟨f, h⟩) hname
    · have hleaves := (Leaves.outside .nil).run h
      rw [Block.items, List.nil_append] at hleaves
      -- Of the three kinds of group, only the last one has seen `else`.
      cases hleaves with
      | opened _ _ _ hs' => rw [hs] at hs'; cases hs'
      | next _ _ _ _ hs' => rw [hs] at hs'; cases hs'
      | last otherwise group _ _ _ =>
        have hviable := (viable_iff symbols).2 ⟨_, f, h⟩
        exact .afterElse w rfl hviable hstuck otherwise group rfl hname hstarts

/-- A run over the parts up to a last group leaves a section open. -/
theorem Reads.ne_nil_of_otherwise {head : List Item} {group : Block} {ss ss' : List Section}
    {f : Filtered} (w : Written .otherwise)
    (h : Reads symbols ss (head ++ w.item :: group.items) ss' f) : ss' ≠ [] := by
  obtain ⟨mid, _, _, -, hbehind, -⟩ := h.of_append
  cases hbehind with
  | cons hstep hgroup =>
    obtain ⟨reported, henter, -⟩ := readItem_directive hstep
    rw [w.ofText_text] at henter
    obtain ⟨rfl, -⟩ := hgroup.unique (group.reads symbols _)
    rcases enter_cases henter with ⟨_, hd, -⟩ | ⟨_, _, _, hd, -⟩ | ⟨s, outer, -, -, -, rfl, -⟩ |
      ⟨_, hd, -⟩ | ⟨hd, -⟩
    · cases hd
    · cases hd
    · exact List.cons_ne_nil _ _
    · cases hd
    · cases hd

/-- The error of filtering is the fault of the parts. -/
theorem filterItems_eq_error_iff_fault {items : List Item} {e : NestingError} :
    filterItems symbols [] items = .error e ↔ Fault items e := by
  rw [filterItems_eq_error_iff]
  constructor
  · rintro (⟨before, i, after, ss, f, rfl, hbefore, hstep⟩ | ⟨ss, f, s, hreads, hs, rfl⟩)
    · exact fault_of_stuck hbefore hstep
    · obtain ⟨before, test, after, w, hitems, hopen, hline⟩ := exists_staysOpen hreads hs
      rw [← hline]
      exact .unterminated w hitems ((viable_iff symbols).2 ⟨ss, f, hreads⟩) hopen
  · intro h
    cases h with
    | @unmatched before after d name w hitems _ houtside hname =>
      obtain ⟨f, hbefore⟩ := (isBlock_iff symbols).1 houtside
      -- Outside every section the stack is empty, and the directive has no section to go on.
      refine .inl ⟨before, w.item, after, [], f, hitems, hbefore, ?_⟩
      rw [w.readItem_item, enter_eq_error_iff.2 ⟨name, hname, .inl ⟨rfl, rfl⟩⟩]
      rfl
    | @afterElse before after head d name w hitems hviable hstuck otherwise group hbefore hname _ =>
      obtain ⟨ss, f, hreads⟩ := (viable_iff symbols).1 hviable
      refine .inl ⟨before, w.item, after, ss, f, hitems, hreads, ?_⟩
      rw [w.readItem_item]
      cases henter : enter symbols ss w.first.number d with
      | ok r =>
        exact absurd ((viable_iff symbols).2 ⟨_, _, hreads.append (w.reads henter)⟩) hstuck
      | error e =>
        obtain ⟨name', hname', ⟨rfl, -⟩ | ⟨-, _, _, -, -, rfl⟩⟩ := enter_eq_error_iff.1 henter
        · -- A section is open behind `else`, so the directive is not outside every section.
          rw [hbefore] at hreads
          exact absurd rfl (hreads.ne_nil_of_otherwise otherwise)
        · rw [hname] at hname'
          cases hname'
          rfl
    | @unterminated before after test w hitems hviable hopen =>
      obtain ⟨ss, f, hreads⟩ := (viable_iff symbols).1 hviable
      cases hs : ss.getLast? with
      | none =>
        obtain rfl : ss = [] := List.getLast?_eq_none_iff.1 hs
        rw [hitems] at hreads
        -- With no section open at the end, the section of the directive would be closed somewhere.
        have hblock := (isBlock_iff symbols).2 ⟨f, hreads⟩
        exact absurd hblock (hopen.2 after [] (List.append_nil after).symm)
      | some s =>
        obtain ⟨_, _, _, w', hitems', hopen', hline⟩ := exists_staysOpen hreads hs
        rw [StaysOpen.unique hitems hitems' hopen hopen', hline]
        exact .inr ⟨ss, f, s, hreads, hs, rfl⟩

/-- Filtering accepts a source exactly when its parts are a block, and otherwise gives the fault of
its parts. The parts are those that the rules for lines and directives give, and with other symbols
the outcome is the same but for the lines that stay. -/
theorem filter_nesting (source : Text) :
    (∀ items, Item.Divides none (SourceLine.ofText source) items ↔ items = Item.ofText source) ∧
    (∀ symbols, (∃ f, filter symbols source = .ok f) ↔ IsBlock (Item.ofText source)) ∧
    (∀ symbols e, filter symbols source = .error e ↔ Fault (Item.ofText source) e) ∧
    ∀ symbols symbols' : SymbolSet, (filter symbols source).map (fun _ => ()) =
      (filter symbols' source).map fun _ => () := by
  -- The runs to the end are those over blocks.
  have haccept : ∀ symbols,
      (∃ f, filter symbols source = .ok f) ↔ IsBlock (Item.ofText source) := by
    intro symbols
    unfold filter
    simp only [filterItems_eq_ok_iff]
    exact (isBlock_iff _).symm
  have hfault : ∀ symbols e, filter symbols source = .error e ↔ Fault (Item.ofText source) e :=
    fun symbols e => filterItems_eq_error_iff_fault
  refine ⟨fun items => Item.divides_iff, haccept, hfault, fun symbols symbols' => ?_⟩
  -- Neither blocks nor faults depend on the symbols.
  cases h : filter symbols source with
  | ok f =>
    obtain ⟨f', h'⟩ := (haccept symbols').2 ((haccept symbols).1 ⟨f, h⟩)
    rw [h']
    rfl
  | error e =>
    rw [(hfault symbols' e).2 ((hfault symbols e).1 h)]

end NativeBindings.Conditional
