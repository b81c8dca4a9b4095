import NativeBindings.Conditional.LiveLine

/-!
# Conditional inclusion, step by step

`filterItems` returns what it makes of all parts of a source at once. Here it is taken apart:
`readItem` is one step, from the sections open in front of a part to those open behind it, and
`Reads` is a run of steps that all succeed. `enter_cases` says everything that a step can do to the
sections; `reads_or_stuck` finds the first part that stops a run, and `filterItems_append` says that
`filterItems` goes on behind a run with the sections that the run leaves open.
-/

namespace NativeBindings.Conditional

/-! ## Joining results -/

namespace Filtered

/-- What conditional inclusion makes of no text. -/
def nothing : Filtered := ⟨[], []⟩

/-- What conditional inclusion makes of one text behind another. -/
instance : Append Filtered := ⟨fun f g => ⟨f.lines ++ g.lines, f.undecided ++ g.undecided⟩⟩

@[simp] theorem lines_nothing : nothing.lines = [] := rfl

@[simp] theorem undecided_nothing : nothing.undecided = [] := rfl

@[simp] theorem lines_append (f g : Filtered) : (f ++ g).lines = f.lines ++ g.lines := rfl

@[simp] theorem undecided_append (f g : Filtered) :
    (f ++ g).undecided = f.undecided ++ g.undecided := rfl

@[simp] theorem nothing_append (f : Filtered) : nothing ++ f = f := rfl

@[simp] theorem append_nothing (f : Filtered) : f ++ nothing = f := by
  show (⟨f.lines ++ [], f.undecided ++ []⟩ : Filtered) = f
  rw [List.append_nil, List.append_nil]

theorem append_assoc (f g h : Filtered) : f ++ g ++ h = f ++ (g ++ h) := by
  show (⟨f.lines ++ g.lines ++ h.lines, f.undecided ++ g.undecided ++ h.undecided⟩ : Filtered) = _
  rw [List.append_assoc, List.append_assoc]
  rfl

@[simp] theorem live_nothing : nothing.live = [] := rfl

@[simp] theorem live_append (f g : Filtered) : (f ++ g).live = f.live ++ g.live := by
  unfold live
  rw [lines_append, List.filter_append, List.map_append]

/-- A line stays exactly when it is among the lines with the mark that it stays. -/
theorem mem_live {f : Filtered} {l : SourceLine} : l ∈ f.live ↔ ⟨l, true⟩ ∈ f.lines := by
  unfold live
  constructor
  · intro h
    obtain ⟨⟨l', live⟩, hmem, rfl⟩ := List.mem_map.1 h
    obtain ⟨hmem, hlive⟩ := List.mem_filter.1 hmem
    obtain rfl : live = true := hlive
    exact hmem
  · intro h
    exact List.mem_map.2 ⟨⟨l, true⟩, List.mem_filter.2 ⟨h, rfl⟩, rfl⟩

end Filtered

/-! ## What a directive does to the sections -/

namespace Section

/-- The section that a test opens on the given line, where the text around it is live or not. -/
def opened (symbols : SymbolSet) (outerLive : Bool) (line : Nat) (test : Test) : Section :=
  ⟨line, outerLive, test.value? symbols == some true, false,
    outerLive && (test.value? symbols).getD true⟩

/-- The section with a further group that has a condition. -/
def next (symbols : SymbolSet) (s : Section) (text : Text) : Section :=
  { s with
    taken := s.taken || evaluate? symbols text == some true
    live := s.outerLive && !s.taken && (evaluate? symbols text).getD true }

/-- The section with its last group. -/
def last (s : Section) : Section :=
  { s with elseSeen := true, live := s.outerLive && !s.taken }

end Section

/-- The name of a directive that stands inside a section only. -/
def Directive.inner? : Directive → Option String
  | .elif _ => some "elif"
  | .otherwise => some "else"
  | .closes => some "endif"
  | .opens _ | .other => none

/-- Whether a directive starts a group other than the first of a section. -/
def Directive.startsGroup : Directive → Bool
  | .elif _ | .otherwise => true
  | .opens _ | .closes | .other => false

@[simp] theorem enter_opens (symbols : SymbolSet) (ss : List Section) (line : Nat) (test : Test) :
    enter symbols ss line (.opens test) =
      .ok (Section.opened symbols (isLive ss) line test :: ss,
        (test.value? symbols).isNone && isLive ss) := rfl

theorem enter_elif (symbols : SymbolSet) {s : Section} (hs : s.elseSeen = false)
    (outer : List Section) (line : Nat) (text : Text) :
    enter symbols (s :: outer) line (.elif text) =
      .ok (s.next symbols text :: outer,
        (evaluate? symbols text).isNone && s.outerLive && !s.taken) := by
  rw [enter, if_neg (by rw [hs]; simp)]
  rfl

theorem enter_otherwise (symbols : SymbolSet) {s : Section} (hs : s.elseSeen = false)
    (outer : List Section) (line : Nat) :
    enter symbols (s :: outer) line .otherwise = .ok (s.last :: outer, false) := by
  rw [enter, if_neg (by rw [hs]; simp)]
  rfl

@[simp] theorem enter_closes (symbols : SymbolSet) (s : Section) (outer : List Section)
    (line : Nat) : enter symbols (s :: outer) line .closes = .ok (outer, false) := rfl

@[simp] theorem enter_other (symbols : SymbolSet) (ss : List Section) (line : Nat) :
    enter symbols ss line .other = .ok (ss, false) := rfl

/-- What a directive that fits does to the open sections. -/
theorem enter_cases {symbols : SymbolSet} {ss ss' : List Section} {line : Nat} {d : Directive}
    {reported : Bool} (h : enter symbols ss line d = .ok (ss', reported)) :
    (∃ test, d = .opens test ∧ ss' = Section.opened symbols (isLive ss) line test :: ss ∧
      reported = ((test.value? symbols).isNone && isLive ss)) ∨
    (∃ text s outer, d = .elif text ∧ ss = s :: outer ∧ s.elseSeen = false ∧
      ss' = s.next symbols text :: outer ∧
      reported = ((evaluate? symbols text).isNone && s.outerLive && !s.taken)) ∨
    (∃ s outer, d = .otherwise ∧ ss = s :: outer ∧ s.elseSeen = false ∧ ss' = s.last :: outer ∧
      reported = false) ∨
    (∃ s, d = .closes ∧ ss = s :: ss' ∧ reported = false) ∨
    (d = .other ∧ ss' = ss ∧ reported = false) := by
  cases d with
  | opens test =>
    cases h
    exact .inl ⟨test, rfl, rfl, rfl⟩
  | elif text =>
    rcases ss with _ | ⟨s, outer⟩
    · cases h
    · -- Behind `#else` no further group fits.
      cases hs : s.elseSeen with
      | true => rw [enter, if_pos hs] at h; cases h
      | false =>
        rw [enter_elif symbols hs] at h
        cases h
        exact .inr (.inl ⟨text, s, outer, rfl, rfl, hs, rfl, rfl⟩)
  | otherwise =>
    rcases ss with _ | ⟨s, outer⟩
    · cases h
    · cases hs : s.elseSeen with
      | true => rw [enter, if_pos hs] at h; cases h
      | false =>
        rw [enter_otherwise symbols hs] at h
        cases h
        exact .inr (.inr (.inl ⟨s, outer, rfl, rfl, hs, rfl, rfl⟩))
  | closes =>
    rcases ss with _ | ⟨s, outer⟩
    · cases h
    · cases h
      exact .inr (.inr (.inr (.inl ⟨s, rfl, rfl, rfl⟩)))
  | other =>
    cases h
    exact .inr (.inr (.inr (.inr ⟨rfl, rfl, rfl⟩)))

/-- When a directive does not fit, and the error that it gives. -/
theorem enter_eq_error_iff {symbols : SymbolSet} {ss : List Section} {line : Nat} {d : Directive}
    {e : NestingError} :
    enter symbols ss line d = .error e ↔
      ∃ name, d.inner? = some name ∧
        ((ss = [] ∧ e = .unmatched name line) ∨
          (d.startsGroup ∧ ∃ s outer, ss = s :: outer ∧ s.elseSeen ∧
            e = .afterElse name line)) := by
  -- Outside every section each inner directive is unmatched; inside one only `else` stands in the
  -- way, and only of those that start a group.
  rcases ss with _ | ⟨s, outer⟩
  · cases d <;> simp [enter, Directive.inner?] <;> exact eq_comm
  · cases hs : s.elseSeen <;> cases d <;>
      simp [enter, Directive.inner?, Directive.startsGroup, hs] <;> exact eq_comm

/-! ## Steps and runs -/

/-- What conditional inclusion makes of a directive, whose lines never stay. -/
def directiveResult (first : SourceLine) (more : List SourceLine) (text : Text)
    (reported : Bool) : Filtered :=
  ⟨(first :: more).map (⟨·, false⟩), if reported then [⟨first.number, text⟩] else []⟩

/-- The sections open behind a part of a source, and what conditional inclusion makes of it. -/
def readItem (symbols : SymbolSet) (ss : List Section) :
    Item → Except NestingError (List Section × Filtered)
  | .ordinary line => .ok (ss, ⟨[⟨line, isLive ss⟩], []⟩)
  | .directive first more text =>
    (enter symbols ss first.number (.ofText text)).map fun (ss', reported) =>
      (ss', directiveResult first more text reported)

/-- A step over a directive does what the directive does to the sections. -/
theorem readItem_directive {symbols : SymbolSet} {ss ss' : List Section} {first : SourceLine}
    {more : List SourceLine} {text : Text} {f : Filtered}
    (h : readItem symbols ss (.directive first more text) = .ok (ss', f)) :
    ∃ reported, enter symbols ss first.number (.ofText text) = .ok (ss', reported) ∧
      f = directiveResult first more text reported := by
  rw [readItem] at h
  cases henter : enter symbols ss first.number (.ofText text) with
  | error e => rw [henter] at h; cases h
  | ok r =>
    rw [henter] at h
    cases h
    exact ⟨r.2, rfl, rfl⟩

/-- The parts can be read one after the other. Given are the sections open in front of them and
behind them, and what conditional inclusion makes of them. -/
inductive Reads (symbols : SymbolSet) :
    List Section → List Item → List Section → Filtered → Prop
  /-- No part is read. -/
  | nil (ss : List Section) : Reads symbols ss [] ss .nothing
  /-- A part is read in front of others. -/
  | cons {ss mid ss' : List Section} {i : Item} {items : List Item} {f g : Filtered}
      (hstep : readItem symbols ss i = .ok (mid, f)) (hrest : Reads symbols mid items ss' g) :
      Reads symbols ss (i :: items) ss' (f ++ g)

namespace Reads

variable {symbols : SymbolSet}

/-- A step is a run. -/
theorem single {ss ss' : List Section} {i : Item} {f : Filtered}
    (h : readItem symbols ss i = .ok (ss', f)) : Reads symbols ss [i] ss' f := by
  rw [← Filtered.append_nothing f]
  exact .cons h (.nil ss')

/-- A run over one part is a step. -/
theorem readItem_of_singleton {ss ss' : List Section} {i : Item} {f : Filtered}
    (h : Reads symbols ss [i] ss' f) : ∃ g, readItem symbols ss i = .ok (ss', g) := by
  cases h with
  | cons hstep hrest =>
    cases hrest
    exact ⟨_, hstep⟩

/-- One run behind another. -/
theorem append {ss mid ss' : List Section} {items more : List Item} {f g : Filtered}
    (h : Reads symbols ss items mid f) (h' : Reads symbols mid more ss' g) :
    Reads symbols ss (items ++ more) ss' (f ++ g) := by
  induction h with
  | nil => simpa using h'
  | cons hstep _ ih =>
    rw [Filtered.append_assoc]
    exact .cons hstep (ih h')

/-- A run over two lists of parts stops between them. -/
theorem of_append {ss ss' : List Section} {items more : List Item} {f : Filtered}
    (h : Reads symbols ss (items ++ more) ss' f) :
    ∃ mid g k, Reads symbols ss items mid g ∧ Reads symbols mid more ss' k ∧ f = g ++ k := by
  induction items generalizing ss f with
  | nil => exact ⟨ss, .nothing, f, .nil ss, h, rfl⟩
  | cons i items ih =>
    rw [List.cons_append] at h
    cases h with
    | cons hstep hrest =>
      obtain ⟨mid, g, k, hitems, hmore, rfl⟩ := ih hrest
      exact ⟨mid, _, k, .cons hstep hitems, hmore, (Filtered.append_assoc _ g k).symm⟩

/-- The parts and the sections in front of them determine a run. -/
theorem unique {ss ss' ss'' : List Section} {items : List Item} {f g : Filtered}
    (h : Reads symbols ss items ss' f) (h' : Reads symbols ss items ss'' g) :
    ss' = ss'' ∧ f = g := by
  induction h generalizing ss'' g with
  | nil =>
    cases h'
    exact ⟨rfl, rfl⟩
  | cons hstep _ ih =>
    cases h' with
    | cons hstep' hrest' =>
      rw [hstep] at hstep'
      cases hstep'
      obtain ⟨rfl, rfl⟩ := ih hrest'
      exact ⟨rfl, rfl⟩

end Reads

/-- Parts can be read to the end, or there is a first one that stops the run. -/
theorem reads_or_stuck (symbols : SymbolSet) (ss : List Section) (items : List Item) :
    (∃ ss' f, Reads symbols ss items ss' f) ∨
      ∃ before i after ss' f e, items = before ++ i :: after ∧ Reads symbols ss before ss' f ∧
        readItem symbols ss' i = .error e := by
  -- The sections in front of the first part are not those in front of the rest.
  induction items generalizing ss with
  | nil => exact .inl ⟨ss, .nothing, .nil ss⟩
  | cons i items ih =>
    cases hstep : readItem symbols ss i with
    | error e => exact .inr ⟨[], i, items, ss, .nothing, e, rfl, .nil ss, hstep⟩
    | ok r =>
      obtain ⟨mid, g⟩ := r
      rcases ih mid with ⟨ss', f, h⟩ | ⟨before, j, after, ss', f, e, rfl, h, herror⟩
      · exact .inl ⟨ss', g ++ f, .cons hstep h⟩
      · exact .inr ⟨i :: before, j, after, ss', g ++ f, e, rfl, .cons hstep h, herror⟩

/-- Filtering takes a step and goes on with the sections that it leaves open. -/
theorem filterItems_cons (symbols : SymbolSet) (ss : List Section) (i : Item) (items : List Item) :
    filterItems symbols ss (i :: items) =
      (readItem symbols ss i).bind fun (ss', f) =>
        (filterItems symbols ss' items).map (f ++ ·) := by
  cases i with
  | ordinary line =>
    -- A line goes in front of what is made of the rest, and is never reported.
    show (filterItems symbols ss items).bind _ = (filterItems symbols ss items).map _
    cases filterItems symbols ss items <;> rfl
  | directive first more text =>
    show (enter symbols ss first.number (.ofText text)).bind _ = _
    rw [readItem]
    cases enter symbols ss first.number (.ofText text) with
    | error e => rfl
    | ok r =>
      obtain ⟨ss', reported⟩ := r
      show (filterItems symbols ss' items).bind _ = (filterItems symbols ss' items).map _
      cases filterItems symbols ss' items with
      | error e => rfl
      | ok f =>
        cases reported <;> rfl

/-- Filtering goes on behind a run with the sections that the run leaves open. -/
theorem filterItems_append {symbols : SymbolSet} {ss ss' : List Section} {items : List Item}
    {f : Filtered} (h : Reads symbols ss items ss' f) (more : List Item) :
    filterItems symbols ss (items ++ more) = (filterItems symbols ss' more).map (f ++ ·) := by
  induction h with
  | nil ss =>
    rw [List.nil_append]
    cases filterItems symbols ss more <;> rfl
  | @cons ss mid ss' i items f g hstep _ ih =>
    rw [List.cons_append, filterItems_cons, hstep]
    show (filterItems symbols mid (items ++ more)).map (f ++ ·) = _
    rw [ih]
    cases filterItems symbols ss' more with
    | error e => rfl
    | ok k => exact congrArg Except.ok (Filtered.append_assoc f g k).symm

/-- Filtering fails on a part that does not fit, whatever comes behind it. -/
theorem filterItems_stuck {symbols : SymbolSet} {ss ss' : List Section} {before : List Item}
    {f : Filtered} {i : Item} {e : NestingError} (h : Reads symbols ss before ss' f)
    (hstep : readItem symbols ss' i = .error e) (after : List Item) :
    filterItems symbols ss (before ++ i :: after) = .error e := by
  rw [filterItems_append h, filterItems_cons, hstep]
  rfl

/-- Filtering succeeds exactly when a run leaves no section open. -/
theorem filterItems_eq_ok_iff {symbols : SymbolSet} {ss : List Section} {items : List Item}
    {f : Filtered} : filterItems symbols ss items = .ok f ↔ Reads symbols ss items [] f := by
  constructor
  · intro h
    rcases reads_or_stuck symbols ss items with
      ⟨ss', g, hreads⟩ | ⟨_, _, after, _, _, _, rfl, hb, hi⟩
    · have happend := filterItems_append hreads []
      rw [List.append_nil, h, filterItems] at happend
      cases hlast : ss'.getLast? with
      | some s => rw [hlast] at happend; cases happend
      | none =>
        -- No section is open behind the last part, where filtering adds nothing to the run.
        obtain rfl : ss' = [] := List.getLast?_eq_none_iff.1 hlast
        have hfg : f = g ++ .nothing := Except.ok.inj happend
        rw [hfg, Filtered.append_nothing]
        exact hreads
    · rw [filterItems_stuck hb hi after] at h
      cases h
  · intro h
    have happend := filterItems_append h []
    rw [List.append_nil] at happend
    rw [happend]
    exact congrArg Except.ok (Filtered.append_nothing f)

/-- Filtering fails exactly when a part does not fit or the run leaves a section open. -/
theorem filterItems_eq_error_iff {symbols : SymbolSet} {ss : List Section} {items : List Item}
    {e : NestingError} :
    filterItems symbols ss items = .error e ↔
      (∃ before i after ss' f, items = before ++ i :: after ∧ Reads symbols ss before ss' f ∧
        readItem symbols ss' i = .error e) ∨
      (∃ ss' f s, Reads symbols ss items ss' f ∧ ss'.getLast? = some s ∧
        e = .unterminated s.openedAt) := by
  constructor
  · intro h
    -- All parts fit, and the run ends inside a section, or one of them does not.
    rcases reads_or_stuck symbols ss items with
      ⟨ss', f, hreads⟩ | ⟨before, i, after, ss', f, e', rfl, hb, hi⟩
    · have happend := filterItems_append hreads []
      rw [List.append_nil, h, filterItems] at happend
      cases hlast : ss'.getLast? with
      | none => rw [hlast] at happend; cases happend
      | some s =>
        rw [hlast] at happend
        exact .inr ⟨ss', f, s, hreads, hlast, Except.error.inj happend⟩
    · rw [filterItems_stuck hb hi after] at h
      cases h
      exact .inl ⟨before, i, after, ss', f, rfl, hb, hi⟩
  · rintro (⟨before, i, after, ss', f, rfl, hb, hi⟩ | ⟨ss', f, s, hreads, hlast, rfl⟩)
    · exact filterItems_stuck hb hi after
    · have happend := filterItems_append hreads []
      rw [List.append_nil, filterItems, hlast] at happend
      exact happend

end NativeBindings.Conditional
