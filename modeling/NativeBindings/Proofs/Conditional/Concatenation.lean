import NativeBindings.Proofs.Conditional.LiveComment
import NativeBindings.Proofs.Scanner.Move
import NativeBindings.Proofs.Text.Words

/-!
# One source behind another

What conditional inclusion makes of a source does not depend on a finished one in front of it, but
for the numbers of the lines (`filter_append`). A source is finished when its last line is ended,
when it leaves neither a block comment nor a directive open, and when it is accepted: then the lines
behind it are divided by themselves (`Divides.append`), and no section is open in front of them.

Where lines are numbered differently, they have the same parts (`gather_move`), and what is made of
the parts differs in line numbers only (`filterItems_move`).
-/

namespace NativeBindings

/-! ## Lines -/

namespace Text

/-- The last line of a text, if there is one, is ended. -/
def IsEnded (t : Text) : Prop := t = [] ∨ t.getLast? = some '\n'

/-- A text with a character has a line. -/
theorem lines_ne_nil {t : Text} (h : t ≠ []) : lines t ≠ [] := by
  fun_cases lines t with
  | case1 => exact absurd rfl h
  | case2 cs => exact List.cons_ne_nil _ _
  | case3 cs => exact List.cons_ne_nil _ _
  | case4 c cs =>
    cases lines cs with
    | nil => exact List.cons_ne_nil _ _
    | cons line lines => exact List.cons_ne_nil _ _

/-- Behind its first character a text is ended when it is as a whole. -/
theorem IsEnded.tail {c : Char} {cs : Text} (h : IsEnded (c :: cs)) : IsEnded cs := by
  obtain h | h := h
  · cases h
  · cases cs with
    | nil => exact .inl rfl
    | cons d ds => exact .inr (by rwa [List.getLast?_cons_cons] at h)

/-- Behind a text whose lines are ended new lines start. -/
theorem lines_append {t : Text} (h : IsEnded t) (u : Text) :
    lines (t ++ u) = lines t ++ lines u := by
  fun_induction lines t with
  | case1 => rfl
  | case2 cs ih => exact congrArg ([] :: ·) (ih h.tail)
  | case3 cs ih => exact congrArg ([] :: ·) (ih h.tail.tail)
  | case4 c cs hfeed hreturn ih =>
    have hne : cs ≠ [] := by
      rintro rfl
      obtain h | h := h
      · cases h
      · exact hfeed (Option.some.inj h)
    obtain ⟨d, ds, rfl⟩ := List.exists_cons_of_ne_nil hne
    have hreturn' : ∀ rest, c = '\r' → d :: ds ++ u = '\n' :: rest → False :=
      fun rest hc hd => hreturn ds hc (by rw [(List.cons.inj hd).1])
    have hcons : lines (c :: (d :: ds ++ u)) = consToFirst c (lines (d :: ds ++ u)) :=
      lines.eq_4 c _ hfeed hreturn'
    rw [List.cons_append, hcons, ih h.tail, consToFirst_append (lines_ne_nil hne)]

end Text

namespace Conditional

open Comment (LineReader readLine openAfter openAfter_append)

variable {symbols : SymbolSet} (m : Move)

/-- The lines of a source have its lines for their texts. -/
theorem texts_ofText (source : Text) : texts (SourceLine.ofText source) = source.lines := by
  have hfst : texts (SourceLine.ofText source) = ((Text.lines source).zipIdx 1).map Prod.fst := by
    unfold texts SourceLine.ofText
    rw [List.map_map]
    rfl
  rw [hfst, List.zipIdx_map_fst]

/-- Behind a text whose lines are ended the lines of another one have greater numbers. -/
theorem SourceLine.ofText_append {t : Text} (h : t.IsEnded) (u : Text) :
    ofText (t ++ u) = ofText t ++ (ofText u).map (SourceLine.move (.down t.lines.length)) := by
  have hrest : (Text.lines u).zipIdx (1 + t.lines.length) =
      ((Text.lines u).zipIdx 1).map (Prod.map id (· + t.lines.length)) := by
    rw [List.zipIdx_eq_map_add, List.zipIdx_eq_map_add (i := 1), List.map_map]
    refine List.map_congr_left fun line _ => Prod.ext rfl ?_
    show 1 + t.lines.length + line.2 = 1 + line.2 + t.lines.length
    omega
  unfold ofText
  rw [Text.lines_append h, List.zipIdx_append, List.map_append, hrest, List.map_map, List.map_map]
  rfl

/-! ## Other numbers -/

/-- The part with its lines numbered differently. -/
def Item.move : Item → Item
  | .ordinary line => .ordinary (line.move m)
  | .directive first more text => .directive (first.move m) (more.map (·.move m)) text

/-- The directive with its lines numbered differently. -/
def Item.Open.move (d : Open) : Open := ⟨d.first.move m, d.more.map (·.move m), d.text⟩

theorem Item.Open.join_move (d : Open) (l : SourceLine) (code : Text) :
    (d.move m).join (l.move m) code = (d.join l code).move m := by
  unfold join move
  rw [List.map_append]
  rfl

@[simp] theorem SourceLine.text_move (l : SourceLine) : (l.move m).text = l.text := rfl

/-- How lines are divided does not depend on their numbers. -/
theorem Item.gather_move (r : LineReader) (d : Option Open) (ls : List SourceLine) :
    gather r (d.map (Open.move m)) (ls.map (·.move m)) =
      (gather r d ls).map (Item.move m) := by
  fun_induction gather r d ls with
  | case1 => rfl
  | case2 => rfl
  | case3 r l ls line r' hread hnone ih =>
    rw [List.map_cons, Option.map_none, gather, SourceLine.text_move, hread]
    dsimp only
    rw [hnone]
    exact congrArg (Item.ordinary (l.move m) :: ·) ih
  | case4 r l ls line r' hread text hsome d hcontinues ih =>
    -- A directive starts, and goes on in the next line or not.
    rw [List.map_cons, Option.map_none, gather, SourceLine.text_move, hread]
    dsimp only
    rw [hsome]
    exact (if_pos hcontinues).trans ih
  | case5 r l ls line r' hread text hsome d hcontinues ih =>
    rw [List.map_cons, Option.map_none, gather, SourceLine.text_move, hread]
    dsimp only
    rw [hsome]
    exact (if_neg hcontinues).trans (congrArg (d.close.move m :: ·) ih)
  | case6 r d l ls line r' hread d' hcontinues ih =>
    rw [List.map_cons, Option.map_some, gather, SourceLine.text_move, hread]
    dsimp only
    rw [Open.join_move]
    exact (if_pos hcontinues).trans ih
  | case7 r d l ls line r' hread d' hcontinues ih =>
    rw [List.map_cons, Option.map_some, gather, SourceLine.text_move, hread]
    dsimp only
    rw [Open.join_move]
    exact (if_neg hcontinues).trans (congrArg (d'.close.move m :: ·) ih)

/-- The section with the line of its directive numbered differently. -/
def Section.move (s : Section) : Section := { s with openedAt := m.line s.openedAt }

/-- The error about another line. -/
def NestingError.move : NestingError → NestingError
  | .unmatched directive line => .unmatched directive (m.line line)
  | .afterElse directive line => .afterElse directive (m.line line)
  | .unterminated line => .unterminated (m.line line)

/-- The condition with its line numbered differently. -/
def Undecided.move (u : Undecided) : Undecided := { u with line := m.line u.line }

/-- The line with another number. -/
def LiveLine.move (l : LiveLine) : LiveLine := ⟨l.toSourceLine.move m, l.live⟩

/-- What is made of lines that are numbered differently. -/
def Filtered.move (f : Filtered) : Filtered :=
  ⟨f.lines.map (LiveLine.move m), f.undecided.map (Undecided.move m)⟩

/-- The lines that stay are the same lines. -/
theorem Filtered.live_move (f : Filtered) : (f.move m).live = f.live.map (SourceLine.move m) := by
  show ((f.lines.map (LiveLine.move m)).filter (·.live)).map (·.toSourceLine) =
    ((f.lines.filter (·.live)).map (·.toSourceLine)).map (SourceLine.move m)
  rw [List.filter_map, List.map_map, List.map_map]
  rfl

theorem Filtered.move_append (f g : Filtered) : (f ++ g).move m = f.move m ++ g.move m := by
  unfold move
  rw [lines_append, undecided_append, List.map_append, List.map_append]
  rfl

theorem isLive_move (ss : List Section) : isLive (ss.map (Section.move m)) = isLive ss := by
  cases ss <;> rfl

/-- A directive does the same on another line. -/
theorem enter_move (ss : List Section) (line : Nat) (d : Directive) :
    enter symbols (ss.map (Section.move m)) (m.line line) d =
      ((enter symbols ss line d).map fun r => (r.1.map (Section.move m), r.2)).mapError
        (NestingError.move m) := by
  cases d with
  | opens test =>
    rw [enter_opens, enter_opens, isLive_move]
    rfl
  | other => rfl
  | elif text =>
    cases ss with
    | nil => rfl
    | cons s outer =>
      -- Behind `#else` the error tells where the section was opened, which has moved.
      rw [List.map_cons, enter, enter]
      show (if s.elseSeen then _ else _) = _
      dsimp only
      split <;> rfl
  | otherwise =>
    cases ss with
    | nil => rfl
    | cons s outer =>
      rw [List.map_cons, enter, enter]
      show (if s.elseSeen then _ else _) = _
      split <;> rfl
  | closes => cases ss <;> rfl

/-- A part of a source does the same on other lines. -/
theorem readItem_move (ss : List Section) (i : Item) :
    readItem symbols (ss.map (Section.move m)) (i.move m) =
      ((readItem symbols ss i).map fun r => (r.1.map (Section.move m), r.2.move m)).mapError
        (NestingError.move m) := by
  cases i with
  | ordinary line =>
    show Except.ok (ss.map (Section.move m), (⟨[⟨line.move m, _⟩], []⟩ : Filtered)) = _
    rw [isLive_move]
    rfl
  | directive first more text =>
    show (enter symbols _ (m.line first.number) _).map _ = _
    rw [enter_move, readItem]
    cases enter symbols ss first.number (.ofText text) with
    | error e => rfl
    | ok r =>
      obtain ⟨ss', reported⟩ := r
      -- The lines of the directive are listed, and reported as one occurrence.
      have hresult : directiveResult (first.move m) (more.map (·.move m)) text reported =
          (directiveResult first more text reported).move m := by
        unfold directiveResult Filtered.move
        rw [← List.map_cons (f := (SourceLine.move m ·)), List.map_map, List.map_map]
        cases reported <;> rfl
      exact congrArg (fun f => Except.ok (ss'.map (Section.move m), f)) hresult

/-- What conditional inclusion makes of parts of a source does not depend on the numbers of their
lines. -/
theorem filterItems_move (symbols : SymbolSet) (ss : List Section) (items : List Item) :
    filterItems symbols (ss.map (Section.move m)) (items.map (Item.move m)) =
      ((filterItems symbols ss items).map (Filtered.move m)).mapError (NestingError.move m) := by
  induction items generalizing ss with
  | nil =>
    rw [List.map_nil, filterItems, filterItems, List.getLast?_map]
    cases ss.getLast? <;> rfl
  | cons i items ih =>
    rw [List.map_cons, filterItems_cons, filterItems_cons, readItem_move]
    cases readItem symbols ss i with
    | error e => rfl
    | ok r =>
      obtain ⟨ss', f⟩ := r
      show (filterItems symbols (ss'.map (Section.move m)) _).map _ =
        ((((filterItems symbols ss' items).map (f ++ ·)).map _).mapError _)
      -- The part of the run behind the first item is moved as a whole.
      rw [ih]
      cases filterItems symbols ss' items with
      | error e => rfl
      | ok g => exact congrArg Except.ok (f.move_append m g).symm

/-! ## A finished source -/

/-- The code of a line that starts inside the given comment ends with a backslash, blanks behind it
aside. -/
def EndsJoining (pending : Option Text) (line : SourceLine) : Prop :=
  (readLine [] pending line.text).code.trim.getLast? = some '\\'

/-- The last line of a source belongs to a directive, and its code ends with a backslash. -/
def LeavesDirectiveOpen (source : Text) : Prop :=
  ∃ before last, SourceLine.ofText source = before ++ [last] ∧
    InDirective (Item.ofText source) last ∧ EndsJoining (openAfter none (texts before)) last

namespace Item

/-- The last part is not a directive that a backslash keeps open. -/
def Closed (items : List Item) : Prop :=
  ∀ first more text, items.getLast? = some (.directive first more text) → ¬continues text

/-- A directive whose text ends with a backslash starts on a line whose code does. -/
theorem getLast?_of_continues {code text : Text} (h : directiveText? code = some text)
    (hcontinues : continues text) : code.trim.getLast? = some '\\' := by
  have hlast := eq_of_beq hcontinues
  unfold directiveText? at h
  split at h
  · rename_i cs htrim
    obtain rfl := Option.some.inj h
    have hsuffix : cs.dropWhile (· == '#') <:+ code.trim := by
      rw [htrim]
      exact (List.dropWhile_suffix _).trans (List.suffix_cons '#' cs)
    rw [← hlast]
    refine (Text.getLast?_trim_of_suffix hsuffix (fun c => Text.isBlank_of_getLast?_trim) ?_).symm
    intro hnil
    rw [hnil] at hlast
    cases hlast
  · cases h

/-- When a directive that has taken in lines asks for another one, its text or the code of the last
of them ends with a backslash. -/
theorem Joins.ends {pending : Option Text} {text whole : Text} {more : List SourceLine}
    (h : Joins pending text more whole) (hcontinues : continues whole) :
    (more = [] ∧ whole = text) ∨
      ∃ before last, more = before ++ [last] ∧
        EndsJoining (openAfter pending (texts before)) last := by
  induction h with
  | stop => exact .inl ⟨rfl, rfl⟩
  | @join pending text line more whole _ _ ih =>
    refine .inr ?_
    obtain ⟨rfl, rfl⟩ | ⟨before, last, rfl, hends⟩ := ih hcontinues
    · refine ⟨[], line, rfl, ?_⟩
      have hlast := eq_of_beq hcontinues
      rw [List.getLast?_append_of_ne_nil _ (List.cons_ne_nil _ _)] at hlast
      -- The space is no backslash, so the code of the line has one.
      unfold EndsJoining
      rw [texts_nil, Comment.openAfter_nil]
      cases hcode : (readLine [] pending line.text).code.trim with
      | nil =>
        rw [hcode] at hlast
        cases hlast
      | cons c cs =>
        rw [hcode, List.getLast?_cons_cons] at hlast
        exact hlast
    · exact ⟨line :: before, last, rfl, hends⟩

/-- When the last part is a directive that asks for another line, its last line is the last one, and
the code of that line ends with a backslash. -/
theorem Divides.ends {pending : Option Text} {ls : List SourceLine} {items : List Item}
    (h : Divides pending ls items) {first : SourceLine} {more : List SourceLine} {whole : Text}
    (hlast : items.getLast? = some (.directive first more whole)) (hcontinues : continues whole) :
    ∃ before last, ls = before ++ [last] ∧ last ∈ first :: more ∧
      EndsJoining (openAfter pending (texts before)) last := by
  induction h with
  | nil => cases hlast
  | @ordinary pending line lines items _ _ ih =>
    cases items with
    | nil => cases hlast
    | cons i items =>
      rw [List.getLast?_cons_cons] at hlast
      obtain ⟨before, last, rfl, hmem, hends⟩ := ih hlast
      exact ⟨line :: before, last, rfl, hmem, hends⟩
  | @directive first' more' lines text whole' items hfirst hmore hend _ ih =>
    cases items with
    | nil =>
      cases hlast
      -- The directive is the last part: its last line is its first one or one that it joined.
      obtain rfl := hend hcontinues
      rw [List.append_nil]
      obtain ⟨rfl, rfl⟩ | ⟨before, last, rfl, hends⟩ := hmore.ends hcontinues
      · exact ⟨[], first, rfl, .head _, getLast?_of_continues hfirst hcontinues⟩
      · exact ⟨first :: before, last, rfl, .tail _ List.mem_concat_self, hends⟩
    | cons i items =>
      rw [List.getLast?_cons_cons] at hlast
      obtain ⟨before, last, rfl, hmem, hends⟩ := ih hlast
      refine ⟨first' :: more' ++ before, last, by simp, hmem, ?_⟩
      rw [texts_append, openAfter_append]
      exact hends

/-- A source that leaves no directive open has a last part that is closed. -/
theorem closed_ofText {source : Text} (h : ¬LeavesDirectiveOpen source) :
    Closed (ofText source) := by
  intro first more text hlast hcontinues
  obtain ⟨before, last, hlines, hmem, hends⟩ := (divides_ofText source).ends hlast hcontinues
  exact h ⟨before, last, hlines, ⟨first, more, text, List.mem_of_getLast? hlast, hmem⟩, hends⟩

/-- No lines have no parts. -/
theorem Divides.eq_nil {pending : Option Text} {items : List Item} (h : Divides pending [] items) :
    items = [] := by
  cases h
  rfl

/-- Behind a closed part the lines are divided by themselves. -/
theorem Divides.append {pending : Option Text} {ls more : List SourceLine} {items rest : List Item}
    (h : Divides pending ls items) (hclosed : Closed items)
    (hrest : Divides (openAfter pending (texts ls)) more rest) :
    Divides pending (ls ++ more) (items ++ rest) := by
  -- Parts that are closed are closed without the first one.
  have htail : ∀ {i : Item} {is : List Item}, Closed (i :: is) → Closed is := by
    intro i is hi first more text hlast
    refine hi first more text ?_
    obtain ⟨j, js, rfl⟩ := List.exists_cons_of_ne_nil (List.ne_nil_of_mem
      (List.mem_of_getLast? hlast))
    rwa [List.getLast?_cons_cons]
  induction h with
  | nil => exact hrest
  | ordinary hline _ ih => exact .ordinary hline (ih (htail hclosed) hrest)
  | @directive first more' lines text whole items hfirst hmore hend hdivides ih =>
    rw [List.cons_append, List.append_assoc]
    refine .directive hfirst hmore (fun hcontinues => ?_) (ih (htail hclosed) ?_)
    · -- Only the last directive can ask for another line, and that one does not.
      obtain rfl := hend hcontinues
      obtain rfl := hdivides.eq_nil
      exact absurd hcontinues (hclosed first more' whole rfl)
    · rw [← List.cons_append, texts_append, openAfter_append] at hrest
      exact hrest

/-- Behind a finished source a text has its own parts, with other line numbers. -/
theorem ofText_append {t : Text} (hlines : t.IsEnded) (hdirective : ¬LeavesDirectiveOpen t)
    (hcomment : openAfter none t.lines = none) (u : Text) :
    ofText (t ++ u) = ofText t ++ (ofText u).map (Item.move (.down t.lines.length)) := by
  have hrest : Divides none ((SourceLine.ofText u).map (·.move (.down t.lines.length)))
      ((ofText u).map (Item.move (.down t.lines.length))) := by
    have hmove := gather_move (.down t.lines.length) {} none (SourceLine.ofText u)
    rw [Option.map_none] at hmove
    exact hmove ▸ divides_gather none _
  have happend := (divides_ofText t).append (closed_ofText hdirective)
    (by rw [texts_ofText, hcomment]; exact hrest)
  rw [← SourceLine.ofText_append hlines] at happend
  exact (divides_iff.1 happend).symm

end Item

/-- What conditional inclusion makes of a text behind a finished source is what it makes of the text
by itself, behind what it makes of that source, with other line numbers. -/
theorem filter_append {t : Text} {f : Filtered} (hlines : t.IsEnded)
    (hdirective : ¬LeavesDirectiveOpen t) (hcomment : openAfter none t.lines = none)
    (haccepted : filter symbols t = .ok f) (u : Text) :
    filter symbols (t ++ u) =
      ((filter symbols u).map fun g => f ++ g.move (.down t.lines.length)).mapError
        (NestingError.move (.down t.lines.length)) := by
  have hmove := filterItems_move (.down t.lines.length) symbols [] (Item.ofText u)
  rw [List.map_nil] at hmove
  unfold filter
  rw [Item.ofText_append hlines hdirective hcomment,
    filterItems_append (filterItems_eq_ok_iff.1 haccepted), hmove]
  cases filterItems symbols [] (Item.ofText u) <;> rfl

end Conditional

end NativeBindings
