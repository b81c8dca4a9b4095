import NativeBindings.Proofs.Conditional.PhysicalLine

/-!
# The lines of directives

`OnDirective` says which lines belong to a directive, by what stands in front of them and without
the parts of a source: a line outside block comments whose code starts with `#`, and every line
behind one whose code ends with a backslash. A text is divided in the same way
(`Item.Divides.dead`), so conditional inclusion leaves none of these lines live, and what it returns
are the lines of the source with their numbers (`filter_marks_lines`).

Behind lines of which the last one asks for no further line, a line belongs to a directive by the
lines since then only (`OnDirective.of_append`). This is what leads from one part of a source to the
next one.
-/

namespace NativeBindings.Conditional

open Comment (readLine openAfter openAfter_append)

/-- A line belongs to a directive, where `pending` is open in front of the lines before it. -/
inductive OnDirective (pending : Option Text) : List SourceLine → SourceLine → Prop
  /-- Outside block comments the code of a directive starts with `#`. -/
  | starts {before : List SourceLine} {line : SourceLine}
      (houtside : openAfter pending (texts before) = none)
      (hmark : (readLine [] none line.text).code.trim.head? = some '#') :
      OnDirective pending before line
  /-- A backslash at the end of its code joins the next line to it. -/
  | joined {before : List SourceLine} {line next : SourceLine} (h : OnDirective pending before line)
      (hends : EndsJoining (openAfter pending (texts before)) line) :
      OnDirective pending (before ++ [line]) next

/-- Where the last of the first lines joins nothing, only the other ones in front of a line tell
whether it belongs to a directive. -/
theorem OnDirective.of_append {pending : Option Text} {front before : List SourceLine}
    {line : SourceLine} (h : OnDirective pending (front ++ before) line)
    (hfront : ∀ init last, front = init ++ [last] → OnDirective pending init last →
      ¬EndsJoining (openAfter pending (texts init)) last) :
    OnDirective (openAfter pending (texts front)) before line := by
  generalize hall : front ++ before = all at h
  induction h generalizing before with
  | starts houtside hmark =>
    rw [← hall, texts_append, openAfter_append] at houtside
    exact .starts houtside hmark
  | @joined init last next h hends ih =>
    rcases List.eq_nil_or_concat before with rfl | ⟨before, b, rfl⟩
    · rw [List.append_nil] at hall
      exact absurd hends (hfront init last hall h)
    · rw [List.concat_eq_append, ← List.append_assoc] at hall
      obtain ⟨rfl, hlast⟩ := List.append_inj' hall rfl
      obtain rfl := List.singleton_inj.1 hlast
      rw [texts_append, openAfter_append] at hends
      rw [List.concat_eq_append]
      exact .joined (ih rfl) hends

namespace Item

/-- A directive that starts on a line whose code ends with a backslash asks for another line. -/
theorem continues_of_getLast? {code text : Text} (h : directiveText? code = some text)
    (hends : code.trim.getLast? = some '\\') : continues text := by
  unfold directiveText? at h
  split at h
  · rename_i cs htrim
    obtain rfl := Option.some.inj h
    rw [htrim] at hends
    have hrun := List.takeWhile_append_dropWhile (p := (· == '#')) (l := cs)
    -- The run of `#` ends in front of the backslash.
    have hlast : (cs.dropWhile (· == '#')).getLast? = some '\\' := by
      rw [← hrun, ← List.cons_append] at hends
      cases hrest : cs.dropWhile (· == '#') with
      | cons c rest =>
        rwa [hrest, List.getLast?_append_of_ne_nil _ (List.cons_ne_nil c rest)] at hends
      | nil =>
        rw [hrest, List.append_nil] at hends
        rcases List.mem_cons.1 (List.mem_of_getLast? hends) with heq | hmem
        · cases heq
        · have hmark := List.mem_takeWhile_imp hmem
          cases hmark
    -- So the text of the directive ends with it, and is not empty.
    have hne : Text.trim (cs.dropWhile (· == '#')) ≠ [] := fun hnil =>
      absurd (Text.trim_eq_nil_iff.1 hnil '\\' (List.mem_of_getLast? hlast)) (by decide)
    have htext := Text.getLast?_trim_of_suffix List.suffix_rfl
      (fun c hc => by rw [hlast] at hc; cases hc; decide) hne
    unfold continues
    rw [htext, hlast]
    rfl
  · cases h

/-- When the code of the last line that a directive takes in ends with a backslash, the directive
asks for another one. -/
theorem Joins.continues_of_endsJoining {pending : Option Text} {text whole : Text}
    {more init : List SourceLine} {last : SourceLine} (h : Joins pending text more whole)
    (hmore : more = init ++ [last])
    (hends : EndsJoining (openAfter pending (texts init)) last) : continues whole := by
  induction h generalizing init with
  | stop => simp at hmore
  | @join pending text line more whole _ hrest ih =>
    cases init with
    | cons l init =>
      rw [List.cons_append] at hmore
      obtain ⟨rfl, htail⟩ := List.cons.inj hmore
      exact ih htail hends
    | nil =>
      obtain ⟨rfl, rfl⟩ := List.cons.inj hmore
      cases hrest
      unfold Item.continues
      have hcode : (readLine [] pending line.text).code.trim.getLast? = some '\\' := hends
      rw [List.getLast?_append_of_ne_nil _ (List.cons_ne_nil _ _), List.getLast?_cons, hcode]
      rfl

/-- Behind a directive that asks for no further line, the lines since then tell whether a line
belongs to a directive. -/
theorem Joins.onDirective {first line : SourceLine} {more before : List SourceLine}
    {text whole : Text} (hfirst : directiveText? (readLine [] none first.text).code = some text)
    (hmore : Joins (readLine [] none first.text).pending text more whole)
    (hend : ¬continues whole) (h : OnDirective none (first :: more ++ before) line) :
    OnDirective (openAfter none (texts (first :: more))) before line := by
  refine h.of_append fun init last hsplit _ hends => hend ?_
  cases init with
  | cons l init =>
    rw [List.cons_append] at hsplit
    obtain ⟨rfl, htail⟩ := List.cons.inj hsplit
    exact hmore.continues_of_endsJoining htail hends
  | nil =>
    obtain ⟨rfl, rfl⟩ := List.cons.inj hsplit
    cases hmore
    exact continues_of_getLast? hfirst hends

/-- An ordinary line belongs to no directive that starts with it. -/
theorem not_onDirective_of_ordinary {pending : Option Text} {line : SourceLine}
    (h : pending.isSome ∨ directiveText? (readLine [] pending line.text).code = none) :
    ¬OnDirective pending [] line := by
  generalize hnil : [] = before
  rintro (⟨houtside, hmark⟩ | -)
  · subst hnil
    obtain rfl : pending = none := houtside
    obtain ⟨cs, hcs⟩ := List.head?_eq_some_iff.1 hmark
    rcases h with h | h
    · cases h
    · unfold directiveText? at h
      rw [hcs] at h
      cases h
  · simp at hnil

/-- No line of a directive is live. -/
theorem Divides.dead {symbols : SymbolSet} {pending : Option Text} {ls : List SourceLine}
    {items : List Item} (hdiv : Divides pending ls items) {ss ss' : List Section} {f : Filtered}
    (h : Reads symbols ss items ss' f) {before after : List LiveLine} {l : LiveLine}
    (hlines : f.lines = before ++ l :: after)
    (hl : OnDirective pending (before.map (·.toSourceLine)) l.toSourceLine) : l.live = false := by
  induction hdiv generalizing ss f before with
  | nil =>
    cases h
    simp at hlines
  | @ordinary pending line lines items hline _ ih =>
    -- The first line is no part of a directive, so the line lies behind it.
    have hnot := not_onDirective_of_ordinary hline
    cases h with
    | @cons _ _ _ _ _ f g hstep hrest =>
      cases hstep
      have hlines' : ⟨line, isLive ss⟩ :: g.lines = before ++ l :: after := hlines
      cases before with
      | nil =>
        obtain ⟨rfl, -⟩ := List.cons.inj hlines'
        exact absurd hl hnot
      | cons b before =>
        obtain ⟨rfl, hg⟩ := List.cons.inj hlines'
        have hl' : OnDirective pending ([line] ++ before.map (·.toSourceLine)) l.toSourceLine := hl
        refine ih hrest hg (hl'.of_append fun init last hsplit hlast => ?_)
        cases init with
        | nil =>
          obtain rfl := List.singleton_inj.1 hsplit
          exact absurd hlast hnot
        | cons x init => simp at hsplit
  | @directive first more lines text whole items hfirst hmore hend hrestdiv ih =>
    cases h with
    | @cons _ _ _ _ _ f g hstep hrest =>
      obtain ⟨reported, -, rfl⟩ := readItem_directive hstep
      have hlines' : (first :: more).map (LiveLine.mk · false) ++ g.lines = before ++ l :: after :=
        hlines
      have hbehind : ∀ mid, before = (first :: more).map (LiveLine.mk · false) ++ mid →
          g.lines = mid ++ l :: after → l.live = false := by
        rintro mid rfl hg
        -- There is a line behind the directive, so the directive asks for no further one.
        have hstops : ¬continues whole := by
          intro hcontinues
          obtain rfl := hend hcontinues
          obtain rfl := hrestdiv.eq_nil
          cases hrest
          simp at hg
        have hown : ((first :: more).map (LiveLine.mk · false)).map (·.toSourceLine) =
            first :: more := by
          rw [List.map_map]
          exact List.map_id _
        rw [List.map_append, hown] at hl
        exact ih hrest hg (hmore.onDirective hfirst hstops hl)
      -- The line lies behind the directive, or is one of its own, none of which is live.
      rcases List.append_eq_append_iff.1 hlines' with ⟨mid, hbefore, hg⟩ | ⟨mid, hown, hg⟩
      · exact hbehind mid hbefore hg
      · cases mid with
        | nil => exact hbehind [] (by simpa using hown.symm) (by simpa using hg.symm)
        | cons m mid =>
          obtain ⟨rfl, -⟩ := List.cons.inj hg
          have hmem : l ∈ (first :: more).map (LiveLine.mk · false) := by rw [hown]; simp
          obtain ⟨line, -, rfl⟩ := List.mem_map.1 hmem
          rfl

end Item

variable {symbols : SymbolSet} {source : Text} {f : Filtered}

/-- What conditional inclusion returns are the lines of the source, each once and in order, the one
at place `i` with the number `i + 1`; and no line of a directive is live. -/
theorem filter_marks_lines (h : filter symbols source = .ok f) :
    (∀ i : Nat, f.lines[i]?.map (·.toSourceLine) = source.lines[i]?.map (SourceLine.mk (i + 1))) ∧
      ∀ before l after, f.lines = before ++ l :: after →
        OnDirective none (before.map (·.toSourceLine)) l.toSourceLine → l.live = false := by
  refine ⟨fun i => ?_, fun before l after hlines hl => ?_⟩
  · rw [← List.getElem?_map, toSourceLine_lines h]
    unfold SourceLine.ofText
    rw [List.getElem?_map, List.getElem?_zipIdx, Option.map_map]
    cases source.lines[i]? with
    | none => rfl
    | some text => exact congrArg (fun n => some (SourceLine.mk n text)) (Nat.add_comm 1 i)
  · exact (Item.divides_ofText source).dead (filterItems_eq_ok_iff.1 h) hlines hl

/-- A comment hides the directives in it, a backslash joins a line to the directive behind it, and
another one stands at the end of the source. -/
theorem filter_marks_lines_seven :
    let source : Text := ("#ifdef A /* \\\n# else \\\n*/ #endif\nint a; // \\\n" ++
      "/**/ # endif \\ \nint b; //\n#define M \\").toList
    let line : Nat → String → SourceLine := fun n text => ⟨n, text.toList⟩
    ∃ f, filter (.ofList ["A"]) source = .ok f ∧
      f.lines[5]?.map (·.toSourceLine) = some (line 6 "int b; //") ∧
      OnDirective none ((f.lines.take 5).map (·.toSourceLine)) (line 6 "int b; //") ∧
      f.live = [line 2 "# else \\", line 3 "*/ #endif", line 4 "int a; // \\"] ∧
      ∀ l ∈ f.lines[5]?, l.live = false := by
  intro source line
  let f : Filtered := ⟨[⟨line 1 "#ifdef A /* \\", false⟩, ⟨line 2 "# else \\", true⟩,
    ⟨line 3 "*/ #endif", true⟩, ⟨line 4 "int a; // \\", true⟩,
    ⟨line 5 "/**/ # endif \\ ", false⟩, ⟨line 6 "int b; //", false⟩,
    ⟨line 7 "#define M \\", false⟩], []⟩
  have h : filter (.ofList ["A"]) source = .ok f := by decide +kernel
  have hfirst : OnDirective none ((f.lines.take 4).map (·.toSourceLine))
      (line 5 "/**/ # endif \\ ") := .starts (by decide +kernel) (by decide +kernel)
  have hsecond : OnDirective none ((f.lines.take 5).map (·.toSourceLine)) (line 6 "int b; //") :=
    hfirst.joined (by decide +kernel : (readLine [] _ _).code.trim.getLast? = some '\\')
  obtain ⟨hlines, hdead⟩ := filter_marks_lines h
  refine ⟨f, h, (hlines 5).trans (by decide +kernel), hsecond, by decide +kernel, ?_⟩
  intro l hl
  cases hl
  exact hdead (f.lines.take 5) _ (f.lines.drop 6) rfl hsecond

end NativeBindings.Conditional
