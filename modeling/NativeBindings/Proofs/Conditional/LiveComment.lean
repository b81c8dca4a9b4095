import Mathlib.Data.List.Chain
import NativeBindings.Proofs.Conditional.Division
import NativeBindings.Proofs.Conditional.Run
import NativeBindings.Scanner

/-!
# Comments in live text

Conditional inclusion and the scanner follow comments each on their own. The first reads all lines
of a source, the second the live ones only. `comments_agree_iff` says when they are at the same
place: as long as no directive leaves a block comment open in front of a live line. Then the scanner
gets the code that a reader of the whole source finds in the live lines. The first live line behind
such a directive starts inside the comment for conditional inclusion and outside it for the scanner,
which takes the rest of the comment for code.

The proof carries `Carries`: behind a line that is not live the scanner is outside comments, and
behind a live one it is where conditional inclusion is. A line that is not live keeps this up
because text goes dead outside comments only (`diesOutside_of_reads`): a directive starts there.
-/

namespace NativeBindings.Conditional

open Comment (readLine readLines_eq openAfter openAfter_append)

/-! ## The two readers -/

/-- The block comment open behind lines for a reader of all of them. -/
def allOpen (lines : List LiveLine) : Option Text := openAfter none (lines.map (·.text))

/-- The block comment open behind lines for a reader of the live ones. -/
def liveOpen (lines : List LiveLine) : Option Text :=
  openAfter none ((lines.filter (·.live)).map (·.text))

/-- Whether the last line of a list is live; in front of all lines text is live. -/
def endsLive (lines : List LiveLine) : Bool := (lines.getLast?.map (·.live)).getD true

@[simp] theorem endsLive_concat (lines : List LiveLine) (l : LiveLine) :
    endsLive (lines ++ [l]) = l.live := by
  unfold endsLive
  rw [List.getLast?_concat]
  rfl

theorem allOpen_concat (lines : List LiveLine) (l : LiveLine) :
    allOpen (lines ++ [l]) = (readLine [] (allOpen lines) l.text).pending := by
  unfold allOpen
  rw [List.map_append, openAfter_append]
  rfl

theorem liveOpen_concat_live (lines : List LiveLine) {l : LiveLine} (hl : l.live = true) :
    liveOpen (lines ++ [l]) = (readLine [] (liveOpen lines) l.text).pending := by
  unfold liveOpen
  rw [List.filter_append, List.filter_cons_of_pos hl, List.map_append, openAfter_append]
  rfl

theorem liveOpen_concat_dead (lines : List LiveLine) {l : LiveLine} (hl : l.live = false) :
    liveOpen (lines ++ [l]) = liveOpen lines := by
  unfold liveOpen
  rw [List.filter_append, List.filter_cons_of_neg (by simp [hl]), List.filter_nil,
    List.append_nil]

/-- At the start of every live line both readers are inside a block comment or neither is. -/
def CommentsAgree (lines : List LiveLine) : Prop :=
  ∀ before l after, lines = before ++ l :: after → l.live = true →
    ((liveOpen before).isSome ↔ (allOpen before).isSome)

/-- A line belongs to one of the directives among the parts of a source. -/
def InDirective (items : List Item) (l : SourceLine) : Prop :=
  ∃ first more text, .directive first more text ∈ items ∧ l ∈ first :: more

/-- A directive leaves a block comment open in front of a live line. -/
def LeavesCommentOpen (items : List Item) (lines : List LiveLine) : Prop :=
  ∃ before d l after, lines = before ++ d :: l :: after ∧ InDirective items d.toSourceLine ∧
    d.live = false ∧ l.live = true ∧ (allOpen (before ++ [d])).isSome

/-! ## Where text goes dead and live -/

/-- No line that is not live follows a live one inside a block comment, where `pending` is open in
front of all lines and text is live there or not. -/
def DiesOutside : Option Text → Bool → List LiveLine → Prop
  | _, _, [] => True
  | pending, live, l :: lines =>
    (live = true → l.live = false → pending = none) ∧
      DiesOutside (readLine [] pending l.text).pending l.live lines

theorem diesOutside_map_dead {pending : Option Text} {ls : List SourceLine}
    {lines : List LiveLine} (h : DiesOutside (openAfter pending (texts ls)) false lines) :
    DiesOutside pending false (ls.map (⟨·, false⟩) ++ lines) := by
  induction ls generalizing pending with
  | nil => exact h
  | cons l ls ih => exact ⟨fun hlive => absurd hlive (by simp), ih h⟩

/-- Text goes dead outside comments only. -/
theorem diesOutside_of_reads {symbols : SymbolSet} {pending : Option Text} {ls : List SourceLine}
    {items : List Item} (hdiv : Item.Divides pending ls items) {ss ss' : List Section}
    {f : Filtered} (h : Reads symbols ss items ss' f) {live : Bool}
    (hlive : live = true → isLive ss = true) : DiesOutside pending live f.lines := by
  induction hdiv generalizing ss f live with
  | nil => cases h; trivial
  | ordinary _ _ ih =>
    cases h with
    | cons hstep hrest =>
      cases hstep
      -- An ordinary line is as live as the sections around it, so text does not go dead here.
      refine ⟨fun hl hdead => ?_, ih hrest id⟩
      have hdead' : isLive ss = false := hdead
      rw [hlive hl] at hdead'
      cases hdead'
  | directive _ _ _ _ ih =>
    cases h with
    | cons hstep hrest =>
      obtain ⟨reported, -, rfl⟩ := readItem_directive hstep
      -- Text goes dead with the first line of the directive, which starts outside comments.
      exact ⟨fun _ _ => rfl, diesOutside_map_dead (ih hrest fun hl => absurd hl (by simp))⟩

theorem DiesOutside.pending_eq_none {pending : Option Text} {live : Bool}
    {before after : List LiveLine} {l : LiveLine}
    (h : DiesOutside pending live (before ++ l :: after)) (hl : l.live = false)
    (hlive : (before.getLast?.map (·.live)).getD live = true) :
    openAfter pending (before.map (·.text)) = none := by
  induction before generalizing pending live with
  | nil => exact h.1 hlive hl
  | cons d before ih =>
    apply ih h.2
    rcases List.eq_nil_or_concat before with rfl | ⟨init, x, rfl⟩
    · simpa using hlive
    · simpa [List.getLast?_cons, List.getLast?_append] using hlive

/-- Only behind a line of a directive text can become live. -/
theorem isChain_inDirective {symbols : SymbolSet} {ss ss' : List Section} {items : List Item}
    {f : Filtered} (h : Reads symbols ss items ss' f) :
    f.lines.IsChain (fun d l => d.live = false → l.live = true →
      InDirective items d.toSourceLine) ∧
      ∀ l ∈ f.lines.head?, l.live = true → isLive ss = true := by
  induction h with
  | nil => simp
  | @cons ss mid ss' i items f g hstep _ ih =>
    -- The directives behind the first part are directives of the whole.
    have hmono : g.lines.IsChain (fun d l => d.live = false → l.live = true →
        InDirective (i :: items) d.toSourceLine) :=
      ih.1.imp fun d l hdl hd hl => by
        obtain ⟨first, more, text, hmem, hline⟩ := hdl hd hl
        exact ⟨first, more, text, List.mem_cons_of_mem i hmem, hline⟩
    rw [Filtered.lines_append, List.isChain_append]
    cases i with
    | ordinary line =>
      cases hstep
      refine ⟨⟨List.isChain_singleton _, hmono, ?_⟩, by simp⟩
      intro d hd l hl hdead hlive
      -- The line is as live as the one behind it, for it leaves the sections as they are.
      obtain rfl : ⟨line, isLive ss⟩ = d := by simpa using hd
      rw [ih.2 l hl hlive] at hdead
      cases hdead
    | directive first more text =>
      obtain ⟨reported, -, rfl⟩ := readItem_directive hstep
      refine ⟨⟨?_, hmono, ?_⟩, by simp [directiveResult]⟩
      · -- The lines of a directive are not live themselves; the last of them may stand in front of
        -- a live one.
        rw [List.isChain_iff_forall_rel_of_append_cons_cons]
        intro d l before after hlines _ hlive
        have hmem : l ∈ (directiveResult first more text reported).lines := by rw [hlines]; simp
        obtain ⟨line, -, rfl⟩ := List.mem_map.1 hmem
        cases hlive
      · intro d hd l _ _ _
        have hmem := List.mem_of_mem_getLast? hd
        obtain ⟨line, hline, rfl⟩ := List.mem_map.1 hmem
        exact ⟨first, more, text, List.mem_cons_self, hline⟩

/-! ## Agreement -/

/-- The scanner is outside comments behind a line that is not live, and where conditional inclusion
is behind a live one. -/
def Carries (lines : List LiveLine) : Prop :=
  liveOpen lines = if endsLive lines then allOpen lines else none

/-- In front of a live line that can be trusted the two readers are at the same place. -/
theorem Carries.liveOpen_eq {before : List LiveLine} (h : Carries before)
    (hsafe : endsLive before = false → allOpen before = none) :
    liveOpen before = allOpen before := by
  unfold Carries at h
  cases hends : endsLive before with
  | true => rw [h, hends, if_pos rfl]
  | false => rw [h, hends, if_neg (by simp), hsafe hends]

/-- `Carries` holds behind every line of a source, as long as no live line behind one that is not
live starts inside a comment. -/
theorem carries_of_safe {symbols : SymbolSet} {source : Text} {f : Filtered}
    (h : filter symbols source = .ok f) {lines : List LiveLine}
    (hsafe : ∀ before l after, lines = before ++ l :: after → Carries before → l.live = true →
      endsLive before = false → allOpen before = none) :
    ∀ before after, lines = before ++ after → (∃ rest, f.lines = lines ++ rest) →
      Carries before := by
  intro before
  induction before using List.reverseRecOn with
  | nil => intro _ _ _; rfl
  | append_singleton before l ih =>
    intro after hlines hprefix
    have hsplit : lines = before ++ l :: after := by rw [hlines, List.append_assoc]; rfl
    have hcarries := ih (l :: after) hsplit hprefix
    unfold Carries
    rw [endsLive_concat]
    cases hl : l.live with
    | true =>
      -- Both readers read the line, from the same place.
      rw [if_pos rfl, liveOpen_concat_live before hl, allOpen_concat,
        hcarries.liveOpen_eq (hsafe before l after hsplit hcarries hl)]
    | false =>
      -- The scanner does not read the line. It is outside comments already, for behind a live line
      -- text goes dead outside comments only.
      rw [if_neg (by simp), liveOpen_concat_dead before hl, hcarries]
      obtain ⟨rest, hrest⟩ := hprefix
      have hdies := diesOutside_of_reads (Item.divides_ofText source)
        (filterItems_eq_ok_iff.1 h) (fun _ => rfl : true = true → isLive [] = true)
      rw [hrest, hsplit, List.append_assoc] at hdies
      cases hends : endsLive before with
      | false => rw [if_neg (by simp)]
      | true => rw [if_pos rfl]; exact hdies.pending_eq_none hl hends

/-- Where no directive leaves a comment open, no live line behind one that is not live starts inside
a comment. -/
theorem allOpen_eq_none {symbols : SymbolSet} {source : Text} {f : Filtered}
    (h : filter symbols source = .ok f) {lines rest : List LiveLine} (hf : f.lines = lines ++ rest)
    (hleaves : ¬ LeavesCommentOpen (Item.ofText source) lines) {before : List LiveLine}
    {l : LiveLine} {after : List LiveLine} (hlines : lines = before ++ l :: after)
    (hl : l.live = true) (hends : endsLive before = false) : allOpen before = none := by
  rcases List.eq_nil_or_concat before with rfl | ⟨init, d, rfl⟩
  · rfl
  -- The line in front is not live and this one is, so the one in front belongs to a directive.
  rw [List.concat_eq_append] at *
  rw [endsLive_concat] at hends
  by_contra hopen
  have hdirective : InDirective (Item.ofText source) d.toSourceLine := by
    have hchain := (isChain_inDirective (filterItems_eq_ok_iff.1 h)).1
    rw [List.isChain_iff_forall_rel_of_append_cons_cons] at hchain
    have hsplit : f.lines = init ++ d :: l :: (after ++ rest) := by
      rw [hf, hlines]
      simp
    exact hchain hsplit hends hl
  refine hleaves ⟨init, d, l, after, by rw [hlines]; simp, hdirective, hends, hl, ?_⟩
  exact Option.isSome_iff_ne_none.2 hopen

/-! ## The code that the scanner gets -/

/-- The code of a line that starts inside the given comment. -/
def codeLine (policy : ScanPolicy) (pending : Option Text) (l : SourceLine) : Scanner.CodeLine :=
  let line := readLine (policy.tags.map (·.toList)) pending l.text
  ⟨l.number, line.code, line.remark⟩

/-- The code that a reader of all lines finds in the live ones. -/
def liveCode (policy : ScanPolicy) (lines : List LiveLine) : List Scanner.CodeLine :=
  ((lines.zip (Scanner.codeLines policy (lines.map (·.toSourceLine)))).filter (·.1.live)).map (·.2)

theorem codeLines_concat (policy : ScanPolicy) (lines : List SourceLine) (l : SourceLine) :
    Scanner.codeLines policy (lines ++ [l]) =
      Scanner.codeLines policy lines ++ [codeLine policy (openAfter none (texts lines)) l] := by
  unfold Scanner.codeLines
  rw [readLines_eq, readLines_eq, List.map_append, Comment.readLinesAfter_append, List.zip_append,
    List.map_append]
  · rfl
  · rw [Comment.length_readLinesAfter, List.length_map]

theorem length_codeLines (policy : ScanPolicy) (lines : List SourceLine) :
    (Scanner.codeLines policy lines).length = lines.length := by
  unfold Scanner.codeLines
  rw [readLines_eq, List.length_map, List.length_zip, Comment.length_readLinesAfter,
    List.length_map, Nat.min_self]

theorem liveCode_concat (policy : ScanPolicy) (lines : List LiveLine) (l : LiveLine) :
    liveCode policy (lines ++ [l]) = liveCode policy lines ++
      if l.live then [codeLine policy (allOpen lines) l.toSourceLine] else [] := by
  have htexts : texts (lines.map (·.toSourceLine)) = lines.map (·.text) := by
    unfold texts
    rw [List.map_map]
    rfl
  unfold liveCode
  rw [List.map_append, List.map_singleton, codeLines_concat, List.zip_append, List.filter_append,
    List.map_append, htexts]
  · cases hl : l.live <;> simp [hl, allOpen]
  · rw [length_codeLines, List.length_map]

/-- Where the two readers are at the same place at every live line, the scanner gets the code that a
reader of all lines finds. -/
theorem codeLines_eq_liveCode (policy : ScanPolicy) {lines : List LiveLine}
    (h : ∀ before l after, lines = before ++ l :: after → l.live = true →
      liveOpen before = allOpen before) :
    ∀ before after, lines = before ++ after →
      Scanner.codeLines policy ((before.filter (·.live)).map (·.toSourceLine)) =
        liveCode policy before := by
  intro before
  induction before using List.reverseRecOn with
  | nil => intro _ _; rfl
  | append_singleton before l ih =>
    intro after hlines
    have hsplit : lines = before ++ l :: after := by rw [hlines, List.append_assoc]; rfl
    rw [liveCode_concat, ← ih (l :: after) hsplit, List.filter_append, List.map_append]
    cases hl : l.live with
    | true =>
      -- The scanner reads a live line from where its own reader stands.
      have hopen : openAfter none (texts ((before.filter (·.live)).map (·.toSourceLine))) =
          liveOpen before := by
        unfold texts liveOpen
        rw [List.map_map]
        rfl
      rw [List.filter_cons_of_pos hl, List.filter_nil, List.map_singleton, codeLines_concat, hopen,
        h before l after hsplit hl, if_pos rfl]
    | false =>
      rw [List.filter_cons_of_neg (by simp [hl]), List.filter_nil, List.map_nil, List.append_nil,
        if_neg (by simp), List.append_nil]

/-! ## The main statement -/

/-- Let a source be accepted and `lines` be its first lines. Conditional inclusion and the scanner
agree at each live line of them whether it starts inside a block comment exactly when no directive
among them leaves a block comment open in front of a live line. When no directive of the source does
so, the scanner gets from the live lines the code that a reader of the whole source finds in them,
so that nothing it reads lies inside a comment. -/
theorem comments_agree_iff {symbols : SymbolSet} {source : Text} {f : Filtered}
    (h : filter symbols source = .ok f) :
    (∀ lines rest, f.lines = lines ++ rest →
      (CommentsAgree lines ↔ ¬ LeavesCommentOpen (Item.ofText source) lines)) ∧
    (¬ LeavesCommentOpen (Item.ofText source) f.lines →
      ∀ policy, Scanner.codeLines policy f.live = liveCode policy f.lines) := by
  -- When no directive leaves a comment open, both readers stand at one place at every live line.
  have hopen : ∀ lines rest, f.lines = lines ++ rest →
      ¬ LeavesCommentOpen (Item.ofText source) lines → ∀ before l after,
        lines = before ++ l :: after → l.live = true → liveOpen before = allOpen before := by
    intro lines rest hf hleaves before l after hlines hl
    have hsafe := fun b x a (hb : lines = b ++ x :: a) => allOpen_eq_none h hf hleaves hb
    have hcarries := carries_of_safe h (fun b x a hb _ => hsafe b x a hb) before (l :: after)
      hlines ⟨rest, hf⟩
    exact hcarries.liveOpen_eq (hsafe before l after hlines hl)
  refine ⟨fun lines rest hf => ⟨?_, ?_⟩, ?_⟩
  · rintro hagree ⟨before, d, l, after, hlines, -, hd, hl, hsome⟩
    -- Agreement alone keeps `Carries` up to the line of the directive.
    have hsafe : ∀ b x a, lines = b ++ x :: a → Carries b → x.live = true → endsLive b = false →
        allOpen b = none := by
      intro b x a hb hcarries hx hends
      rw [Carries, hends, if_neg (by simp)] at hcarries
      have hiff := hagree b x a hb hx
      rw [hcarries] at hiff
      simpa using hiff
    have hcarries := carries_of_safe h hsafe (before ++ [d]) (l :: after) (by rw [hlines]; simp)
      ⟨rest, hf⟩
    rw [Carries, endsLive_concat, hd, if_neg (by simp)] at hcarries
    have hiff := hagree (before ++ [d]) l after (by rw [hlines]; simp) hl
    rw [hcarries] at hiff
    exact absurd (hiff.2 hsome) (by simp)
  · intro hleaves before l after hlines hl
    rw [hopen lines rest hf hleaves before l after hlines hl]
  · intro hleaves policy
    have hcode := codeLines_eq_liveCode policy
      (hopen f.lines [] (List.append_nil _).symm hleaves) f.lines [] (List.append_nil _).symm
    exact hcode

/-- A directive leaves a comment open in front of lines that are not live: the readers agree. -/
theorem comments_agree_behind_dead_group :
    ∃ f, filter (.ofList []) "#ifdef A /* x\n*/\n#endif\nint b;".toList = .ok f ∧
      CommentsAgree f.lines ∧
      Scanner.codeLines {} f.live = [⟨4, "int b;".toList, none⟩] := by
  have h : filter (.ofList []) "#ifdef A /* x\n*/\n#endif\nint b;".toList =
      .ok ⟨[⟨⟨1, "#ifdef A /* x".toList⟩, false⟩, ⟨⟨2, "*/".toList⟩, false⟩,
        ⟨⟨3, "#endif".toList⟩, false⟩, ⟨⟨4, "int b;".toList⟩, true⟩], []⟩ := by decide +kernel
  obtain ⟨hagree, hcode⟩ := comments_agree_iff h
  refine ⟨_, h, (hagree _ [] rfl).2 ?_, (hcode ?_ {}).trans (by decide +kernel)⟩ <;>
  · rintro ⟨before, d, l, after, hlines, -, -, hl, hopen⟩
    rcases before with _ | ⟨d1, _ | ⟨d2, _ | ⟨d3, before⟩⟩⟩
    · cases hlines
      cases hl
    · cases hlines
      cases hl
    · cases hlines
      revert hopen
      decide +kernel
    · have hlength := congrArg List.length hlines
      simp only [List.length_append, List.length_cons, List.length_nil] at hlength
      omega

/-- A directive leaves a comment open in front of a live line: the scanner finds a declaration
inside the comment. -/
theorem hidden_declaration_found :
    ∃ f, filter (.ofList [])
        "#define X /* start\nRH_C_FUNCTION void hidden(int a);\n*/".toList = .ok f ∧
      ¬ CommentsAgree f.lines ∧
      Scanner.scan {} ⟨"t.cpp"⟩ f.live =
        [.declared ⟨⟨⟨"t.cpp"⟩, 2⟩, "void", "hidden", [⟨"int", "a"⟩], none, none⟩] := by
  refine ⟨⟨[⟨⟨1, "#define X /* start".toList⟩, false⟩,
    ⟨⟨2, "RH_C_FUNCTION void hidden(int a);".toList⟩, true⟩, ⟨⟨3, "*/".toList⟩, true⟩], []⟩,
    by decide +kernel, fun hagree => ?_, by decide +kernel⟩
  have hiff := hagree [_] _ [_] rfl rfl
  revert hiff
  decide +kernel

end NativeBindings.Conditional
