import Mathlib.Data.List.Basic
import NativeBindings.Conditional.Directive
import NativeBindings.Proofs.Comment.Carry

/-!
# How a source is divided

`Divides` states which parts a source has, line by line and without the reader's bookkeeping: a line
that starts inside a block comment, or whose code does not start with `#`, is ordinary, and every
other line starts a directive that goes on as long as its text ends with a backslash. The comment
that each line starts in is the one that all lines in front of it leave open, whatever they are part
of. `divides_iff` shows that `Item.ofText` divides every source like this, which is the only way.

Two facts are drawn from it: the parts hold the lines of the source, each once and in order
(`flatMap_lines_ofText`), and so no two directives start on the same line
(`nodup_directiveLines_ofText`).
-/

namespace NativeBindings.Conditional

open Comment (LineReader readLine openAfter openAfter_append strip_ofPending)

/-- The texts of lines. -/
def texts (lines : List SourceLine) : List Text := lines.map (·.text)

@[simp] theorem texts_nil : texts [] = [] := rfl

@[simp] theorem texts_cons (l : SourceLine) (lines : List SourceLine) :
    texts (l :: lines) = l.text :: texts lines := rfl

@[simp] theorem texts_append (lines more : List SourceLine) :
    texts (lines ++ more) = texts lines ++ texts more := by
  unfold texts
  rw [List.map_append]

namespace Item

/-- A directive with the given text takes in further lines, in front of which `pending` is open, and
has the text `whole` in the end. -/
inductive Joins : Option Text → Text → List SourceLine → Text → Prop
  /-- It takes in no line. -/
  | stop (pending : Option Text) (text : Text) : Joins pending text [] text
  /-- The code of the next line takes the place of the backslash. -/
  | join {pending : Option Text} {text : Text} {line : SourceLine} {more : List SourceLine}
      {whole : Text} (hcontinues : continues text)
      (hmore : Joins (readLine [] pending line.text).pending
        (text.dropLast ++ ' ' :: (readLine [] pending line.text).code.trim) more whole) :
      Joins pending text (line :: more) whole

/-- The lines of a source, in front of which `pending` is open, have the given parts. -/
inductive Divides : Option Text → List SourceLine → List Item → Prop
  /-- No lines have no parts. -/
  | nil (pending : Option Text) : Divides pending [] []
  /-- A line that starts inside a block comment or whose code does not start with `#`. -/
  | ordinary {pending : Option Text} {line : SourceLine} {lines : List SourceLine}
      {items : List Item}
      (hline : pending.isSome ∨ directiveText? (readLine [] pending line.text).code = none)
      (hrest : Divides (readLine [] pending line.text).pending lines items) :
      Divides pending (line :: lines) (.ordinary line :: items)
  /-- A line that starts a directive, and the lines that the directive takes in. -/
  | directive {first : SourceLine} {more lines : List SourceLine} {text whole : Text}
      {items : List Item}
      (hfirst : directiveText? (readLine [] none first.text).code = some text)
      (hmore : Joins (readLine [] none first.text).pending text more whole)
      (hend : continues whole → lines = [])
      (hrest : Divides (openAfter none (texts (first :: more))) lines items) :
      Divides none (first :: (more ++ lines)) (.directive first more whole :: items)

/-- The reader leaves a directive that a backslash keeps open where the directive ends. -/
theorem gather_some (pending : Option Text) (d : Open) (ls : List SourceLine)
    (hd : continues d.text) :
    ∃ more lines whole, ls = more ++ lines ∧ Joins pending d.text more whole ∧
      (continues whole → lines = []) ∧
      gather (.ofPending pending) (some d) ls = .directive d.first (d.more ++ more) whole ::
        gather (.ofPending (openAfter pending (texts more))) none lines := by
  induction ls generalizing pending d with
  | nil =>
    refine ⟨[], [], d.text, rfl, .stop pending d.text, fun _ => rfl, ?_⟩
    simp [gather, Open.close]
  | cons l ls ih =>
    rw [gather, strip_ofPending]
    dsimp only
    set line := readLine [] pending l.text with hline
    -- The directive goes on behind this line, or the line is its last one.
    by_cases hj : continues (d.join l line.code).text
    · obtain ⟨more, lines, whole, hls, hmore, hend, hgather⟩ :=
        ih line.pending (d.join l line.code) hj
      refine ⟨l :: more, lines, whole, by rw [hls, List.cons_append], .join hd hmore, hend, ?_⟩
      rw [if_pos hj, hgather]
      simp [Open.join, hline]
    · refine ⟨[l], ls, (d.join l line.code).text, rfl, .join hd (.stop _ _),
        fun h => absurd h hj, ?_⟩
      rw [if_neg hj]
      simp [Open.close, Open.join, hline]

/-- The reader divides every list of lines. -/
theorem divides_gather (pending : Option Text) (ls : List SourceLine) :
    Divides pending ls (gather (.ofPending pending) none ls) := by
  -- A directive takes in several lines at once, so the induction is on the number of lines left.
  induction hn : ls.length using Nat.strongRecOn generalizing pending ls with
  | ind n ih =>
    subst hn
    cases ls with
    | nil => rw [gather]; exact .nil pending
    | cons l ls =>
      rw [gather, strip_ofPending, LineReader.inBlock_ofPending]
      dsimp only
      by_cases hp : pending.isSome
      · rw [if_pos hp]
        exact .ordinary (.inl hp) (ih ls.length (by simp) _ _ rfl)
      · obtain rfl : pending = none := by simpa using hp
        rw [if_neg hp]
        cases htext : directiveText? (readLine [] none l.text).code with
        | none => exact .ordinary (.inr htext) (ih ls.length (by simp) _ _ rfl)
        | some text =>
          -- The directive joins further lines, or stops at its first one.
          by_cases hc : continues text
          · obtain ⟨more, lines, whole, rfl, hmore, hend, hgather⟩ :=
              gather_some (readLine [] none l.text).pending ⟨l, [], text⟩ ls hc
            have hlength : lines.length < (l :: (more ++ lines)).length := by
              rw [List.length_cons, List.length_append]
              omega
            simp only [if_pos hc, hgather]
            exact .directive htext hmore hend (ih lines.length hlength _ _ rfl)
          · simp only [if_neg hc]
            exact .directive htext (.stop _ _) (fun h => absurd h hc)
              (ih ls.length (by simp) _ _ rfl)

/-- A source is divided from outside any comment. -/
theorem divides_ofText (source : Text) :
    Divides none (SourceLine.ofText source) (ofText source) :=
  divides_gather none (SourceLine.ofText source)

/-- A directive ends on one line only, and has one text. -/
theorem Joins.unique {pending : Option Text} {text whole whole' : Text}
    {more more' lines lines' : List SourceLine} (h : Joins pending text more whole)
    (h' : Joins pending text more' whole') (hlines : more ++ lines = more' ++ lines')
    (hend : continues whole → lines = []) (hend' : continues whole' → lines' = []) :
    more = more' ∧ lines = lines' ∧ whole = whole' := by
  induction h generalizing more' with
  | stop pending text =>
    -- A text that asks for another line ends with the lines only, so both stop here.
    cases h' with
    | stop => exact ⟨rfl, hlines, rfl⟩
    | join hcontinues _ =>
      rw [hend hcontinues] at hlines
      cases hlines
  | join hcontinues _ ih =>
    cases h' with
    | stop =>
      rw [hend' hcontinues] at hlines
      cases hlines
    | join _ hmore' =>
      obtain ⟨rfl, hrest⟩ := List.cons.inj hlines
      obtain ⟨rfl, hlines', hwhole⟩ := ih hmore' hrest hend
      exact ⟨rfl, hlines', hwhole⟩

/-- Lines have one division only. -/
theorem Divides.unique {pending : Option Text} {ls : List SourceLine} {items items' : List Item}
    (h : Divides pending ls items) (h' : Divides pending ls items') : items = items' := by
  induction h generalizing items' with
  | nil =>
    cases h'
    rfl
  | ordinary hline _ ih =>
    generalize hls : _ :: _ = ls at h'
    cases h' with
    | nil => cases hls
    | ordinary _ hrest' =>
      cases hls
      rw [ih hrest']
    | directive hfirst _ _ _ =>
      cases hls
      -- A line inside a comment, or one without the text of a directive, starts no directive.
      rcases hline with hline | hline
      · cases hline
      · rw [hfirst] at hline
        cases hline
  | directive hfirst hmore hend _ ih =>
    generalize hls : _ :: _ = ls at h'
    cases h' with
    | nil => cases hls
    | ordinary hline' _ =>
      cases hls
      rcases hline' with hline' | hline'
      · cases hline'
      · rw [hfirst] at hline'
        cases hline'
    | directive hfirst' hmore' hend' hrest' =>
      obtain ⟨rfl, hlines⟩ := List.cons.inj hls
      rw [hfirst] at hfirst'
      cases hfirst'
      -- Both directives take in the same lines, so the rest starts on the same line.
      obtain ⟨rfl, rfl, rfl⟩ := hmore.unique hmore' hlines hend hend'
      rw [ih hrest']

/-- `ofText` gives the division of a source. -/
theorem divides_iff {source : Text} {items : List Item} :
    Divides none (SourceLine.ofText source) items ↔ items = ofText source := by
  constructor
  · intro h
    exact h.unique (divides_ofText source)
  · rintro rfl
    exact divides_ofText source

/-- The parts hold the lines, each once and in order. -/
theorem Divides.flatMap_lines {pending : Option Text} {ls : List SourceLine} {items : List Item}
    (h : Divides pending ls items) : items.flatMap Item.lines = ls := by
  induction h with
  | nil => rfl
  | ordinary _ _ ih => rw [List.flatMap_cons, ih]; rfl
  | directive _ _ _ _ ih => rw [List.flatMap_cons, ih]; rfl

/-- The parts of a source hold its lines, each once and in order. -/
theorem flatMap_lines_ofText (source : Text) :
    (ofText source).flatMap Item.lines = SourceLine.ofText source :=
  (divides_ofText source).flatMap_lines

/-- The number of the line on which a directive starts. -/
def directiveLine? : Item → Option Nat
  | .ordinary _ => none
  | .directive first _ _ => some first.number

/-- The numbers of the lines on which directives start. -/
def directiveLines (items : List Item) : List Nat := items.filterMap directiveLine?

@[simp] theorem directiveLines_nil : directiveLines [] = [] := rfl

@[simp] theorem directiveLines_ordinary (line : SourceLine) (items : List Item) :
    directiveLines (.ordinary line :: items) = directiveLines items := rfl

@[simp] theorem directiveLines_directive (first : SourceLine) (more : List SourceLine)
    (text : Text) (items : List Item) :
    directiveLines (.directive first more text :: items) = first.number :: directiveLines items :=
  rfl

@[simp] theorem directiveLines_append (items more : List Item) :
    directiveLines (items ++ more) = directiveLines items ++ directiveLines more := by
  unfold directiveLines
  rw [List.filterMap_append]

/-- Directives start on lines of their parts, in order. -/
theorem directiveLines_sublist (items : List Item) :
    (directiveLines items).Sublist ((items.flatMap Item.lines).map (·.number)) := by
  induction items with
  | nil => simp
  | cons i items ih =>
    rw [List.flatMap_cons, List.map_append]
    cases i with
    | ordinary line => exact ih.trans (List.sublist_append_right _ _)
    | directive first more text =>
      rw [directiveLines_directive]
      exact .cons_cons first.number (ih.trans (List.sublist_append_right _ _))

end Item

/-- The lines of a source are numbered in order. -/
theorem SourceLine.nodup_number_ofText (source : Text) :
    ((SourceLine.ofText source).map (·.number)).Nodup := by
  have hsnd : (SourceLine.ofText source).map (·.number) =
      ((Text.lines source).zipIdx 1).map Prod.snd := by
    unfold SourceLine.ofText
    rw [List.map_map]
    rfl
  rw [hsnd, List.zipIdx_map_snd]
  exact List.nodup_range'

/-- No two directives of a source start on the same line. -/
theorem Item.nodup_directiveLines_ofText (source : Text) :
    (directiveLines (ofText source)).Nodup := by
  have hsub := directiveLines_sublist (ofText source)
  rw [flatMap_lines_ofText] at hsub
  exact (SourceLine.nodup_number_ofText source).sublist hsub

end NativeBindings.Conditional
