import Mathlib.Data.List.Nodup
import NativeBindings.Pass
import NativeBindings.Proofs.Conditional.LiveComment
import NativeBindings.Proofs.Text.Words

/-!
# Dead lines

A line that is not live reaches nothing but the reader that divides the source, and the lines behind
it, by the comment that it leaves open. A line without the characters `#`, `/` and `*` starts no
directive and leaves a comment open exactly when it starts in one, quotes or not. So such a line
may be any other one: the source is divided in the same way, up to the line itself
(`Item.Divides.replace`), a run over its parts takes the same steps (`Reads.replace`), and what is
left for the scanner does not change (`scanSource_of_dead_line`).

The text of the comment in front of the lines behind it does change. It is compared with nothing
there, as conditional inclusion keeps no comments (`Item.Divides.congr`).
-/

namespace NativeBindings.Conditional

open Comment (readLine readLine_eq placeOf)

/-- A text has none of the characters that delimit comments and start directives. -/
def Unmarked (t : Text) : Prop := '#' ∉ t ∧ '/' ∉ t ∧ '*' ∉ t

instance (t : Text) : Decidable (Unmarked t) :=
  inferInstanceAs (Decidable ('#' ∉ t ∧ '/' ∉ t ∧ '*' ∉ t))

/-- The code of an unmarked line starts no directive. -/
theorem Unmarked.directiveText?_eq_none {t : Text} (h : Unmarked t) (pending : Option Text) :
    Item.directiveText? (readLine [] pending t).code = none := by
  have hcode : '#' ∉ (readLine [] pending t).code := by
    rw [readLine_eq]
    exact fun hmem => (Comment.mem_code_readFrom hmem).elim h.1 (by decide)
  have htrim : '#' ∉ (readLine [] pending t).code.trim := fun hmem =>
    hcode ((Text.trim_sublist _).subset hmem)
  unfold Item.directiveText?
  split
  · rename_i cs heq
    exact absurd (heq ▸ List.mem_cons_self) htrim
  · rfl

/-- Behind an unmarked line a comment is open exactly when one is open in front of it. -/
theorem Unmarked.isSome_pending {t : Text} (h : Unmarked t) (pending : Option Text) :
    (readLine [] pending t).pending.isSome = pending.isSome := by
  rw [Bool.eq_iff_iff, readLine_eq, Comment.isSome_pending_readFrom [] _ t h.2.1 h.2.2]
  cases pending <;> simp [placeOf]

/-! ## The parts of the source -/

namespace Item

/-- How lines are divided depends on whether a comment is open in front of them, not on its text. -/
theorem Divides.congr {pending pending' : Option Text} {ls : List SourceLine} {items : List Item}
    (h : Divides pending ls items) (hsome : pending.isSome = pending'.isSome) :
    Divides pending' ls items := by
  induction h generalizing pending' with
  | nil => exact .nil pending'
  | @ordinary pending line lines items hline _ ih =>
    obtain ⟨hcode, hpending⟩ := Comment.readLine_congr hsome line.text
    rw [hsome, hcode] at hline
    exact .ordinary hline (ih hpending)
  | directive hfirst hmore hend hrest _ =>
    -- A directive starts outside comments, where there is no text to differ.
    obtain rfl : pending' = none := by simpa using hsome.symm
    exact .directive hfirst hmore hend hrest

/-- An unmarked line outside directives can be replaced by another one in lines and parts alike. -/
theorem Divides.replace {pending : Option Text} {ls : List SourceLine} {items later : List Item}
    {l : SourceLine} (h : Divides pending ls (items ++ .ordinary l :: later)) (l' : SourceLine)
    (hl : Unmarked l.text) (hl' : Unmarked l'.text) :
    ∃ before after, ls = before ++ l :: after ∧
      Divides pending (before ++ l' :: after) (items ++ .ordinary l' :: later) := by
  induction items generalizing pending ls with
  | nil =>
    cases h with
    | @ordinary _ _ lines _ _ hrest =>
      have hsome := (hl.isSome_pending pending).trans (hl'.isSome_pending pending).symm
      exact ⟨[], lines, rfl, .ordinary (.inr (hl'.directiveText?_eq_none pending))
        (hrest.congr hsome)⟩
  | cons i items ih =>
    cases h with
    | @ordinary _ line lines _ hline hrest =>
      obtain ⟨before, after, rfl, hdivides⟩ := ih hrest
      exact ⟨line :: before, after, rfl, .ordinary hline hdivides⟩
    | @directive first more lines text whole _ hfirst hmore hend hrest =>
      obtain ⟨before, after, rfl, hdivides⟩ := ih hrest
      refine ⟨first :: (more ++ before), after, by simp, ?_⟩
      rw [List.cons_append, List.append_assoc]
      -- Lines follow the directive, so it ends by itself.
      exact .directive hfirst hmore (fun hcontinues => by simpa using hend hcontinues) hdivides

end Item

instance (items : List Item) (l : SourceLine) : Decidable (InDirective items l) :=
  decidable_of_iff (∃ i ∈ items, (Item.directiveLine? i).isSome ∧ l ∈ i.lines) <| by
    constructor
    · rintro ⟨_ | ⟨first, more, text⟩, hmem, hdirective, hl⟩
      · cases hdirective
      · exact ⟨first, more, text, hmem, hl⟩
    · rintro ⟨first, more, text, hmem, hl⟩
      exact ⟨.directive first more text, hmem, rfl, hl⟩

/-! ## The run over the parts -/

/-- What conditional inclusion makes of a line outside directives. -/
def lineResult (l : SourceLine) (live : Bool) : Filtered := ⟨[⟨l, live⟩], []⟩

/-- A run over parts takes the same steps whichever line stands at one of them. -/
theorem Reads.replace {symbols : SymbolSet} {ss ss' : List Section} {items later : List Item}
    {l : SourceLine} {f : Filtered}
    (h : Reads symbols ss (items ++ .ordinary l :: later) ss' f) (l' : SourceLine) :
    ∃ g live k, f = g ++ (lineResult l live ++ k) ∧
      Reads symbols ss (items ++ .ordinary l' :: later) ss' (g ++ (lineResult l' live ++ k)) := by
  obtain ⟨mid, g, rest, hitems, hrest, rfl⟩ := h.of_append
  cases hrest with
  | @cons _ _ _ _ _ _ k hstep hlater =>
    cases hstep
    exact ⟨g, isLive mid, k, rfl, hitems.append (.cons rfl hlater)⟩

/-! ## The source -/

/-- The lines of a text in front of a line and behind it, with their numbers. -/
theorem SourceLine.ofText_eq {source : Text} {before after : List Text} {line : Text}
    (h : source.lines = before ++ line :: after) :
    SourceLine.ofText source =
      (before.zipIdx 1).map (fun (text, number) => ⟨number, text⟩) ++
        ⟨before.length + 1, line⟩ ::
          (after.zipIdx (before.length + 2)).map fun (text, number) => ⟨number, text⟩ := by
  unfold SourceLine.ofText
  rw [h, List.zipIdx_append, List.zipIdx_cons, List.map_append, List.map_cons,
    Nat.add_comm 1 before.length]

/-- A line of a source that lies in none of its directives is a part of its own. -/
theorem Item.ordinary_mem {source : Text} {l : SourceLine} (hl : l ∈ SourceLine.ofText source)
    (hplain : ¬InDirective (ofText source) l) : .ordinary l ∈ ofText source := by
  rw [← flatMap_lines_ofText] at hl
  obtain ⟨i, hi, hmem⟩ := List.mem_flatMap.1 hl
  cases i with
  | ordinary line =>
    obtain rfl : l = line := List.mem_singleton.1 hmem
    exact hi
  | directive first more text => exact absurd ⟨first, more, text, hi, hmem⟩ hplain

/-- With the other line a source is divided as before, up to the line itself. -/
theorem Item.exists_ofText_replace {source source' : Text} {before after : List Text}
    {line line' : Text} (hlines : source.lines = before ++ line :: after)
    (hlines' : source'.lines = before ++ line' :: after)
    (hplain : ¬InDirective (ofText source) ⟨before.length + 1, line⟩)
    (hline : Unmarked line) (hline' : Unmarked line') :
    ∃ items later, ofText source = items ++ .ordinary ⟨before.length + 1, line⟩ :: later ∧
      ofText source' = items ++ .ordinary ⟨before.length + 1, line'⟩ :: later := by
  have hsource := SourceLine.ofText_eq hlines
  have hmem : ⟨before.length + 1, line⟩ ∈ SourceLine.ofText source := by rw [hsource]; simp
  obtain ⟨items, later, hitems⟩ := List.append_of_mem (ordinary_mem hmem hplain)
  have hdivides := divides_ofText source
  rw [hitems] at hdivides
  obtain ⟨lines, rest, hsplit, hdivides'⟩ :=
    hdivides.replace ⟨before.length + 1, line'⟩ hline hline'
  refine ⟨items, later, hitems, (divides_iff.1 ?_).symm⟩
  -- Lines differ in their numbers, so the line stands at one place only.
  have hnodup : (SourceLine.ofText source).Nodup :=
    List.Nodup.of_map _ (SourceLine.nodup_number_ofText source)
  rw [hsplit, List.nodup_middle, List.nodup_cons, List.mem_append, not_or] at hnodup
  rw [hsource] at hsplit
  obtain ⟨rfl, -, rfl⟩ := (List.append_cons_inj_of_notMem hnodup.1.1 hnodup.1.2).1 hsplit.symm
  rw [SourceLine.ofText_eq hlines']
  exact hdivides'

/-- The live lines and the conditions that could not be decided stay the same. -/
theorem filter_replace {symbols : SymbolSet} {source source' : Text} {f : Filtered}
    {before after : List Text} {line line' : Text} (h : filter symbols source = .ok f)
    (hlines : source.lines = before ++ line :: after)
    (hlines' : source'.lines = before ++ line' :: after)
    (hdead : ⟨⟨before.length + 1, line⟩, true⟩ ∉ f.lines)
    (hplain : ¬InDirective (Item.ofText source) ⟨before.length + 1, line⟩)
    (hline : Unmarked line) (hline' : Unmarked line') :
    ∃ f', filter symbols source' = .ok f' ∧ f'.live = f.live ∧ f'.undecided = f.undecided := by
  obtain ⟨items, later, hitems, hitems'⟩ :=
    Item.exists_ofText_replace hlines hlines' hplain hline hline'
  unfold filter at h ⊢
  rw [hitems, filterItems_eq_ok_iff] at h
  obtain ⟨g, live, k, rfl, hreads⟩ := h.replace ⟨before.length + 1, line'⟩
  rw [hitems']
  refine ⟨_, filterItems_eq_ok_iff.2 hreads, ?_, rfl⟩
  cases live with
  | true => exact absurd (by simp [lineResult]) hdead
  | false => simp [lineResult, Filtered.live]

/-- A line of an accepted source that is neither live nor part of a directive and holds none of the
characters that delimit comments and start directives can be replaced by any other line without
them. The scan of the source gives the same signatures and warnings, and no error, unless it does
not end, which takes the empty word as a marker (`scanning_ends_iff`). -/
theorem scanSource_of_dead_line {settings : Settings} {source source' : Text} {f : Filtered}
    {before after : List Text} {line line' : Text} (file : Path)
    (h : filter settings.symbols source = .ok f)
    (hlines : source.lines = before ++ line :: after)
    (hlines' : source'.lines = before ++ line' :: after)
    (hdead : ⟨⟨before.length + 1, line⟩, true⟩ ∉ f.lines)
    (hplain : ¬InDirective (Item.ofText source) ⟨before.length + 1, line⟩)
    (hline : Unmarked line) (hline' : Unmarked line') :
    scanSource settings file source' = scanSource settings file source ∧
      (scanSource settings file source').error = none := by
  obtain ⟨f', h', hlive, hundecided⟩ :=
    filter_replace h hlines hlines' hdead hplain hline hline'
  unfold scanSource
  rw [h, h']
  simp only [hlive, hundecided, and_self]

/-- A line with an open quote inside a comment inside a group that is not live, replaced by one that
declares a function. -/
theorem scanSource_of_dead_quote :
    let settings : Settings := ⟨.ofList [], {}, ⟨.default, .cdecl⟩⟩
    let source : Text := "#ifdef A\n/* a\nit's \"\n*/\n#endif\nRH_C_FUNCTION void f(int a);".toList
    let source' : Text :=
      "#ifdef A\n/* a\nRH_C_FUNCTION void g();\n*/\n#endif\nRH_C_FUNCTION void f(int a);".toList
    scanSource settings ⟨"a.h"⟩ source' = scanSource settings ⟨"a.h"⟩ source ∧
      (scanSource settings ⟨"a.h"⟩ source).signatures.map (·.name) = ["f"] := by
  intro settings source source'
  have h : filter settings.symbols source = .ok ⟨[⟨⟨1, "#ifdef A".toList⟩, false⟩,
      ⟨⟨2, "/* a".toList⟩, false⟩, ⟨⟨3, "it's \"".toList⟩, false⟩, ⟨⟨4, "*/".toList⟩, false⟩,
      ⟨⟨5, "#endif".toList⟩, false⟩, ⟨⟨6, "RH_C_FUNCTION void f(int a);".toList⟩, true⟩], []⟩ := by
    decide +kernel
  have hlines : source.lines = ["#ifdef A".toList, "/* a".toList] ++ "it's \"".toList ::
      ["*/".toList, "#endif".toList, "RH_C_FUNCTION void f(int a);".toList] := by decide +kernel
  have hlines' : source'.lines = ["#ifdef A".toList, "/* a".toList] ++
      "RH_C_FUNCTION void g();".toList ::
        ["*/".toList, "#endif".toList, "RH_C_FUNCTION void f(int a);".toList] := by decide +kernel
  have hsame := scanSource_of_dead_line ⟨"a.h"⟩ h hlines hlines' (by decide +kernel)
    (by decide +kernel) (by decide +kernel) (by decide +kernel)
  exact ⟨hsame.1, by decide +kernel⟩

end NativeBindings.Conditional
