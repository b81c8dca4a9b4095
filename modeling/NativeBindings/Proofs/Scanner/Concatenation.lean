import NativeBindings.Proofs.Conditional.Concatenation

/-!
# Nothing is left behind

A source that is finished in every respect leaves nothing to the text behind it: a text behind it
gives what it gives by itself, on lines that are moved down by the lines of the source
(`filter_scan_append`). To what conditional inclusion needs for this the scanner adds its own: it
reads the live lines, and behind those of the source it has to be outside comments and outside
declarations (`scan_append`).
-/

namespace NativeBindings

open Comment (openAfter)
open Conditional (filter texts SourceLine LeavesDirectiveOpen)

namespace Scanner

variable {policy : ScanPolicy} {file : Path}

/-- Behind lines that leave no comment open the code of further lines is their own. -/
theorem codeLines_append {ls : List SourceLine} (h : openAfter none (texts ls) = none)
    (ms : List SourceLine) :
    codeLines policy (ls ++ ms) = codeLines policy ls ++ codeLines policy ms := by
  unfold codeLines
  rw [Comment.readLines_eq, Comment.readLines_eq, Comment.readLines_eq, List.map_append,
    Comment.readLinesAfter_append, List.zip_append, List.map_append]
  · rw [show openAfter none (ls.map (·.text)) = none from h]
  · rw [Comment.length_readLinesAfter, List.length_map]

/-- Behind lines that leave neither a comment nor a declaration open further lines give what they
give by themselves, that many lines further down. -/
theorem scan_append {ls : List SourceLine} (hcomment : openAfter none (texts ls) = none)
    (hstate : (feedAll policy file .outside (codeLines policy ls)).1 = .outside) (n : Nat)
    (ms : List SourceLine) :
    scan policy file (ls ++ ms.map (·.move (.down n))) =
      scan policy file ls ++ (scan policy file ms).map (Finding.move (.down n)) := by
  have hmoved : scan policy file (ms.map (·.move (.down n))) =
      (scan policy file ms).map (Finding.move (.down n)) :=
    scan_move policy file (Move.keepsDistances_down n) ms
  have hfirst : scan policy file ls =
      (feedAll policy file .outside (codeLines policy ls)).2 := by
    unfold scan
    dsimp only
    rw [hstate]
    exact List.append_nil _
  rw [← hmoved, hfirst]
  unfold scan
  dsimp only
  rw [codeLines_append hcomment, feedAll_append, hstate, List.append_assoc]

/-- A finished source leaves nothing to a text behind it. Let its last line be ended and no
directive be left open, let it be accepted, and let both readers of comments and the scanner be
outside behind it. Then the text is refused behind it exactly when it is refused by itself, with the
same error. Otherwise the two give their declarations, and what conditional inclusion and the
scanner warn about, one after the other. The lines of the text are moved down by those of the
source. With the empty word as a marker a scan need not end (`scanning_ends_iff`), and has none of
these then. -/
theorem filter_scan_append (policy : ScanPolicy) (file : Path) {symbols : SymbolSet} {t : Text}
    {f : Conditional.Filtered} (hlines : t.IsEnded) (haccepted : filter symbols t = .ok f)
    (hdirective : ¬LeavesDirectiveOpen t) (hcomment : openAfter none t.lines = none)
    (hlive : openAfter none (texts f.live) = none)
    (hstate : (feedAll policy file .outside (codeLines policy f.live)).1 = .outside) (u : Text) :
    let m := Move.down t.lines.length
    (∀ e, filter symbols (t ++ u) = .error e ↔ ∃ e', filter symbols u = .error e' ∧ e = e'.move m) ∧
    ∀ g, filter symbols u = .ok g → ∃ k, filter symbols (t ++ u) = .ok k ∧
      k.undecided.map (·.diagnostic file) = f.undecided.map (·.diagnostic file) ++
        (g.undecided.map (·.diagnostic file)).map (Diagnostic.move m) ∧
      declarations (scan policy file k.live) = declarations (scan policy file f.live) ++
        (declarations (scan policy file g.live)).map (Declaration.move m) ∧
      warnings file (scan policy file k.live) = warnings file (scan policy file f.live) ++
        (warnings file (scan policy file g.live)).map (Diagnostic.move m) := by
  intro m
  have happend := Conditional.filter_append hlines hdirective hcomment haccepted u
  cases hu : filter symbols u with
  | error e' =>
    rw [hu] at happend
    -- The text is refused, and so is the whole, with the same error further down.
    refine ⟨fun e => ?_, nofun⟩
    rw [happend]
    constructor
    · rintro ⟨⟩
      exact ⟨e', rfl, rfl⟩
    · rintro ⟨_, ⟨⟩, rfl⟩
      rfl
  | ok g =>
    rw [hu] at happend
    refine ⟨fun e => ?_, ?_⟩
    · rw [happend]
      exact ⟨nofun, fun ⟨_, he, _⟩ => nomatch he⟩
    rintro _ ⟨⟩
    -- The findings of the text move along with its lines.
    have hscan : scan policy file (f ++ g.move m).live =
        scan policy file f.live ++ (scan policy file g.live).map (Finding.move m) := by
      rw [Conditional.Filtered.live_append, Conditional.Filtered.live_move]
      exact scan_append hlive hstate t.lines.length g.live
    -- What is moved as a whole is moved one by one.
    refine ⟨f ++ g.move m, happend, ?_, ?_, ?_⟩
    · have hundecided : (g.move m).undecided.map (·.diagnostic file) =
          (g.undecided.map (·.diagnostic file)).map (Diagnostic.move m) := by
        rw [List.map_map]
        exact List.map_map
      rw [Conditional.Filtered.undecided_append, List.map_append, hundecided]
    · rw [hscan, ← declarations_move]
      exact List.filterMap_append
    · have hwarnings : warnings file ((scan policy file g.live).map (Finding.move m)) =
          (warnings file (scan policy file g.live)).map (Diagnostic.move m) :=
        warnings_move m file (scan policy file g.live)
      rw [hscan, ← hwarnings]
      exact List.filterMap_append

/-- A source with a comment over two lines and a condition that cannot be decided, and two texts
behind it. One opens a declaration and a further condition, and its last declaration does not end;
the other one closes what is not open. -/
theorem filter_scan_append_two_texts :
    let policy : ScanPolicy := { markers := ["API"] }
    let symbols := SymbolSet.ofList []
    let file : Path := ⟨"a.h"⟩
    let t : Text := "/* a\n*/ API int F();\n#if W > 1\n#endif\n".toList
    let u : Text := "API int\nG(int x);\n#if V > 1\n#endif\nAPI H".toList
    (∃ f g k, filter symbols t = .ok f ∧ filter symbols u = .ok g ∧
      filter symbols (t ++ u) = .ok k ∧
      k.undecided.map (·.diagnostic file) = f.undecided.map (·.diagnostic file) ++
        (g.undecided.map (·.diagnostic file)).map (Diagnostic.move (.down 4)) ∧
      declarations (scan policy file k.live) = declarations (scan policy file f.live) ++
        (declarations (scan policy file g.live)).map (Declaration.move (.down 4)) ∧
      (declarations (scan policy file g.live)).map (·.location.line) = [1] ∧
      warnings file (scan policy file k.live) = warnings file (scan policy file f.live) ++
        (warnings file (scan policy file g.live)).map (Diagnostic.move (.down 4)) ∧
      (warnings file (scan policy file g.live)).map (·.line) = [some 5]) ∧
      filter symbols (t ++ "#endif".toList) = .error (.unmatched "endif" 5) := by
  intro policy symbols file t u
  have haccepted : filter symbols t = .ok ⟨[⟨⟨1, "/* a".toList⟩, true⟩,
      ⟨⟨2, "*/ API int F();".toList⟩, true⟩, ⟨⟨3, "#if W > 1".toList⟩, false⟩,
      ⟨⟨4, "#endif".toList⟩, false⟩], [⟨3, "if W > 1".toList⟩]⟩ := by decide +kernel
  have haccepted' : filter symbols u = .ok ⟨[⟨⟨1, "API int".toList⟩, true⟩,
      ⟨⟨2, "G(int x);".toList⟩, true⟩, ⟨⟨3, "#if V > 1".toList⟩, false⟩,
      ⟨⟨4, "#endif".toList⟩, false⟩, ⟨⟨5, "API H".toList⟩, true⟩], [⟨3, "if V > 1".toList⟩]⟩ := by
    decide +kernel
  -- The last line of the source is a directive that does not join the next line.
  have hclosed : ¬LeavesDirectiveOpen t := by
    rintro ⟨before, last, hlines, -, hends⟩
    have hsplit : SourceLine.ofText t =
        (SourceLine.ofText t).dropLast ++ [⟨4, "#endif".toList⟩] := by decide +kernel
    obtain ⟨rfl, hlast⟩ := List.append_inj' (hlines.symm.trans hsplit) rfl
    obtain rfl := List.head_eq_of_cons_eq hlast
    revert hends
    unfold Conditional.EndsJoining
    decide +kernel
  -- Both texts stand behind the same source.
  have hbehind := filter_scan_append policy file (.inr (by decide +kernel))
    haccepted hclosed (by decide +kernel) (by decide +kernel) (by decide +kernel)
  have hlength : t.lines.length = 4 := by decide +kernel
  rw [hlength] at hbehind
  obtain ⟨k, hk, hundecided, hdeclarations, hwarnings⟩ := (hbehind u).2 _ haccepted'
  refine ⟨⟨_, _, k, haccepted, haccepted', hk, hundecided, hdeclarations, by decide +kernel,
    hwarnings, by decide +kernel⟩, ?_⟩
  exact ((hbehind "#endif".toList).1 _).2 ⟨.unmatched "endif" 1, by decide +kernel, rfl⟩

end Scanner

end NativeBindings
