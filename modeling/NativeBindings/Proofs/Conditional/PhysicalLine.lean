import NativeBindings.Proofs.Conditional.Concatenation

/-!
# The lines of a source

Conditional inclusion marks the lines of a source and does nothing else to them: what it returns are
these lines, each once and in order (`toSourceLine_lines`). So a line that stays is a line of the
source, and there is no line feed in it (`newline_not_mem_of_mem_live`).
-/

namespace NativeBindings

/-- A line does not hold the line feed that ends it. -/
theorem Text.newline_not_mem_lines {t line : Text} (h : line ∈ t.lines) : '\n' ∉ line := by
  fun_induction Text.lines t generalizing line with
  | case1 => cases h
  | case2 cs ih =>
    rcases List.mem_cons.1 h with rfl | h
    · exact List.not_mem_nil
    · exact ih h
  | case3 cs ih =>
    rcases List.mem_cons.1 h with rfl | h
    · exact List.not_mem_nil
    · exact ih h
  | case4 c cs hfeed hreturn ih =>
    have hc : '\n' ≠ c := fun heq => hfeed heq.symm
    -- The character goes in front of the first of the other lines.
    unfold consToFirst at h
    split at h
    · rw [List.mem_singleton.1 h]
      simpa using hc
    · rename_i first rest hrest
      rw [hrest] at ih
      rcases List.mem_cons.1 h with rfl | h
      · exact fun hmem => (List.mem_cons.1 hmem).elim hc (ih List.mem_cons_self)
      · exact ih (.tail _ h)

namespace Conditional

variable {symbols : SymbolSet} {source : Text} {f : Filtered}

/-- A part of a source keeps its lines. -/
theorem toSourceLine_of_readItem {ss ss' : List Section} {i : Item}
    (h : readItem symbols ss i = .ok (ss', f)) : f.lines.map (·.toSourceLine) = i.lines := by
  cases i with
  | ordinary line =>
    cases h
    rfl
  | directive first more text =>
    obtain ⟨reported, -, rfl⟩ := readItem_directive h
    unfold directiveResult Item.lines
    dsimp only
    rw [List.map_map]
    exact List.map_id _

/-- Parts of a source keep their lines. -/
theorem Reads.toSourceLine {ss ss' : List Section} {items : List Item}
    (h : Reads symbols ss items ss' f) :
    f.lines.map (·.toSourceLine) = items.flatMap Item.lines := by
  induction h with
  | nil => rfl
  | cons hstep _ ih =>
    rw [Filtered.lines_append, List.map_append, toSourceLine_of_readItem hstep, ih,
      List.flatMap_cons]

/-- The lines of what conditional inclusion makes of a source are the lines of the source. -/
theorem toSourceLine_lines (h : filter symbols source = .ok f) :
    f.lines.map (·.toSourceLine) = SourceLine.ofText source := by
  rw [(filterItems_eq_ok_iff.1 h).toSourceLine]
  exact Item.flatMap_lines_ofText source

/-- There is no line feed in a line that stays. -/
theorem newline_not_mem_of_mem_live (h : filter symbols source = .ok f) {l : SourceLine}
    (hl : l ∈ f.live) : '\n' ∉ l.text := by
  have hmem : l ∈ SourceLine.ofText source := by
    rw [← toSourceLine_lines h]
    exact List.mem_map_of_mem (Filtered.mem_live.1 hl)
  apply Text.newline_not_mem_lines
  rw [← texts_ofText]
  exact List.mem_map_of_mem hmem

end Conditional

end NativeBindings
