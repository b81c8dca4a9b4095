import NativeBindings.Proofs.Comment.Remark
import NativeBindings.Proofs.Conditional.LiveComment
import NativeBindings.Proofs.Scanner.Place
import NativeBindings.Proofs.Scanner.Reachable

/-!
# Which line completes a declaration

A declaration is complete when a semicolon or a brace behind its parameters is read. Then it is read
from the text collected so far, and with the line comment of the line that completes it
(`readFrom_of_mem_feed`). So every declaration of a file belongs to one of the lines that the
scanner gets (`mem_scan_iff`), and its documentation is what the line comment of that line says
(`exists_remark_of_mem_scan`).
-/

namespace NativeBindings

/-- A declaration carries the documentation that it is read with. -/
theorem Declaration.doc_of_read {location : Location} {head params : Text} {doc : Option Text}
    {d : Declaration} (h : Declaration.read location head params doc = .ok d) :
    d.doc = doc.map String.ofList := by
  unfold Declaration.read at h
  dsimp only at h
  split at h
  · cases h
  · split at h
    · cases h
    · generalize readParameters _ params = parameters at h
      cases parameters with
      | error e => cases h
      | ok ps =>
        cases h
        rfl

namespace Scanner

open Conditional (SourceLine codeLine codeLines_concat)
open Comment (EndsInRemark endsInRemark_readLine)

variable {policy : ScanPolicy} {file : Path} {line : Nat} {doc : Option Text} {d : Declaration}

/-- The declarations among findings are those that are found. -/
theorem mem_declarations {found : List Finding} : d ∈ declarations found ↔ .declared d ∈ found := by
  unfold declarations
  rw [List.mem_filterMap]
  constructor
  · rintro ⟨f, hf, hd⟩
    cases f with
    | declared d' =>
      cases hd
      exact hf
    | skipped n reason => cases hd
  · exact fun h => ⟨_, h, rfl⟩

/-- The declaration is read from what a candidate has collected, and with the given comment. -/
def ReadFrom (file : Path) (doc : Option Text) (d : Declaration) : Prop :=
  ∃ c : Candidate, Declaration.read ⟨file, c.line⟩ c.head.toList c.params.toList doc = .ok d

/-- A declaration found on a line is read with the comment of that line. -/
theorem readFrom_of_mem_feed {s : State} {l : CodeLine}
    (h : .declared d ∈ (feed policy file s l).2) : ReadFrom file l.comment d := by
  obtain ⟨c, -, -, hfinish⟩ := Reached.start.exists_of_mem_feed h trivial
  refine ⟨c, ?_⟩
  unfold finish at hfinish
  split at hfinish
  · rename_i d' hread
    cases hfinish
    exact hread
  · cases hfinish

/-- What is found in lines is found on one of them, in the state behind the lines before it. -/
theorem mem_feedAll_iff {s : State} {ls : List CodeLine} {f : Finding} :
    f ∈ (feedAll policy file s ls).2 ↔ ∃ before l after, ls = before ++ l :: after ∧
      f ∈ (feed policy file (feedAll policy file s before).1 l).2 := by
  induction ls generalizing s with
  | nil => exact iff_of_false List.not_mem_nil (by simp)
  | cons l ls ih =>
    rw [feedAll_cons, List.mem_append, ih]
    constructor
    · rintro (hfound | ⟨before, l', after, rfl, hfound⟩)
      · exact ⟨[], l, ls, rfl, hfound⟩
      · exact ⟨l :: before, l', after, rfl, hfound⟩
    · rintro ⟨before, l', after, hsplit, hfound⟩
      cases before with
      | nil =>
        obtain ⟨rfl, rfl⟩ := List.cons.inj hsplit
        exact .inl hfound
      | cons b before =>
        obtain ⟨rfl, rfl⟩ := List.cons.inj hsplit
        exact .inr ⟨before, l', after, rfl, hfound⟩

/-- A declaration is found while the line `l` of a file is read. -/
def Completes (policy : ScanPolicy) (file : Path) (lines : List SourceLine) (l : CodeLine)
    (d : Declaration) : Prop :=
  ∃ before after, codeLines policy lines = before ++ l :: after ∧
    .declared d ∈ (feed policy file (feedAll policy file .outside before).1 l).2

variable {lines : List SourceLine}

/-- The declarations of a file are those that its lines complete; its end completes none. -/
theorem mem_scan_iff :
    d ∈ declarations (scan policy file lines) ↔ ∃ l, Completes policy file lines l d := by
  have hend :
      .declared d ∉ (feedAll policy file .outside (codeLines policy lines)).1.atEnd := by
    unfold State.atEnd
    intro h
    obtain ⟨c, -, hc⟩ := List.mem_map.1 h
    cases hc
  rw [mem_declarations]
  unfold scan Completes
  rw [List.mem_append, or_iff_left hend, mem_feedAll_iff, exists_comm]

/-- A declaration of a file is read from what a candidate has collected. -/
theorem exists_readFrom_of_mem_scan (hd : d ∈ declarations (scan policy file lines)) :
    ∃ doc, ReadFrom file doc d := by
  obtain ⟨l, before, after, -, hfound⟩ := mem_scan_iff.1 hd
  exact ⟨l.comment, readFrom_of_mem_feed hfound⟩

/-- A declaration carries the comment of the line that completes it. -/
theorem Completes.doc_eq {l : CodeLine} (h : Completes policy file lines l d) :
    d.doc = l.comment.map String.ofList := by
  obtain ⟨before, after, -, hfound⟩ := h
  obtain ⟨c, hread⟩ := readFrom_of_mem_feed hfound
  exact Declaration.doc_of_read hread

/-- Each line that the scanner gets is read from one of the lines of the file. -/
theorem exists_codeLine_of_mem {l : CodeLine} (h : l ∈ codeLines policy lines) :
    ∃ source ∈ lines, ∃ pending, l = codeLine policy pending source := by
  induction lines using List.reverseRecOn with
  | nil => cases h
  | append_singleton lines source ih =>
    rw [codeLines_concat] at h
    rcases List.mem_append.1 h with hbefore | hlast
    · obtain ⟨source', hmem, hread⟩ := ih hbefore
      exact ⟨source', List.mem_append_left _ hmem, hread⟩
    · exact ⟨source, List.mem_append_right _ List.mem_cons_self, _, List.mem_singleton.1 hlast⟩

/-- The documentation of a declaration is what the line comment says on the line of the file that
completes it. -/
theorem exists_remark_of_mem_scan {text : String}
    (hd : d ∈ declarations (scan policy file lines)) (hdoc : d.doc = some text) :
    ∃ source ∈ lines, EndsInRemark source.text text.toList := by
  obtain ⟨l, hcompletes⟩ := mem_scan_iff.1 hd
  have hl : l ∈ codeLines policy lines := by
    obtain ⟨before, after, hlines, -⟩ := hcompletes
    exact hlines ▸ List.mem_append_right _ List.mem_cons_self
  obtain ⟨source, hsource, pending, rfl⟩ := exists_codeLine_of_mem hl
  rw [hcompletes.doc_eq] at hdoc
  obtain ⟨remark, hremark, rfl⟩ := Option.map_eq_some_iff.1 hdoc
  refine ⟨source, hsource, ?_⟩
  rw [String.toList_ofList]
  exact endsInRemark_readLine hremark

end Scanner

end NativeBindings
