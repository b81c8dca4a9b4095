import NativeBindings.Marshal.Mapper
import NativeBindings.Proofs.Conditional.PhysicalLine
import NativeBindings.Proofs.Emission.BrokenLine
import NativeBindings.Proofs.Scanner.Completion

/-!
# Documentation in the generated file

The documentation of a function stands in front of it as a line comment, which ends where a line of
the generated language ends. The native side only knows the line feed for that. A carriage return
that no line feed follows, a next line character, and the line and paragraph separators stay inside
a native line, and so they stay in the remark that becomes the documentation. There the comment ends
at them, and what follows is code. Documentation without them is one line of comment
(`documentation_stays_comment_iff`).
-/

namespace NativeBindings.Emission

open Conditional (filter Filtered newline_not_mem_of_mem_live)
open Scanner (declarations scan Completes mem_scan_iff exists_remark_of_mem_scan)
open StringLiteral (isLineBreak)
open Comment (EndsInRemark)

/-! ## The line of the documentation -/

/-- The line with the documentation of a function. -/
def docLine (depth : Nat) (doc : String) : String := indented depth ("// " ++ doc)

/-- The line with the documentation is one line of the generated language exactly when no line ends
in the documentation. -/
theorem brokenLines_docLine_iff (depth : Nat) (doc : String) :
    brokenLines (docLine depth doc).toList = [(docLine depth doc).toList] ↔
      ∀ c ∈ doc.toList, isLineBreak c = false := by
  rw [brokenLines_eq_singleton_iff]
  unfold docLine
  simp only [mem_indented, String.toList_append, List.mem_append]
  constructor
  · exact fun h c hc => h c (.inr (.inr hc))
  · rintro h c (⟨rfl, -⟩ | hslashes | hc)
    · decide
    · have hplain : c = '/' ∨ c = ' ' := by simpa using hslashes
      obtain rfl | rfl := hplain <;> rfl
    · exact h c hc

/-- Wherever the documentation of a declaration is written, it is the first line of the function,
and one line of comment. -/
def StaysComment (d : Declaration) (doc : String) : Prop :=
  ∀ (m : Mapper) (o : Options) (depth : Nat), ∃ rest,
    functionBlock o depth (m.signature d) = docLine depth doc :: rest ∧
      brokenLines (docLine depth doc).toList = [(docLine depth doc).toList]

/-- Documentation stays a comment exactly when no line ends in it. -/
theorem staysComment_iff {d : Declaration} {doc : String} (hdoc : d.doc = some doc) :
    StaysComment d doc ↔ ∀ c ∈ doc.toList, isLineBreak c = false := by
  constructor
  · intro h
    obtain ⟨-, -, hline⟩ := h ⟨.default, .cdecl⟩ {} 0
    exact (brokenLines_docLine_iff 0 doc).1 hline
  · intro h m o depth
    have hsignature : (m.signature d).doc = some doc := hdoc
    obtain ⟨rest, hblock⟩ : ∃ rest, functionBlock o depth (m.signature d) =
        docLine depth doc :: rest := by
      unfold functionBlock functionLines
      rw [hsignature]
      exact ⟨_, rfl⟩
    exact ⟨rest, hblock, (brokenLines_docLine_iff depth doc).2 h⟩

/-! ## The documentation of a source -/

/-- The characters that end a line of the generated language and no native line. -/
def foreignBreaks : Text := ['\r', '\u0085', '\u2028', '\u2029']

theorem isLineBreak_eq_false_iff {c : Char} :
    isLineBreak c = false ↔ c ≠ '\n' ∧ c ∉ foreignBreaks := by
  unfold isLineBreak foreignBreaks
  simp

/-- The documentation of a declaration is what a line comment says on a line of the source, so there
is no line feed in it. It stays one line of comment in the generated file exactly when it has no
other character that ends a line there, and so does all documentation of a source when there are
none in the line comments of the lines that complete a declaration. A scan that does not end, for
which the empty word has to be a marker (`scanning_ends_iff`), gives no documentation. -/
theorem documentation_stays_comment_iff (policy : ScanPolicy) (file : Path) {symbols : SymbolSet}
    {source : Text} {f : Filtered} (h : filter symbols source = .ok f) :
    (∀ d ∈ declarations (scan policy file f.live), ∀ doc, d.doc = some doc →
      (∃ l ∈ f.live, EndsInRemark l.text doc.toList) ∧ '\n' ∉ doc.toList ∧
        (StaysComment d doc ↔ ∀ c ∈ doc.toList, c ∉ foreignBreaks)) ∧
    ((∀ d ∈ declarations (scan policy file f.live), ∀ doc, d.doc = some doc →
        StaysComment d doc) ↔
      ∀ l d, Completes policy file f.live l d → ∀ remark, l.comment = some remark →
        ∀ c ∈ remark, c ∉ foreignBreaks) := by
  -- One declaration: a line of the source has no line feed, so only the other characters matter.
  have hfirst : ∀ d ∈ declarations (scan policy file f.live), ∀ doc, d.doc = some doc →
      (∃ l ∈ f.live, EndsInRemark l.text doc.toList) ∧ '\n' ∉ doc.toList ∧
        (StaysComment d doc ↔ ∀ c ∈ doc.toList, c ∉ foreignBreaks) := by
    intro d hd doc hdoc
    obtain ⟨l, hl, hremark⟩ := exists_remark_of_mem_scan hd hdoc
    have hfeed : '\n' ∉ doc.toList := fun hmem =>
      newline_not_mem_of_mem_live h hl (hremark.sublist.subset hmem)
    refine ⟨⟨l, hl, hremark⟩, hfeed, ?_⟩
    rw [staysComment_iff hdoc]
    refine forall₂_congr fun c hc => ?_
    rw [isLineBreak_eq_false_iff, and_iff_right (ne_of_mem_of_not_mem hc hfeed)]
  refine ⟨hfirst, ?_⟩
  constructor
  · intro hstays l d hcompletes remark hremark
    have hd := mem_scan_iff.2 ⟨l, hcompletes⟩
    have hdoc : d.doc = some (String.ofList remark) := by
      rw [hcompletes.doc_eq, hremark]
      rfl
    have hclean := (hfirst d hd _ hdoc).2.2.1 (hstays d hd _ hdoc)
    rwa [String.toList_ofList] at hclean
  · intro hclean d hd doc hdoc
    -- The documentation is the line comment of the line that completes the declaration.
    obtain ⟨l, hcompletes⟩ := mem_scan_iff.1 hd
    have hcomment : l.comment.map String.ofList = some doc := hcompletes.doc_eq ▸ hdoc
    obtain ⟨remark, hremark, rfl⟩ := Option.map_eq_some_iff.1 hcomment
    refine (hfirst d hd _ hdoc).2.2.2 ?_
    rw [String.toList_ofList]
    exact hclean l d hcompletes remark hremark

/-- A tab and a vertical one inside a remark are no obstacle, nor is a carriage return at its end.
-/
theorem documentation_stays_comment_iff_tabs :
    let policy : ScanPolicy := { markers := ["API"] }
    let source : Text := "API int Count(int n); /// counts\t\x0bup\r\r\n".toList
    ∃ f, filter (.ofList []) source = .ok f ∧
      ∃ d ∈ declarations (scan policy ⟨"f.h"⟩ f.live), d.doc = some "counts\t\x0bup" ∧
        StaysComment d "counts\t\x0bup" := by
  intro policy source
  have hfilter : filter (.ofList []) source =
      .ok ⟨[⟨⟨1, source.dropLast.dropLast⟩, true⟩], []⟩ := by decide +kernel
  let d : Declaration :=
    ⟨⟨⟨"f.h"⟩, 1⟩, "int", "Count", [⟨"int", "n"⟩], none, some "counts\t\x0bup"⟩
  obtain ⟨hremarks, -⟩ := documentation_stays_comment_iff policy ⟨"f.h"⟩ hfilter
  obtain ⟨-, -, hstays⟩ := hremarks d (by decide +kernel) "counts\t\x0bup" rfl
  have hclean : ∀ c ∈ "counts\t\x0bup".toList, c ∉ foreignBreaks := by simp [foreignBreaks]
  exact ⟨_, hfilter, d, by decide +kernel, rfl, hstays.2 hclean⟩

/-- A line separator in a line comment ends the comment in the generated file, so that a declaration
in the comment is declared there. -/
theorem documentation_becomes_code :
    let source : Text :=
      "RH_C_FUNCTION void F(); // see\u2028internal static extern void G();".toList
    let doc : String := "see\u2028internal static extern void G();"
    ∃ f, filter (.ofList []) source = .ok f ∧
      ∃ d ∈ declarations (scan {} ⟨"f.h"⟩ f.live), d.doc = some doc ∧ '\u2028' ∈ doc.toList ∧
        brokenLines (docLine 0 doc).toList =
          ["// see".toList, "internal static extern void G();".toList] ∧ ¬StaysComment d doc := by
  intro source doc
  have hfilter : filter (.ofList []) source = .ok ⟨[⟨⟨1, source⟩, true⟩], []⟩ := by decide +kernel
  refine ⟨_, hfilter, ⟨⟨⟨"f.h"⟩, 1⟩, "void", "F", [], none, some doc⟩, by decide +kernel, rfl,
    by decide, by decide +kernel, fun hstays => ?_⟩
  obtain ⟨-, -, hline⟩ := hstays ⟨.default, .cdecl⟩ {} 0
  exact absurd hline (by decide +kernel)

end NativeBindings.Emission
