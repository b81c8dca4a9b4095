import NativeBindings.Pass
import NativeBindings.Proofs.Catalogue.Agreement

/-!
# The order of sources and declarations

A pass stops merging at the first conflict, and compares a signature with the first one of its name
only. What it ends in nevertheless does not depend on the order of its sources, or of the
declarations in them (`process_order`): it fails exactly when a source is rejected or two signatures
of one name bind differently, and otherwise holds each name, bound in the only way there is.

Diagnostics and errors aside, a merge adds the signatures of the accepted sources to the catalogue
one after the other, up to the first conflict (`merge_eq`). The rest is about such additions.
-/

namespace NativeBindings

open Conditional (NestingError)
open Signature (Agree binding sameBinding_iff agree_congr)

/-- The signatures of the accepted ones among scanned sources, in order. -/
def acceptedSignatures (scans : List FileScan) : List Signature :=
  (scans.filter (·.error.isNone)).flatMap (·.signatures)

theorem acceptedSignatures_cons_error {scan : FileScan} {e : NestingError} (h : scan.error = some e)
    (scans : List FileScan) : acceptedSignatures (scan :: scans) = acceptedSignatures scans := by
  unfold acceptedSignatures
  rw [List.filter_cons_of_neg (by simp [h])]

theorem acceptedSignatures_cons_none {scan : FileScan} (h : scan.error = none)
    (scans : List FileScan) :
    acceptedSignatures (scan :: scans) = scan.signatures ++ acceptedSignatures scans := by
  unfold acceptedSignatures
  rw [List.filter_cons_of_pos (by simp [h]), List.flatMap_cons]

namespace Pass

/-! ## Merging -/

@[simp] theorem catalogue_report (p : Pass) (ds : List Diagnostic) :
    (p.report ds).catalogue = p.catalogue := rfl

@[simp] theorem failed_report (p : Pass) (ds : List Diagnostic) :
    (p.report ds).failed = p.failed := rfl

@[simp] theorem catalogue_fail (p : Pass) (e : FatalError) : (p.fail e).catalogue = p.catalogue :=
  rfl

@[simp] theorem failed_fail (p : Pass) (e : FatalError) : (p.fail e).failed = true := by
  unfold fail failed
  simp

/-- Signatures are added to the catalogue up to the first conflict, and that fails the pass. -/
theorem addAll_eq (p : Pass) (ss : List Signature) :
    (p.addAll ss).1.catalogue = (p.catalogue.addUntil ss).1 ∧
      (p.addAll ss).2 = (p.catalogue.addUntil ss).2 ∧
      (p.addAll ss).1.failed = (p.failed || !(p.catalogue.addUntil ss).2) := by
  induction ss generalizing p with
  | nil => simp [addAll, Catalogue.addUntil]
  | cons s ss ih =>
    rw [addAll, Catalogue.addUntil, add_eq]
    cases p.catalogue.add s with
    | ok r => exact ih { p with catalogue := r.2 }
    | error conflict => simp

/-- A merge adds the signatures of the accepted sources up to the first conflict; that conflict and
every rejected source fail the pass. -/
theorem merge_eq (p : Pass) (scans : List FileScan) :
    (p.merge scans).catalogue = (p.catalogue.addUntil (acceptedSignatures scans)).1 ∧
      (p.merge scans).failed = (p.failed || scans.any (·.error.isSome) ||
        !(p.catalogue.addUntil (acceptedSignatures scans)).2) := by
  induction scans generalizing p with
  | nil => simp [merge, acceptedSignatures, Catalogue.addUntil]
  | cons scan scans ih =>
    rw [merge]
    cases herror : scan.error with
    | some e =>
      -- The later sources are merged, and once the pass has failed it stays so.
      obtain ⟨hcatalogue, hfailed⟩ := ih ((p.report scan.warnings).fail (.unbalanced scan.file e))
      rw [acceptedSignatures_cons_error herror]
      refine ⟨hcatalogue, hfailed.trans ?_⟩
      simp [herror]
    | none =>
      obtain ⟨hcatalogue, hgoes, hfailed⟩ := (p.report scan.warnings).addAll_eq scan.signatures
      rw [catalogue_report] at hcatalogue hgoes hfailed
      rw [acceptedSignatures_cons_none herror, Catalogue.addUntil_append, ← hgoes]
      rw [← hgoes] at hfailed
      generalize (p.report scan.warnings).addAll scan.signatures = r at hcatalogue hgoes hfailed
      obtain ⟨q, _ | _⟩ := r
      · -- A conflict: the catalogue is not added to any more.
        refine ⟨hcatalogue, ?_⟩
        simpa [← hgoes, herror] using hfailed
      · have hq : q.failed = p.failed := by simpa using hfailed
        obtain ⟨hcatalogue', hfailed'⟩ := ih q
        simp only [if_true, ← hcatalogue]
        refine ⟨hcatalogue', ?_⟩
        rw [hfailed', hq]
        simp [herror]

end Pass

/-! ## Sources -/

namespace Settings

variable {settings : Settings}

/-- Whether the sections of a source fit together. -/
def accepts (settings : Settings) (source : Path × Text) : Bool :=
  (Conditional.filter settings.symbols source.2).isOk

/-- The signatures that the accepted ones among sources give, in order. -/
def signatures (settings : Settings) (sources : List (Path × Text)) : List Signature :=
  (sources.filter settings.accepts).flatMap fun source =>
    (scanSource settings source.1 source.2).signatures

/-- A source is rejected when its sections do not fit together. -/
theorem accepts_eq_false_iff {source : Path × Text} : settings.accepts source = false ↔
    ∃ e, Conditional.filter settings.symbols source.2 = .error e := by
  unfold accepts
  cases Conditional.filter settings.symbols source.2 with
  | ok f => simp [Except.isOk, Except.toBool]
  | error e => simp [Except.isOk, Except.toBool]

/-- A source that is scanned without an error is an accepted one. -/
theorem isNone_error_scanSource (source : Path × Text) :
    (scanSource settings source.1 source.2).error.isNone = settings.accepts source := by
  unfold scanSource accepts
  cases Conditional.filter settings.symbols source.2 with
  | ok f => rfl
  | error e => rfl

theorem acceptedSignatures_scan (sources : List (Path × Text)) :
    acceptedSignatures (sources.map fun (file, text) => scanSource settings file text) =
      settings.signatures sources := by
  have hnone : (FileScan.error · |>.isNone) ∘ (fun s : Path × Text =>
      scanSource settings s.1 s.2) = settings.accepts := funext isNone_error_scanSource
  unfold acceptedSignatures signatures
  rw [List.filter_map, hnone, List.flatMap_map]

/-- A source is among those scanned with an error when it is rejected. -/
theorem any_error_scan {sources : List (Path × Text)} :
    (sources.map fun (file, text) => scanSource settings file text).any (·.error.isSome) ↔
      ∃ source ∈ sources, settings.accepts source = false := by
  rw [List.any_map, List.any_eq_true]
  refine exists_congr fun source => and_congr_right fun _ => ?_
  rw [← isNone_error_scanSource, Function.comp_apply]
  cases (scanSource settings source.1 source.2).error <;> simp

/-- Rejected sources give no signatures. -/
theorem signatures_filter (sources : List (Path × Text)) :
    settings.signatures (sources.filter settings.accepts) = settings.signatures sources := by
  unfold signatures
  rw [List.filter_filter]
  simp only [Bool.and_self]

/-- Sources in another order give the same signatures in another order. -/
theorem signatures_perm {sources sources' : List (Path × Text)} (h : sources.Perm sources') :
    (settings.signatures sources).Perm (settings.signatures sources') :=
  (h.filter _).flatMap_right _

end Settings

namespace Pass

variable {settings : Settings}

/-- A pass over sources holds their signatures up to the first conflict. -/
theorem catalogue_process (settings : Settings) (sources : List (Path × Text)) :
    (({} : Pass).process settings sources).catalogue =
      (Catalogue.empty.addUntil (settings.signatures sources)).1 := by
  unfold process
  rw [(merge_eq _ _).1, Settings.acceptedSignatures_scan]

/-- A pass fails exactly when a source is rejected or the signatures do not agree. -/
theorem failed_process_iff (settings : Settings) (sources : List (Path × Text)) :
    (({} : Pass).process settings sources).failed ↔
      (∃ source ∈ sources, settings.accepts source = false) ∨
        ¬Agree (settings.signatures sources) := by
  have hagree : (Catalogue.empty.addUntil (settings.signatures sources)).2 = true ↔
      Agree (settings.signatures sources) := Catalogue.snd_addUntil_iff Catalogue.coherent_empty
  have hfresh : ({} : Pass).failed = false := rfl
  have hempty : ({} : Pass).catalogue = Catalogue.empty := rfl
  unfold process
  rw [(merge_eq _ _).2, Settings.acceptedSignatures_scan, hfresh, hempty, Bool.false_or,
    Bool.or_eq_true, Settings.any_error_scan, Bool.not_eq_true', ← Bool.not_eq_true, hagree]

/-- The signatures of a pass that does not fail agree. -/
theorem agree_of_not_failed {sources : List (Path × Text)}
    (h : (({} : Pass).process settings sources).failed = false) :
    Agree (settings.signatures sources) := by
  by_contra hagree
  rw [(failed_process_iff settings sources).2 (.inr hagree)] at h
  cases h

/-- A pass that does not fail holds the first signature of each name. -/
theorem entries_process {sources : List (Path × Text)}
    (h : (({} : Pass).process settings sources).failed = false) :
    (({} : Pass).process settings sources).catalogue.entries =
      firstsBy (·.name) (settings.signatures sources) := by
  have hall : (Catalogue.empty.addUntil (settings.signatures sources)).2 = true :=
    (Catalogue.snd_addUntil_iff Catalogue.coherent_empty).2 (agree_of_not_failed h)
  rw [catalogue_process, Catalogue.fst_addUntil hall, Catalogue.entries_insertAll]

/-- Two passes end alike when both fail, or neither does and they hold the same names, each bound
the same. -/
def EndAlike (p q : Pass) : Prop :=
  p.failed = q.failed ∧ (p.failed = false →
    (∀ name, name ∈ p.catalogue.names ↔ name ∈ q.catalogue.names) ∧
    ∀ e ∈ p.catalogue.entries, ∀ e' ∈ q.catalogue.entries, e.name = e'.name → e.sameBinding e')

/-- Passes end alike when both or neither meet a rejected source and the signatures bind the same,
in any order. -/
theorem endAlike_process {sources sources' : List (Path × Text)}
    (hrejected : (∃ source ∈ sources, settings.accepts source = false) ↔
      ∃ source ∈ sources', settings.accepts source = false)
    (hbindings : ∀ b, b ∈ (settings.signatures sources).map binding ↔
      b ∈ (settings.signatures sources').map binding) :
    EndAlike (({} : Pass).process settings sources) (({} : Pass).process settings sources') := by
  have hfailed : (({} : Pass).process settings sources).failed =
      (({} : Pass).process settings sources').failed := by
    rw [Bool.eq_iff_iff, failed_process_iff, failed_process_iff, hrejected, agree_congr hbindings]
  refine ⟨hfailed, fun h => ?_⟩
  have h' := hfailed ▸ h
  rw [Catalogue.names, Catalogue.names, entries_process h, entries_process h']
  constructor
  · intro name
    -- The names are those of what is bound.
    have hnames : ∀ ss : List Signature, ss.map (·.name) = (ss.map binding).map (·.name) :=
      fun ss => by rw [List.map_map]; rfl
    rw [mem_map_firstsBy, mem_map_firstsBy, hnames, hnames, List.mem_map, List.mem_map]
    simp only [hbindings]
  · intro e he e' he' hname
    -- Some signature of the first sources binds what the entry of the second pass binds.
    have hmem := (hbindings _).2 (List.mem_map_of_mem (f := binding) (mem_of_mem_firstsBy he'))
    obtain ⟨s, hs, hsame⟩ := List.mem_map.1 hmem
    have hnames : e.name = s.name := hname.trans (congrArg Binding.name hsame).symm
    rw [sameBinding_iff, ← hsame]
    exact sameBinding_iff.1 (agree_of_not_failed h e (mem_of_mem_firstsBy he) s hs hnames)

/-- A pass fails exactly when a source is rejected or two signatures of one name bind differently.
What is rejected gives no entries, as if it were not there. Sources in another order, and
declarations in another order, make the pass end alike; of the latter only what they bind has to
stay, for a declaration that is moved gets another line. Only with the empty word as a marker is
there a pass that does not end (`scanning_ends_iff`). -/
theorem process_order (settings : Settings) (sources : List (Path × Text)) :
    ((({} : Pass).process settings sources).failed ↔
      (∃ source ∈ sources, ∃ e, Conditional.filter settings.symbols source.2 = .error e) ∨
        ∃ s ∈ settings.signatures sources, ∃ t ∈ settings.signatures sources,
          s.name = t.name ∧ ¬s.sameBinding t) ∧
    (({} : Pass).process settings sources).catalogue =
      (({} : Pass).process settings (sources.filter settings.accepts)).catalogue ∧
    (∀ e ∈ (({} : Pass).process settings sources).catalogue.entries,
      e ∈ settings.signatures sources) ∧
    (∀ sources', sources.Perm sources' →
      EndAlike (({} : Pass).process settings sources) (({} : Pass).process settings sources')) ∧
    ∀ sources', ((∃ source ∈ sources, settings.accepts source = false) ↔
        ∃ source ∈ sources', settings.accepts source = false) →
      ((settings.signatures sources).map binding).Perm
        ((settings.signatures sources').map binding) →
      EndAlike (({} : Pass).process settings sources) (({} : Pass).process settings sources') := by
  refine ⟨?_, ?_, ?_, ?_, ?_⟩
  · -- A pass fails at a rejected file, and at signatures that do not agree.
    rw [failed_process_iff]
    unfold Agree
    simp only [Settings.accepts_eq_false_iff, not_forall, exists_prop]
  · rw [catalogue_process, catalogue_process, Settings.signatures_filter]
  · intro e he
    rw [catalogue_process] at he
    -- An entry is one of the signatures, as there is none at first.
    have hmem := Catalogue.mem_entries_addUntil Catalogue.coherent_empty he
    exact hmem.resolve_left List.not_mem_nil
  · intro sources' hperm
    -- How a pass ends depends on which signatures there are, not on their order.
    refine endAlike_process (exists_congr fun source => ?_) fun b => ?_
    · rw [hperm.mem_iff]
    · exact ((Settings.signatures_perm hperm).map binding).mem_iff
  · intro sources' hrejected hbindings
    exact endAlike_process hrejected fun b => hbindings.mem_iff

/-- A function is declared again in a header under another name of its parameter. The two files are
read in both orders, and the declarations of the first one are exchanged. -/
theorem process_order_redeclared :
    let settings : Settings := ⟨.ofList [], { markers := ["API"] }, ⟨.default, .cdecl⟩⟩
    let header := (⟨"b.h"⟩, "API void G(int y);".toList)
    let source := (⟨"a.cpp"⟩, "API int F();\nAPI void G(int x);".toList)
    let exchanged := (⟨"a.cpp"⟩, "API void G(int x);\nAPI int F();".toList)
    let pass := ({} : Pass).process settings [source, header]
    let pass' := ({} : Pass).process settings [header, source]
    let pass'' := ({} : Pass).process settings [exchanged, header]
    (pass.failed = false ∧ pass.catalogue.names = ["F", "G"]) ∧
      pass'.catalogue.names = ["G", "F"] ∧ EndAlike pass pass' ∧ EndAlike pass pass'' := by
  intro settings header source exchanged
  obtain ⟨-, -, -, hsources, hdeclarations⟩ := process_order settings [source, header]
  refine ⟨by decide +kernel, by decide +kernel, ?_, ?_⟩
  · exact hsources [header, source] (.swap header source [])
  · exact hdeclarations [exchanged, header] (by decide +kernel) (by decide +kernel)

end Pass

end NativeBindings
