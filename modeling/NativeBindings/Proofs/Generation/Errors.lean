import NativeBindings.Proofs.Generation.OneTarget

/-!
# Errors and fatal errors

A pass keeps its fatal errors in a list of their own, and finds the diagnostics of errors again
among all diagnostics. The two stay in step (`Pass.InStep`): a fatal error adds its diagnostic,
which is an error, and whatever else is reported is none, for what a source is warned about never is
(`not_isError_of_mem_warnings`). So the errors of an outcome are the diagnostics of its fatal
errors, one by one, whichever way its target ends, and all that an outcome says about its success
agrees (`generate_consistent`).
-/

namespace NativeBindings

/-! ## Severities -/

/-- The diagnostic of a fatal error is an error. -/
theorem FatalError.isError_diagnostic (e : FatalError) : e.diagnostic.isError = true := by
  cases e <;> rfl

/-- The warning about a condition is no error. -/
theorem Conditional.Undecided.isError_diagnostic (file : Path) (u : Undecided) :
    (u.diagnostic file).isError = false := rfl

/-- The warning about a declaration that is skipped is no error. -/
theorem Scanner.Finding.isError_of_warning? {file : Path} {f : Finding} {d : Diagnostic}
    (h : f.warning? file = some d) : d.isError = false := by
  cases f with
  | declared _ => cases h
  | skipped line reason =>
    obtain rfl := Option.some.inj h
    split <;> rfl

/-- The warning about the types of a declaration or its convention is no error. -/
theorem Mapper.Warning.isError_diagnostic (m : Mapper) (d : Declaration) (w : Warning) :
    (w.diagnostic m d).isError = false := by
  cases w <;> rfl

/-- What a source is warned about is no error. -/
theorem not_isError_of_mem_warnings {settings : Settings} {file : Path} {text : Text}
    {d : Diagnostic} (h : d ∈ (scanSource settings file text).warnings) : d.isError = false := by
  unfold scanSource at h
  cases hfilter : Conditional.filter settings.symbols text with
  | error e =>
    rw [hfilter] at h
    cases h
  | ok filtered =>
    rw [hfilter] at h
    simp only [List.append_assoc, List.mem_append] at h
    rcases h with hcondition | hfinding | htype
    · obtain ⟨u, -, rfl⟩ := List.mem_map.1 hcondition
      exact u.isError_diagnostic file
    · obtain ⟨f, -, hf⟩ := List.mem_filterMap.1 hfinding
      exact Scanner.Finding.isError_of_warning? hf
    · obtain ⟨declaration, -, hd⟩ := List.mem_flatMap.1 htype
      obtain ⟨w, -, rfl⟩ := List.mem_map.1 hd
      exact w.isError_diagnostic settings.mapper declaration

/-! ## Passes -/

namespace Pass

/-- The errors of a pass are the diagnostics of its fatal errors, in order. -/
def InStep (p : Pass) : Prop := p.errors = p.fatal.map (·.diagnostic)

/-- A pass that has met nothing is in step. -/
theorem inStep_empty : InStep {} := rfl

/-- A pass stays in step when something is reported that is no error. -/
theorem InStep.report {p : Pass} (h : p.InStep) {ds : List Diagnostic}
    (hds : ∀ d ∈ ds, d.isError = false) : (p.report ds).InStep := by
  have hnone : ds.filter (·.isError) = [] :=
    List.filter_eq_nil_iff.2 fun d hd => by rw [hds d hd]; decide
  unfold InStep errors Pass.report at *
  rw [List.filter_append, hnone, List.append_nil, h]

/-- A pass stays in step when it fails. -/
theorem InStep.fail {p : Pass} (h : p.InStep) (e : FatalError) : (p.fail e).InStep := by
  have hone : [e.diagnostic].filter (·.isError) = [e.diagnostic] :=
    List.filter_eq_self.2 fun d hd => by
      rw [List.mem_singleton.1 hd]
      exact e.isError_diagnostic
  unfold InStep errors Pass.fail at *
  rw [List.filter_append, hone, h, List.map_append, List.map_singleton]

/-- A pass stays in step when a signature is added. -/
theorem InStep.add {p : Pass} (h : p.InStep) (s : Signature) : (p.add s).1.InStep := by
  rw [Pass.add_eq]
  cases p.catalogue.add s with
  | ok r => exact h
  | error conflict => exact h.fail _

/-- A pass stays in step when signatures are added. -/
theorem InStep.addAll {p : Pass} (h : p.InStep) (ss : List Signature) :
    (p.addAll ss).1.InStep := by
  induction ss generalizing p with
  | nil => exact h
  | cons s ss ih =>
    have hadd := h.add s
    rw [Pass.addAll]
    split
    · rename_i q insertion hq
      rw [hq] at hadd
      exact ih hadd
    · rename_i q hq
      rw [hq] at hadd
      exact hadd

/-- A pass stays in step when sources are merged whose warnings are no errors. -/
theorem InStep.merge {p : Pass} (h : p.InStep) {scans : List FileScan}
    (hscans : ∀ scan ∈ scans, ∀ d ∈ scan.warnings, d.isError = false) :
    (p.merge scans).InStep := by
  induction scans generalizing p with
  | nil => exact h
  | cons scan scans ih =>
    obtain ⟨hscan, hrest⟩ := List.forall_mem_cons.1 hscans
    have hreport := h.report hscan
    rw [Pass.merge]
    -- A source that is rejected fails the pass, and one that is not may bring a conflict.
    cases scan.error with
    | some e => exact ih (hreport.fail _) hrest
    | none =>
      have hadd := hreport.addAll scan.signatures
      dsimp only
      split
      · rename_i q hq
        rw [hq] at hadd
        exact ih hadd hrest
      · rename_i q hq
        rw [hq] at hadd
        exact hadd

/-- A pass stays in step when sources are processed. -/
theorem InStep.process {p : Pass} (h : p.InStep) (settings : Settings)
    (sources : List (Path × Text)) : (p.process settings sources).InStep := by
  refine h.merge fun scan hscan d hd => ?_
  obtain ⟨source, -, rfl⟩ := List.mem_map.1 hscan
  exact not_isError_of_mem_warnings hd

/-- A pass has not failed when it has no fatal error. -/
theorem failed_eq_false_iff {p : Pass} : p.failed = false ↔ p.fatal = [] := by
  unfold failed
  rw [Bool.not_eq_false', List.isEmpty_iff]

end Pass

/-! ## Outcomes -/

/-- What an outcome says about errors and success agrees. -/
structure Outcome.Consistent (checkOnly : Bool) (o : Outcome) : Prop where
  /-- The errors are the diagnostics of the fatal errors, one by one. -/
  errors : o.pass.errors = o.pass.fatal.map (·.diagnostic)
  /-- No warning is an error. -/
  warnings : ∀ d ∈ o.pass.warnings, d.severity ≠ .error
  /-- The target succeeds when there is no fatal error. -/
  success_iff : o.success = true ↔ o.pass.fatal = []
  /-- There is an error exactly when there is a fatal error. -/
  errors_iff : o.pass.errors = [] ↔ o.pass.fatal = []
  /-- There is a text exactly when the target succeeds. -/
  text : o.text.isSome = o.success
  /-- A file is written only for a target that succeeds and is not only checked. -/
  written : o.written = true → o.success = true ∧ checkOnly = false
  /-- The functions counted are the entries of the catalogue, or none when the target fails. -/
  functions : o.functionsEmitted = if o.success then o.pass.catalogue.entries.length else 0
  /-- A report that goes through fatal errors and errors side by side shows each fatal error with
  its own diagnostic. -/
  paired : o.pass.fatal.zip o.pass.errors = o.pass.fatal.map fun e => (e, e.diagnostic)

namespace Outcome

/-- An outcome is consistent when its pass is in step and its text and its file are those of its
success. -/
theorem consistent_of_inStep {checkOnly : Bool} {o : Outcome} (h : o.pass.InStep)
    (htext : o.text.isSome = o.success)
    (hwritten : o.written = true → o.success = true ∧ checkOnly = false) :
    o.Consistent checkOnly where
  errors := h
  warnings := fun d hd => by
    have hnone := (List.mem_filter.1 hd).2
    unfold Diagnostic.isError at hnone
    simpa using hnone
  success_iff := by
    unfold success
    rw [Bool.not_eq_true', Pass.failed_eq_false_iff]
  errors_iff := by rw [h, List.map_eq_nil_iff]
  text := htext
  written := hwritten
  functions := rfl
  paired := by rw [h, List.zip_eq_zipWith, List.zipWith_map_right, List.zipWith_self]

/-- An outcome whose pass fails at last, and that has no text and no file, is consistent. -/
theorem consistent_of_fail {checkOnly : Bool} {o : Outcome} {p : Pass} {e : FatalError}
    (h : p.InStep) (hpass : o.pass = p.fail e) (htext : o.text = none)
    (hwritten : o.written = false) : o.Consistent checkOnly := by
  have hfailed : o.success = false := by
    unfold success
    rw [hpass, Pass.failed_fail]
    rfl
  have hstep : o.pass.InStep := hpass ▸ h.fail e
  refine consistent_of_inStep hstep ?_ ?_
  · rw [htext, hfailed]
    rfl
  · rw [hwritten]
    nofun

end Outcome

namespace Config

/-- The pass over the sources of a target is in step. -/
theorem inStep_scanTarget (c : Config) (target : Target) (sources : List (Path × Text)) :
    (c.scanTarget target sources).pass.InStep :=
  Pass.inStep_empty.process (c.settings target) sources

/-- A target has a text exactly when the pass over its sources succeeds. -/
theorem isSome_text_scanTarget (c : Config) (target : Target) (sources : List (Path × Text)) :
    (c.scanTarget target sources).text.isSome = (c.scanTarget target sources).success := by
  rw [text_scanTarget]
  cases (c.scanTarget target sources).success <;> rfl

/-- What an outcome says about errors and success agrees, whatever the tree, the configuration and
the target, and whether files are written or only checked. Only where the empty word is a marker is
there a target without an outcome, for its scan need not end (`scanning_ends_iff`). -/
theorem generate_consistent (c : Config) (checkOnly : Bool) (tree : FileTree) (target : Target) :
    ((c.generate checkOnly tree target).2).Consistent checkOnly := by
  unfold generate
  cases target.readSources tree with
  | error e => exact Outcome.consistent_of_fail Pass.inStep_empty rfl rfl rfl
  | ok sources =>
    have hstep := c.inStep_scanTarget target sources
    have htext := c.isSome_text_scanTarget target sources
    have hunwritten : (c.scanTarget target sources).written = false := rfl
    dsimp only
    -- What was scanned counts from here on only by these three facts.
    generalize c.scanTarget target sources = scanned at hstep htext hunwritten
    have hscanned : scanned.Consistent checkOnly :=
      Outcome.consistent_of_inStep hstep htext (by rw [hunwritten]; nofun)
    cases hsome : scanned.text with
    | none => exact hscanned
    | some text =>
      have hsuccess : scanned.success = true := by
        rw [← htext, hsome]
        rfl
      cases checkOnly with
      | true => exact hscanned
      | false =>
        dsimp only
        rw [if_neg Bool.false_ne_true]
        split
        · -- The file is written, or it cannot be.
          exact Outcome.consistent_of_inStep hstep hsuccess.symm fun _ => ⟨hsuccess, rfl⟩
        · exact Outcome.consistent_of_fail hstep rfl rfl hunwritten

end Config

end NativeBindings
