import NativeBindings.Generation
import NativeBindings.Proofs.Emission.BrokenLine
import NativeBindings.Proofs.FileTree.Change

/-!
# Generating the file of one target

A target can end in three ways (`Generated`): it fails, it is only checked, or its file is written.
Only the last one touches a file, and it is the last step, so nothing can fail behind it. What is
written is the text of the outcome. The text declares the functions that the outcome counts, and
besides them whatever the text of a remark or a name in it declares behind the end of a line
(`generate_writes`, `generate_declares_stray`).
-/

namespace NativeBindings.Config

open Emission (Lists brokenLines brokenLines_join declares declaringLines fileLines
  length_declaringLines_render lists_fileLines render strayDeclarations)
open StringLiteral (isLineBreak)
open FileTree (Grows Wrote)

variable {c : Config} {checkOnly : Bool} {tree tree' : FileTree} {target : Target} {o : Outcome}

/-! ## The text -/

/-- What the generated file says besides its declarations, for a target with the given sources. -/
def fileOptions (c : Config) (target : Target) (sources : List (Path × Text)) : Emission.Options :=
  { c.emitOptions target with fingerprint := some (target.fingerprint sources) }

/-- There is a text when the pass over the sources has not failed. -/
theorem text_scanTarget (c : Config) (target : Target) (sources : List (Path × Text)) :
    (c.scanTarget target sources).text =
      if (c.scanTarget target sources).success then
        some (render (c.fileOptions target sources) (c.scanTarget target sources).pass.catalogue)
      else none := by
  unfold Outcome.success scanTarget fileOptions
  dsimp only
  cases (({} : Pass).process (c.settings target) sources).failed <;> rfl

/-- As many lines of the generated file declare a function as a pass has entries. -/
theorem length_declarations (options : Emission.Options) (settings : Settings)
    (sources : List (Path × Text)) :
    ((fileLines options (({} : Pass).process settings sources).catalogue).filter declares).length =
      (({} : Pass).process settings sources).catalogue.entries.length := by
  obtain ⟨added, -, hcatalogue⟩ :=
    Emission.exists_addUntil_eq Catalogue.empty (settings.signatures sources)
  have hcoherent := Catalogue.coherent_empty.insertAll added
  rw [Pass.catalogue_process, hcatalogue, Emission.filter_declares_fileLines, List.length_map]
  exact hcoherent.partitioned.total.length_eq

/-! ## The three ways in which a target ends -/

/-- How a target can end, with the tree that is left and the outcome. -/
inductive Generated (c : Config) (checkOnly : Bool) (tree : FileTree) (target : Target) :
    FileTree → Outcome → Prop
  /-- It fails, and at most some directories have been created for it. -/
  | failed {tree' : FileTree} {o : Outcome} (ofTarget : o.target = target)
      (failed : o.success = false) (unwritten : o.written = false) (grows : Grows tree tree') :
      Generated c checkOnly tree target tree' o
  /-- It is only checked. -/
  | checked (sources : List (Path × Text)) (check : checkOnly = true)
      (success : (c.scanTarget target sources).success = true) :
      Generated c checkOnly tree target tree (c.scanTarget target sources)
  /-- Its file is written. -/
  | written (sources : List (Path × Text)) (text : String) (place : Place) {tree' : FileTree}
      (noCheck : checkOnly = false) (success : (c.scanTarget target sources).success = true)
      (text_eq : (c.scanTarget target sources).text = some text)
      (wrote : Wrote tree place (Utf8.encode text.toList) tree')
      (found : tree'.find target.outputPath = .ok (place, .file (Utf8.encode text.toList))) :
      Generated c checkOnly tree target tree' { c.scanTarget target sources with written := true }

/-- A target ends in one of the three ways. -/
theorem generated_generate (c : Config) (checkOnly : Bool) (tree : FileTree) (target : Target) :
    Generated c checkOnly tree target (c.generate checkOnly tree target).1
      (c.generate checkOnly tree target).2 := by
  have hfail : ∀ (p : Pass) (e : FatalError), (!(p.fail e).failed) = false := fun p e => by simp
  unfold generate
  cases target.readSources tree with
  | error e => exact .failed rfl (hfail _ e) rfl (.refl tree)
  | ok sources =>
    have htext := text_scanTarget c target sources
    dsimp only
    split
    · rename_i hnone
      -- Without a text the pass over the sources has failed.
      have hsuccess : (c.scanTarget target sources).success = false := by
        rw [htext] at hnone
        simpa using hnone
      exact .failed rfl hsuccess rfl (.refl tree)
    · rename_i text hsome
      have hsuccess : (c.scanTarget target sources).success = true := by
        by_contra hne
        rw [htext, if_neg hne] at hsome
        cases hsome
      cases checkOnly with
      | true => exact .checked sources rfl hsuccess
      | false =>
        -- Writing is the last step: it succeeds, or it fails the target.
        rcases tree.writeText_cases target.outputPath text with
          ⟨tree', e, hwrite, hgrows⟩ | ⟨tree', place, hwrite, hwrote, hfound⟩
        · rw [if_neg (by decide), hwrite]
          exact .failed rfl (hfail _ _) rfl hgrows
        · rw [if_neg (by decide), hwrite]
          exact .written sources text place rfl hsuccess hsome hwrote hfound

/-- An outcome is that of its target. -/
theorem Generated.target_eq (h : Generated c checkOnly tree target tree' o) :
    o.target = target := by
  cases h with
  | failed ofTarget failed unwritten grows => exact ofTarget
  | checked sources check success => rfl
  | written sources text place noCheck success text_eq wrote found => rfl

/-! ## What is left behind -/

/-- The lines of the file of an outcome. -/
def outcomeLines (c : Config) (o : Outcome) : List String :=
  fileLines { c.emitOptions o.target with fingerprint := o.fingerprint } o.pass.catalogue

/-- The file of an outcome is there, and it is the only one that differs from before. -/
structure Delivered (c : Config) (tree tree' : FileTree) (o : Outcome) (text : String)
    (place : Place) : Prop where
  /-- The outcome says that its file is written. -/
  written : o.written = true
  /-- The text of the outcome is made of the lines of its file. -/
  text_eq : o.text = some text ∧ text = String.join ((c.outcomeLines o).map (· ++ "\n"))
  /-- It is what the file at the path of the output holds, and all of it. -/
  found : tree'.find o.target.outputPath = .ok (place, .file (Utf8.encode text.toList))
  /-- There was a file or nothing before. -/
  free : tree.get? place ≠ some .directory
  /-- No other file is created or altered. -/
  others : ∀ q, q ≠ place → tree'.content? q = tree.content? q
  /-- The lines list the entries of the catalogue. -/
  listed : ∃ options, Lists options o.pass.catalogue (c.outcomeLines o)
  /-- As many of them declare a function as the outcome says. -/
  declared : ((c.outcomeLines o).filter declares).length = o.functionsEmitted
  /-- The text declares that many functions, and what is stray in its lines. -/
  counted : (declaringLines text).length =
    o.functionsEmitted + ((c.outcomeLines o).flatMap strayDeclarations).length
  /-- When no line ends inside one of them, they are the lines of the text. -/
  divided : (∀ line ∈ c.outcomeLines o, ∀ char ∈ line.toList, isLineBreak char = false) →
    brokenLines text.toList = (c.outcomeLines o).map String.toList ++ [[]]

/-- The text declares as many functions as the outcome says exactly when nothing in its lines is
stray. -/
theorem Delivered.length_declaringLines_eq_iff {text : String} {place : Place}
    (h : Delivered c tree tree' o text place) :
    (declaringLines text).length = o.functionsEmitted ↔
      ∀ line ∈ c.outcomeLines o, strayDeclarations line = [] := by
  rw [h.counted, Nat.add_eq_left, List.length_eq_zero_iff, List.flatMap_eq_nil_iff]

/-- A target that fails or is only checked leaves every file as it was. -/
theorem Generated.unchanged (h : Generated c checkOnly tree target tree' o)
    (hnone : o.success = false ∨ checkOnly = true) :
    o.written = false ∧ ∀ q, tree'.content? q = tree.content? q := by
  cases h with
  | failed ofTarget failed unwritten grows => exact ⟨unwritten, grows.content?⟩
  | checked sources check success => exact ⟨rfl, fun q => rfl⟩
  | written sources text place noCheck success text_eq wrote found =>
    -- Neither has it failed, nor is it only checked.
    rcases hnone with hfailed | hcheck
    · exact absurd (success.symm.trans hfailed) (by decide)
    · exact absurd (noCheck.symm.trans hcheck) (by decide)

/-- Any other target has its file written. -/
theorem Generated.delivered (h : Generated c checkOnly tree target tree' o)
    (hsuccess : o.success = true) (hcheck : checkOnly = false) :
    ∃ text place, Delivered c tree tree' o text place := by
  cases h with
  | failed ofTarget failed unwritten grows =>
    exact absurd (failed.symm.trans hsuccess) (by decide)
  | checked sources check success => exact absurd (check.symm.trans hcheck) (by decide)
  | written sources text place noCheck success text_eq wrote found =>
    have htext := text_scanTarget c target sources
    rw [if_pos success, text_eq] at htext
    obtain rfl := Option.some.inj htext
    -- The lines that declare are one for each entry of the catalogue.
    let outcome := { c.scanTarget target sources with written := true }
    have hdeclared : ((c.outcomeLines outcome).filter declares).length =
        outcome.functionsEmitted := by
      refine (length_declarations _ _ _).trans ?_
      exact (if_pos success).symm
    refine ⟨render (c.fileOptions target sources) (c.scanTarget target sources).pass.catalogue,
      place, ?_⟩
    exact {
      written := rfl
      text_eq := ⟨text_eq, rfl⟩
      found := found
      free := wrote.free
      others := wrote.others
      listed := ⟨_, lists_fileLines _ _⟩
      declared := hdeclared
      counted := (length_declaringLines_render _ _).trans (congrArg (· + _) hdeclared)
      divided := brokenLines_join }

/-- A target that fails or is only checked leaves every file as it was and creates none. Otherwise
the file at its output path, and no other, is written: it holds the text of the outcome. The text
declares at least as many functions as the outcome says, and as many exactly when no line of the
file has a stray declaration. Only where the empty word is a marker is there a target without an
outcome, for its scan need not end (`scanning_ends_iff`). -/
theorem generate_writes (c : Config) (checkOnly : Bool) (tree : FileTree) (target : Target) :
    let (tree', o) := c.generate checkOnly tree target
    o.target = target ∧
      (o.success = false ∨ checkOnly = true →
        o.written = false ∧ ∀ q, tree'.content? q = tree.content? q) ∧
      (o.success = true → checkOnly = false →
        ∃ text place, Delivered c tree tree' o text place ∧
          ((declaringLines text).length = o.functionsEmitted ↔
            ∀ line ∈ c.outcomeLines o, strayDeclarations line = [])) := by
  have h := generated_generate c checkOnly tree target
  refine ⟨h.target_eq, h.unchanged, fun hsuccess hcheck => ?_⟩
  obtain ⟨text, place, hdelivered⟩ := h.delivered hsuccess hcheck
  exact ⟨text, place, hdelivered, hdelivered.length_declaringLines_eq_iff⟩

/-- A header with one function gives a file with one declaration. No file is touched when the header
is only checked, or when its directory is missing. -/
theorem generate_writes_header :
    let c : Config := { scan := { markers := ["API"] } }
    let tree : FileTree := ⟨[(["a"], .directory),
      (["a", "f.h"], .file (Utf8.encode "API void F(); // fast".toList))], []⟩
    let target : Target := { sourceDir := ⟨"a"⟩ }
    let missing : Target := { sourceDir := ⟨"b"⟩ }
    let (tree', o) := c.generate false tree target
    (∃ text place, Delivered c tree tree' o text place ∧ (declaringLines text).length = 1) ∧
      o.functionsEmitted = 1 ∧
      (∀ q, (c.generate true tree target).1.content? q = tree.content? q) ∧
      ∀ q, (c.generate false tree missing).1.content? q = tree.content? q := by
  intro c tree target missing
  have hcount : (c.generate false tree target).2.functionsEmitted = 1 := by decide +kernel
  refine ⟨?_, hcount, ((generate_writes c true tree target).2.1 (.inr rfl)).2, ?_⟩
  · obtain ⟨text, place, hdelivered, hiff⟩ :=
      (generate_writes c false tree target).2.2 (by decide +kernel) rfl
    exact ⟨text, place, hdelivered, (hiff.2 (by decide +kernel)).trans hcount⟩
  · exact ((generate_writes c false tree missing).2.1 (.inl (by decide +kernel))).2

/-- A remark in which a line ends declares a function that is not counted. -/
theorem generate_declares_stray :
    let c : Config := {}
    let tree : FileTree := ⟨[(["a"], .directory), (["a", "f.h"], .file (Utf8.encode
      "RH_C_FUNCTION void F(); // see\u2028internal static extern void G();".toList))], []⟩
    let o := (c.generate false tree { sourceDir := ⟨"a"⟩ }).2
    o.written = true ∧ o.functionsEmitted = 1 ∧
      (c.outcomeLines o).flatMap strayDeclarations = ["internal static extern void G();"] ∧
      ∃ text, o.text = some text ∧ (declaringLines text).length = 2 := by
  intro c tree o
  have hsuccess : o.success = true := by decide +kernel
  have hemitted : o.functionsEmitted = 1 := by decide +kernel
  have hstray : (c.outcomeLines o).flatMap strayDeclarations =
      ["internal static extern void G();"] := by decide +kernel
  obtain ⟨text, place, hdelivered⟩ :=
    (generated_generate c false tree { sourceDir := ⟨"a"⟩ }).delivered hsuccess rfl
  refine ⟨hdelivered.written, hemitted, hstray, text, hdelivered.text_eq.1, ?_⟩
  rw [hdelivered.counted]
  exact congrArg₂ (· + ·) hemitted (congrArg List.length hstray)

end NativeBindings.Config
