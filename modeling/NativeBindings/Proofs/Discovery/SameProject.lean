import NativeBindings.Discovery
import NativeBindings.Proofs.Path.Ancestors

/-!
# The project of each target

A core and an extension are looked for one by one, each in the nearest directory that holds it
(`project?_eq_some_iff`). The targets of a configuration lie in one project when the nearest
directory with a core is also the nearest one with an extension, and in two projects otherwise
(`targets_share_project_iff`).
-/

namespace NativeBindings.Discovery

variable {tree : FileTree} {part : Part} {start dir : Path} {p : Project}

/-- The directory has the name of a project, with the directories of the native sources and of the
generated files in it. -/
structure Holds (tree : FileTree) (part : Part) (dir : Path) : Prop where
  /-- It has the name of a project. -/
  named : ∃ name, dir.fileName? = some name ∧ sameName projectName name
  /-- The native sources have a directory. -/
  native : tree.isDirectory (dir.join ⟨part.directory⟩)
  /-- The generated files have a directory. -/
  managed : tree.isDirectory (dir.join ⟨"dotnet"⟩)

/-- The nearest directory that holds the part of a project: `start` itself, or the nearest one above
its parent when `start` does not hold it. -/
inductive Nearest (tree : FileTree) (part : Part) : Path → Path → Prop
  /-- The directory itself holds the part. -/
  | here {dir : Path} : Holds tree part dir → Nearest tree part dir dir
  /-- The part is looked for further up. -/
  | above {start parent dir : Path} : ¬Holds tree part start → start.parent? = some parent →
    Nearest tree part parent dir → Nearest tree part start dir

/-- The nearest directory is the given one or one of its parents. -/
theorem Nearest.mem_ancestors (h : Nearest tree part start dir) : dir ∈ start.ancestors := by
  induction h with
  | here _ => exact Path.self_mem_ancestors _
  | above _ hparent _ ih =>
    rw [Path.ancestors_of_some hparent]
    exact .tail _ ih

theorem nearest_of_holds (h : Holds tree part start) :
    Nearest tree part start dir ↔ dir = start := by
  constructor
  · intro hnearest
    cases hnearest with
    | here _ => rfl
    | above hnot _ _ => exact absurd h hnot
  · rintro rfl
    exact .here h

theorem nearest_of_not_holds (h : ¬Holds tree part start) :
    Nearest tree part start dir ↔ ∃ parent, start.parent? = some parent ∧
      Nearest tree part parent dir := by
  constructor
  · intro hnearest
    cases hnearest with
    | here hholds => exact absurd hholds h
    | above _ hparent hnearest => exact ⟨_, hparent, hnearest⟩
  · rintro ⟨parent, hparent, hnearest⟩
    exact .above h hparent hnearest

/-- Only one directory is the nearest one. -/
theorem Nearest.unique {dir' : Path} (h : Nearest tree part start dir)
    (h' : Nearest tree part start dir') : dir = dir' := by
  induction h with
  | here hholds => exact ((nearest_of_holds hholds).1 h').symm
  | above hnot hparent _ ih =>
    obtain ⟨parent, hparent', hnearest⟩ := (nearest_of_not_holds hnot).1 h'
    obtain rfl := Option.some.inj (hparent.symm.trans hparent')
    exact ih hnearest

/-! ## The project that is found -/

/-- The project that a directory holds. -/
def projectAt (part : Part) (dir : Path) : Project :=
  ⟨dir.join ⟨part.directory⟩, dir.join ⟨"dotnet"⟩⟩

theorem projectIn?_of_holds (h : Holds tree part dir) :
    projectIn? tree part dir = some (projectAt part dir) := by
  obtain ⟨name, hname, hsame⟩ := h.named
  unfold projectIn?
  dsimp only
  rw [hname, Option.any_some, hsame, h.native, h.managed]
  rfl

theorem projectIn?_of_not_holds (h : ¬Holds tree part dir) : projectIn? tree part dir = none := by
  unfold projectIn?
  dsimp only
  refine if_neg fun hall => h ?_
  rw [Bool.and_eq_true, Bool.and_eq_true, Option.any_eq_true] at hall
  exact ⟨hall.1.1, hall.1.2, hall.2⟩

theorem isSome_projectIn?_iff : (projectIn? tree part dir).isSome ↔ Holds tree part dir := by
  by_cases h : Holds tree part dir
  · simp [projectIn?_of_holds h, h]
  · simp [projectIn?_of_not_holds h, h]

instance (tree : FileTree) (part : Part) (dir : Path) : Decidable (Holds tree part dir) :=
  decidable_of_iff _ isSome_projectIn?_iff

/-- The project that is found is the one in the nearest directory that holds it. -/
theorem project?_eq_some_iff : project? tree part start = some p ↔
    ∃ dir, Nearest tree part start dir ∧ projectAt part dir = p := by
  unfold project?
  -- On the way up from the start; the directory itself goes before those above it.
  induction start using Path.parent_induction with
  | top start hparent =>
    rw [Path.ancestors_of_none hparent, List.findSome?_singleton]
    by_cases hholds : Holds tree part start
    · rw [projectIn?_of_holds hholds]
      simp only [nearest_of_holds hholds, exists_eq_left, Option.some.injEq]
    · rw [projectIn?_of_not_holds hholds]
      simp [nearest_of_not_holds hholds, hparent]
  | below start parent hparent ih =>
    rw [Path.ancestors_of_some hparent, List.findSome?_cons]
    by_cases hholds : Holds tree part start
    · rw [projectIn?_of_holds hholds]
      simp only [nearest_of_holds hholds, exists_eq_left, Option.some.injEq]
    · rw [projectIn?_of_not_holds hholds]
      simp only [nearest_of_not_holds hholds, hparent, Option.some.injEq, exists_eq_left']
      exact ih

/-! ## The targets of a configuration -/

/-- The directories of the target lie in the given one. -/
def LiesIn (t : Target) (dir : Path) : Prop :=
  ∀ d ∈ [t.sourceDir, t.outputDir], ∃ parent, d.parent? = some parent ∧ parent.same dir

/-- The directories of a project lie in one directory only. -/
theorem liesIn_iff (part : Part) (dir : Path) {t : Target}
    (hsource : t.sourceDir = dir.join ⟨part.directory⟩)
    (houtput : t.outputDir = dir.join ⟨"dotnet"⟩) (dir' : Path) :
    LiesIn t dir' ↔ dir.same dir' := by
  have hplain : Path.IsPlain part.directory := by cases part <;> decide
  obtain ⟨parent, hparent, hcomponents⟩ := Path.parent?_join dir hplain
  obtain ⟨parent', hparent', hcomponents'⟩ :=
    Path.parent?_join dir (show Path.IsPlain "dotnet" by decide)
  unfold LiesIn Path.same
  rw [hsource, houtput]
  simp [hparent, hparent', hcomponents, hcomponents']

/-- The directories of a core target and an extension target are those of two projects that are
looked for one by one. -/
theorem exists_nearest_of_config? {c : Config} {core ext : Target}
    (h : config? tree start = some c) (htargets : c.targets = [core, ext]) :
    ∃ dir dir', Nearest tree .core start dir ∧ Nearest tree .extension start dir' ∧
      (projectAt .core dir).coreTarget = core ∧
      (projectAt .extension dir').extensionTarget = ext := by
  unfold config? at h
  obtain ⟨p, hp, hc⟩ := Option.bind_eq_some_iff.1 h
  obtain ⟨dir, hdir, rfl⟩ := project?_eq_some_iff.1 hp
  cases hc
  cases hext : project? tree .extension start with
  | none =>
    rw [hext] at htargets
    cases htargets
  | some p' =>
    obtain ⟨dir', hdir', rfl⟩ := project?_eq_some_iff.1 hext
    rw [hext] at htargets
    cases htargets
    exact ⟨dir, dir', hdir, hdir', rfl, rfl⟩

/-- Where a project is found with a core and an extension, the core target lies in the nearest
directory with a core, which has the name of a project, and the extension target in the nearest one
with an extension. So both targets lie in one project exactly when the first of these directories
has an extension too and none below it has one. -/
theorem targets_share_project_iff {c : Config} {core ext : Target}
    (h : config? tree start = some c) (htargets : c.targets = [core, ext]) :
    ∃ dir dir', Nearest tree .core start dir ∧ LiesIn core dir ∧
      Nearest tree .extension start dir' ∧ LiesIn ext dir' ∧
      (LiesIn ext dir ↔ Nearest tree .extension start dir) := by
  obtain ⟨dir, dir', hdir, hdir', rfl, rfl⟩ := exists_nearest_of_config? h htargets
  have hcore := liesIn_iff .core dir (t := (projectAt .core dir).coreTarget) rfl rfl
  have hext := liesIn_iff .extension dir' (t := (projectAt .extension dir').extensionTarget) rfl rfl
  refine ⟨dir, dir', hdir, (hcore dir).2 (beq_self_eq_true _), hdir',
    (hext dir').2 (beq_self_eq_true _), ?_⟩
  rw [hext]
  constructor
  · intro hsame
    rwa [← Path.eq_of_mem_ancestors hdir'.mem_ancestors hdir.mem_ancestors (eq_of_beq hsame)]
  · intro hnearest
    rw [hnearest.unique hdir']
    exact beq_self_eq_true _

/-- A project has both parts. The search starts below it in a directory that has the name of a
project and native sources of its own, but no generated files. -/
theorem targets_share_project_iff_below :
    let tree : FileTree := ⟨[["RhinoCommon"], ["RhinoCommon", "c"], ["RhinoCommon", "c_rdk"],
      ["RhinoCommon", "dotnet"], ["RhinoCommon", "c", "rhinocommon"],
      ["RhinoCommon", "c", "rhinocommon", "c_rdk"]].map (·, .directory), []⟩
    let core : Target := { sourceDir := ⟨"/RhinoCommon/c"⟩, outputDir := ⟨"/RhinoCommon/dotnet"⟩ }
    let ext : Target :=
      { sourceDir := ⟨"/RhinoCommon/c_rdk"⟩, outputDir := ⟨"/RhinoCommon/dotnet"⟩
        outputFile := "AutoNativeMethodsRdk.cs", library := "librdk" }
    (∃ c, config? tree ⟨"/RhinoCommon/c/rhinocommon"⟩ = some c ∧ c.targets = [core, ext]) ∧
      LiesIn core ⟨"/RhinoCommon"⟩ ∧ LiesIn ext ⟨"/RhinoCommon"⟩ := by
  intro tree core ext
  have hconfig : config? tree ⟨"/RhinoCommon/c/rhinocommon"⟩ =
      some { targets := [core, ext], mapping := { importClass := some "Import" } } := by
    decide +kernel
  have hnearest : ∀ part, Nearest tree part ⟨"/RhinoCommon/c/rhinocommon"⟩ ⟨"/RhinoCommon"⟩ := by
    intro part
    refine .above ?_ (show _ = some (⟨"/RhinoCommon/c"⟩ : Path) by decide +kernel)
      (.above ?_ (show _ = some (⟨"/RhinoCommon"⟩ : Path) by decide +kernel) (.here ?_))
    all_goals cases part <;> decide +kernel
  obtain ⟨dir, -, hdir, hcore, -, -, hext⟩ := targets_share_project_iff hconfig rfl
  obtain rfl := hdir.unique (hnearest .core)
  exact ⟨⟨_, hconfig, rfl⟩, hcore, hext.2 (hnearest .extension)⟩

/-- Inside a project with an extension lies another one without. The core target is that of the
inner project, and the extension target that of the outer one. -/
theorem targets_of_two_projects :
    let tree : FileTree := ⟨[["RhinoCommon"], ["RhinoCommon", "c_rdk"], ["RhinoCommon", "dotnet"],
      ["RhinoCommon", "old"], ["RhinoCommon", "old", "RhinoCommon"],
      ["RhinoCommon", "old", "RhinoCommon", "c"],
      ["RhinoCommon", "old", "RhinoCommon", "dotnet"]].map (·, .directory), []⟩
    let inner : Path := ⟨"/RhinoCommon/old/RhinoCommon"⟩
    let core : Target := { sourceDir := ⟨"/RhinoCommon/old/RhinoCommon/c"⟩
                           outputDir := ⟨"/RhinoCommon/old/RhinoCommon/dotnet"⟩ }
    let ext : Target :=
      { sourceDir := ⟨"/RhinoCommon/c_rdk"⟩, outputDir := ⟨"/RhinoCommon/dotnet"⟩
        outputFile := "AutoNativeMethodsRdk.cs", library := "librdk" }
    (∃ c, config? tree inner = some c ∧ c.targets = [core, ext]) ∧
      Nearest tree .core inner inner ∧ LiesIn core inner ∧ ¬LiesIn ext inner := by
  intro tree inner core ext
  have hconfig : config? tree inner =
      some { targets := [core, ext], mapping := { importClass := some "Import" } } := by
    decide +kernel
  refine ⟨⟨_, hconfig, rfl⟩, .here (by decide +kernel), ?_, ?_⟩
  · rw [liesIn_iff .core inner (by decide +kernel) (by decide +kernel)]
    decide +kernel
  · rw [liesIn_iff .extension ⟨"/RhinoCommon"⟩ (by decide +kernel) (by decide +kernel)]
    decide +kernel

end NativeBindings.Discovery
