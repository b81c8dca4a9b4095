import NativeBindings.Proofs.Generation.OneTarget
import NativeBindings.Proofs.Text.Utf8

/-!
# Generating the files of all targets

All targets are generated into one tree, one after the other. What lies at a place in the end is
the text of the last outcome that is written there (`content?_generateTargets`). So the text of an
outcome is lost when the path of a later one leads to the same place, unless the two texts are the
same (`generateAll_holds_iff`), and nothing keeps the paths of two targets apart
(`generateAll_loses_text`).
-/

namespace NativeBindings

open Emission (render)
open FileTree (Keeps)

namespace Outcome

/-- A file is found under the path of an outcome, and it holds the text of the outcome. -/
def Holds (t : FileTree) (o : Outcome) : Prop :=
  ∃ text place, o.text = some text ∧
    t.find o.target.outputPath = .ok (place, .file (Utf8.encode text.toList))

/-- Whether an outcome has been written to a place. -/
def writesTo (t : FileTree) (q : Place) (o : Outcome) : Bool :=
  o.written && t.place? o.target.outputPath == some q

/-- The bytes of the text. -/
def bytes? (o : Outcome) : Option (List UInt8) := o.text.map fun text => Utf8.encode text.toList

theorem bytes?_of_text {o : Outcome} {text : String} (h : o.text = some text) :
    o.bytes? = some (Utf8.encode text.toList) := by
  unfold bytes?
  rw [h, Option.map_some]

/-- The file under the path holds the text when it has the bytes of that. -/
theorem holds_iff {t : FileTree} {o : Outcome} {text : String} {place : Place}
    {content : List UInt8} (htext : o.text = some text)
    (hfind : t.find o.target.outputPath = .ok (place, .file content)) :
    o.Holds t ↔ content = Utf8.encode text.toList := by
  unfold Holds
  rw [htext, hfind]
  constructor
  · rintro ⟨text', place', hsome, hok⟩
    obtain rfl := Option.some.inj hsome
    injection hok with hok
    injection hok with hplace hentry
    injection hentry
  · rintro rfl
    exact ⟨text, place, rfl, rfl⟩

/-- What a file holds when outcomes have been written, where `before` is what it held. -/
def leave (t : FileTree) (q : Place) (before : Option (List UInt8)) (os : List Outcome) :
    Option (List UInt8) :=
  match (os.filter (writesTo t q)).getLast? with
  | some last => last.bytes?
  | none => before

/-- A further outcome in front counts when it is written to the place and no later one is. -/
theorem leave_cons (t : FileTree) (q : Place) (before : Option (List UInt8)) (o : Outcome)
    (os : List Outcome) :
    leave t q before (o :: os) = leave t q (if o.writesTo t q then o.bytes? else before) os := by
  unfold leave
  cases hwrites : o.writesTo t q with
  | false => rw [List.filter_cons_of_neg (by simp [hwrites]), if_neg (by decide)]
  | true =>
    rw [List.filter_cons_of_pos hwrites, List.getLast?_cons, if_pos rfl]
    cases (os.filter (writesTo t q)).getLast? <;> rfl

/-- Behind an outcome that is written to the place, what was there before does not count. -/
theorem leave_append_cons {t : FileTree} {q : Place} {o : Outcome} (h : o.writesTo t q = true)
    (content : Option (List UInt8)) (before after : List Outcome) :
    leave t q content (before ++ o :: after) = leave t q o.bytes? after := by
  induction before generalizing content with
  | nil => rw [List.nil_append, leave_cons, if_pos h]
  | cons o' before ih => rw [List.cons_append, leave_cons, ih]

/-- A text is still there when no outcome is written over it, or the last one that is has the same
text. -/
theorem eq_encode_of_leave_iff {t : FileTree} {q : Place} {text : String} {os : List Outcome}
    {content : List UInt8} (h : leave t q (some (Utf8.encode text.toList)) os = some content) :
    content = Utf8.encode text.toList ↔
      ∀ last ∈ (os.filter (writesTo t q)).getLast?, last.text = some text := by
  unfold leave at h
  cases hlast : (os.filter (writesTo t q)).getLast? with
  | none =>
    rw [hlast] at h
    simpa using (Option.some.inj h).symm
  | some last =>
    rw [hlast] at h
    obtain ⟨lastText, hlastText, rfl⟩ := Option.map_eq_some_iff.1 h
    simp [hlastText, Utf8.encode_inj, String.toList_inj]

end Outcome

namespace Config

variable {c : Config} {checkOnly : Bool} {tree tree' final : FileTree} {target : Target}
  {o : Outcome}

/-! ## What one target does -/

theorem Generated.keeps (h : Generated c checkOnly tree target tree' o) : Keeps tree tree' := by
  cases h with
  | failed ofTarget failed unwritten grows => exact grows.keeps
  | checked sources check success => exact .refl tree
  | written sources text place noCheck success text_eq wrote found => exact wrote.keeps

/-- Where an outcome is written to, a file is found under its path ever after. The text is one for
the library of the target. -/
theorem Generated.found (h : Generated c checkOnly tree target tree' o) (hkeeps : Keeps tree' final)
    (hwritten : o.written = true) : ∃ options place content,
      options.library = o.target.library ∧ o.text = some (render options o.pass.catalogue) ∧
        final.find o.target.outputPath = .ok (place, .file content) := by
  cases h with
  | failed ofTarget failed unwritten grows =>
    exact absurd (unwritten.symm.trans hwritten) (by decide)
  | checked sources check success => cases hwritten
  | written sources text place noCheck success text_eq wrote found =>
    have htext := text_scanTarget c target sources
    rw [if_pos success] at htext
    obtain ⟨content, hfound⟩ := hkeeps.find found
    exact ⟨c.fileOptions target sources, place, content, rfl, htext, hfound⟩

/-- A file holds the text of the outcome when that is written to its place, and is as before
otherwise. -/
theorem Generated.content? (h : Generated c checkOnly tree target tree' o)
    (hkeeps : Keeps tree' final) (q : Place) :
    tree'.content? q = if o.writesTo final q then o.bytes? else tree.content? q := by
  cases h with
  | failed ofTarget failed unwritten grows =>
    rw [if_neg (by simp [Outcome.writesTo, unwritten]), grows.content?]
  | checked sources check success =>
    rw [if_neg (by simp [Outcome.writesTo, scanTarget])]
  | written sources text place noCheck success text_eq wrote found =>
    obtain ⟨content, hfound⟩ := hkeeps.find found
    have hplace : final.place? target.outputPath = some place := FileTree.place?_of_find hfound
    by_cases hq : q = place
    · rw [if_pos (by simp [Outcome.writesTo, scanTarget, hplace, hq]), hq, wrote.written]
      exact (Outcome.bytes?_of_text text_eq).symm
    · rw [if_neg (by simp [Outcome.writesTo, scanTarget, hplace, Ne.symm hq]), wrote.others q hq]

/-! ## What all targets do -/

theorem keeps_generateTargets (c : Config) (checkOnly : Bool) (tree : FileTree)
    (targets : List Target) : Keeps tree (c.generateTargets checkOnly tree targets).1 := by
  induction targets generalizing tree with
  | nil => exact .refl tree
  | cons target targets ih =>
    exact (generated_generate c checkOnly tree target).keeps.trans
      (ih (c.generate checkOnly tree target).1)

/-- There is one outcome for each target. -/
theorem targets_generateTargets (c : Config) (checkOnly : Bool) (tree : FileTree)
    (targets : List Target) :
    (c.generateTargets checkOnly tree targets).2.map (·.target) = targets := by
  induction targets generalizing tree with
  | nil => rfl
  | cons target targets ih =>
    rw [generateTargets, List.map_cons, (generated_generate c checkOnly tree target).target_eq, ih]

theorem length_generateTargets (c : Config) (checkOnly : Bool) (tree : FileTree)
    (targets : List Target) :
    (c.generateTargets checkOnly tree targets).2.length = targets.length := by
  conv_rhs => rw [← targets_generateTargets c checkOnly tree targets, List.length_map]

/-- Where an outcome is written to, a file is found under its path in the end. The text is one for
the library of the target. -/
theorem found_generateTargets (c : Config) (checkOnly : Bool) (tree : FileTree)
    (targets : List Target) {o : Outcome} (ho : o ∈ (c.generateTargets checkOnly tree targets).2)
    (hwritten : o.written = true) : ∃ options place content,
      options.library = o.target.library ∧ o.text = some (render options o.pass.catalogue) ∧
        (c.generateTargets checkOnly tree targets).1.find o.target.outputPath =
          .ok (place, .file content) := by
  induction targets generalizing tree with
  | nil => cases ho
  | cons target targets ih =>
    rw [generateTargets] at ho ⊢
    rcases List.mem_cons.1 ho with rfl | ho
    · exact (generated_generate c checkOnly tree target).found
        (keeps_generateTargets c checkOnly _ targets) hwritten
    · exact ih _ ho

/-- In the end a file holds the text of the last outcome that is written to its place, or what it
held before. -/
theorem content?_generateTargets (c : Config) (checkOnly : Bool) (tree : FileTree)
    (targets : List Target) (q : Place) :
    let (final, outcomes) := c.generateTargets checkOnly tree targets
    final.content? q = Outcome.leave final q (tree.content? q) outcomes := by
  induction targets generalizing tree with
  | nil => rfl
  | cons target targets ih =>
    have hstep := (generated_generate c checkOnly tree target).content?
      (keeps_generateTargets c checkOnly _ targets) q
    rw [generateTargets]
    dsimp only at ih ⊢
    rw [Outcome.leave_cons, ih, hstep]

/-- Two outcomes that are written to one path hold only when they are for one library. -/
theorem library_eq_of_holds (c : Config) (checkOnly : Bool) (tree : FileTree)
    (targets : List Target) {o o' : Outcome} :
    let (final, outcomes) := c.generateTargets checkOnly tree targets
    o ∈ outcomes → o' ∈ outcomes → o.written = true → o'.written = true →
      o.target.outputPath = o'.target.outputPath → o.Holds final → o'.Holds final →
        '\n' ∉ o.target.library.toList → '\n' ∉ o'.target.library.toList →
          o.target.library = o'.target.library := by
  intro ho ho' hwritten hwritten' hpath hholds hholds' hline hline'
  obtain ⟨options, place, content, hlibrary, htext, hfind⟩ :=
    found_generateTargets c checkOnly tree targets ho hwritten
  obtain ⟨options', -, -, hlibrary', htext', -⟩ :=
    found_generateTargets c checkOnly tree targets ho' hwritten'
  -- The file under the one path holds both texts.
  have hbytes := (Outcome.holds_iff htext hfind).1 hholds
  rw [Outcome.holds_iff htext' (hpath ▸ hfind), hbytes, Utf8.encode_inj, String.toList_inj]
    at hholds'
  rw [← hlibrary, ← hlibrary']
  exact Emission.library_eq_of_render_eq hholds' (hlibrary ▸ hline) (hlibrary' ▸ hline')

/-- What is found under the path of an outcome in the end is what the later outcomes leave of its
text. -/
theorem leave_of_written (c : Config) (checkOnly : Bool) (tree : FileTree) (targets : List Target)
    {before after : List Outcome} {o : Outcome} {text : String} {place : Place}
    {content : List UInt8} :
    let (final, outcomes) := c.generateTargets checkOnly tree targets
    outcomes = before ++ o :: after → o.written = true → o.text = some text →
      final.find o.target.outputPath = .ok (place, .file content) →
        Outcome.leave final place (some (Utf8.encode text.toList)) after = some content := by
  have hcontent := content?_generateTargets c checkOnly tree targets place
  generalize c.generateTargets checkOnly tree targets = run at hcontent ⊢
  obtain ⟨final, outcomes⟩ := run
  dsimp only at hcontent ⊢
  intro hsplit hwritten htext hfind
  have hwrites : o.writesTo final place = true := by
    unfold Outcome.writesTo
    rw [hwritten, FileTree.place?_of_find hfind]
    exact beq_self_eq_true _
  rw [FileTree.content?_eq_some_iff.2 (FileTree.find_eq_ok_iff.1 hfind).2.2, hsplit,
    Outcome.leave_append_cons hwrites, Outcome.bytes?_of_text htext] at hcontent
  exact hcontent.symm

/-- Each target has an outcome. Where that is written to, the path of its output leads to a file in
the end, and the file holds the text of the outcome exactly when no later outcome is written to its
place, or the last one that is has the same text. Only where the empty word is a marker need the
targets not come to their end (`scanning_ends_iff`). -/
theorem generateAll_holds_iff (c : Config) (checkOnly : Bool) (tree : FileTree) :
    let (final, outcomes) := c.generateAll checkOnly tree
    outcomes.map (·.target) = c.targets ∧
      ∀ before o after, outcomes = before ++ o :: after → o.written = true →
        ∃ text place content, o.text = some text ∧
          final.find o.target.outputPath = .ok (place, .file content) ∧
          (o.Holds final ↔ ∀ last ∈ (after.filter (Outcome.writesTo final place)).getLast?,
            last.text = some text) := by
  unfold generateAll
  refine ⟨targets_generateTargets c checkOnly tree c.targets,
    fun before o after hsplit hwritten => ?_⟩
  have ho : o ∈ (c.generateTargets checkOnly tree c.targets).2 := by
    rw [hsplit]
    exact List.mem_append_right before List.mem_cons_self
  obtain ⟨options, place, content, -, htext, hfind⟩ :=
    found_generateTargets c checkOnly tree c.targets ho hwritten
  refine ⟨_, place, content, htext, hfind, ?_⟩
  rw [Outcome.holds_iff htext hfind]
  exact Outcome.eq_encode_of_leave_iff
    (leave_of_written c checkOnly tree c.targets hsplit hwritten htext hfind)

/-- Of two targets that do not name their output file the second one's text is in the file. -/
theorem generateAll_holds_last :
    let c : Config := { targets := [{ sourceDir := ⟨"a"⟩, library := "first" },
      { sourceDir := ⟨"b"⟩, library := "second" }] }
    let tree : FileTree := ⟨[(["a"], .directory),
      (["a", "f.h"], .file (Utf8.encode "RH_C_FUNCTION void F();".toList)), (["b"], .directory),
      (["b", "g.h"], .file (Utf8.encode "RH_C_FUNCTION void G();".toList))], []⟩
    let (final, outcomes) := c.generateAll false tree
    ∃ first last, outcomes = [first, last] ∧ last.written = true ∧ last.Holds final := by
  intro c tree
  obtain ⟨first, last, houtcomes⟩ :=
    List.length_eq_two.1 (length_generateTargets c false tree c.targets)
  have hwritten : last.written = true := by
    have hall : ∀ o ∈ (c.generateTargets false tree c.targets).2, o.written = true := by
      decide +kernel
    exact hall last (by simp [houtcomes])
  obtain ⟨text, place, content, -, -, hiff⟩ :=
    (generateAll_holds_iff c false tree).2 [first] last [] houtcomes hwritten
  exact ⟨first, last, houtcomes, hwritten, hiff.2 (by simp)⟩

/-- The text of the first one is lost, although its outcome says that it is written. -/
theorem generateAll_loses_text :
    let c : Config := { targets := [{ sourceDir := ⟨"a"⟩, library := "first" },
      { sourceDir := ⟨"b"⟩, library := "second" }] }
    let tree : FileTree := ⟨[(["a"], .directory),
      (["a", "f.h"], .file (Utf8.encode "RH_C_FUNCTION void F();".toList)), (["b"], .directory),
      (["b", "g.h"], .file (Utf8.encode "RH_C_FUNCTION void G();".toList))], []⟩
    let (final, outcomes) := c.generateAll false tree
    ¬∀ o ∈ outcomes, o.written = true → o.Holds final := by
  intro c tree hholds
  have hwritten : ∀ o ∈ (c.generateAll false tree).2, o.written = true := by decide +kernel
  obtain ⟨first, second, houtcomes⟩ :=
    List.length_eq_two.1 (length_generateTargets c false tree c.targets)
  have hfirst : first ∈ (c.generateTargets false tree c.targets).2 := by simp [houtcomes]
  have hsecond : second ∈ (c.generateTargets false tree c.targets).2 := by simp [houtcomes]
  have htargets := targets_generateTargets c false tree c.targets
  rw [houtcomes] at htargets
  -- Both targets write to the same path.
  have htarget : first.target = { sourceDir := ⟨"a"⟩, library := "first" } :=
    (List.cons.inj htargets).1
  have htarget' : second.target = { sourceDir := ⟨"b"⟩, library := "second" } :=
    (List.cons.inj (List.cons.inj htargets).2).1
  -- One file would hold both texts, with both libraries in its header.
  have hlibrary := library_eq_of_holds c false tree c.targets hfirst hsecond
    (hwritten first hfirst) (hwritten second hsecond) (by rw [htarget, htarget']; rfl)
    (hholds first hfirst (hwritten first hfirst)) (hholds second hsecond (hwritten second hsecond))
    (by rw [htarget]; decide) (by rw [htarget']; decide)
  rw [htarget, htarget'] at hlibrary
  exact absurd hlibrary (by decide)

end Config

end NativeBindings
