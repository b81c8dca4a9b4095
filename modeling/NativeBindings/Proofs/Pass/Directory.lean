import NativeBindings.Generation
import NativeBindings.Proofs.Emission.Listing
import NativeBindings.Proofs.Path.Join
import NativeBindings.Proofs.Scanner.Move

/-!
# Where the sources lie

A pass over sources in a directory ends like the pass over their bare names, with every signature
moved into the directory (`catalogue_into`, `failed_into`). A catalogue is built alike as long as
the move keeps its files apart (`addUntil_move`), and the generated file shows nothing of them but
their names (`render_move`). So neither the generated file nor the fingerprint says in which
directory the sources lie (`process_directory`).
-/

namespace NativeBindings

/-- Every file moved into a directory. -/
def Move.into (d : Path) : Move := { file := d.join }

/-- Of the given files none are put together by the move, and each is shown as before. -/
structure Move.KeepsFiles (m : Move) (P : Path → Prop) : Prop where
  /-- Two files are the same place exactly when they were. -/
  same : ∀ p q, P p → P q → (m.file p).same (m.file q) = p.same q
  /-- A file is shown under its name. -/
  displayName : ∀ p, P p → (m.file p).displayName = p.displayName

/-- In a directory the distances between lines are the same. -/
theorem Move.keepsDistances_into (d : Path) : (into d).KeepsDistances := fun _ _ => rfl

/-- The path is a plain name. -/
def Path.IsBare (p : Path) : Prop := Path.IsPlain p.text

/-- A directory keeps plain names. -/
theorem Move.keepsFiles_into (d : Path) : (Move.into d).KeepsFiles Path.IsBare where
  same := fun p q hp hq => by
    have hhere := Path.same_join_iff ⟨""⟩ hp hq
    rw [Path.empty_join, Path.empty_join] at hhere
    rw [Bool.eq_iff_iff]
    exact (Path.same_join_iff d hp hq).trans hhere.symm
  displayName := fun p hp => by
    have hhere := Path.displayName_join ⟨""⟩ hp
    rw [Path.empty_join] at hhere
    exact (Path.displayName_join d hp).trans hhere.symm

/-- The signature of a declaration elsewhere. -/
def Signature.move (m : Move) (s : Signature) : Signature := { s with origin := s.origin.move m }

/-! ## Sources -/

/-- What a source gives that lies in a directory. -/
def FileScan.into (d : Path) (scan : FileScan) : FileScan where
  file := d.join scan.file
  signatures := scan.signatures.map (Signature.move (.into d))
  warnings := scan.warnings.map (Diagnostic.move (.into d))
  error := scan.error

/-- A declaration elsewhere is warned about like before. -/
theorem Mapper.diagnostics_move (mapper : Mapper) (m : Move) (d : Declaration) :
    mapper.diagnostics (d.move m) = (mapper.diagnostics d).map (Diagnostic.move m) := by
  unfold Mapper.diagnostics
  rw [List.map_map]
  refine List.map_congr_left fun w _ => ?_
  cases w <;> rfl

/-- A source gives the same in every directory. -/
theorem scanSource_into (settings : Settings) (d file : Path) (text : Text) :
    scanSource settings (d.join file) text = (scanSource settings file text).into d := by
  unfold scanSource
  cases Conditional.filter settings.symbols text with
  | error e => rfl
  | ok filtered =>
    -- The lines keep their numbers, and the findings move to the directory.
    have hlines : filtered.live.map (Conditional.SourceLine.move (.into d)) = filtered.live :=
      List.map_id _
    have hscan : Scanner.scan settings.scan (d.join file)
        (filtered.live.map (Conditional.SourceLine.move (.into d))) =
          (Scanner.scan settings.scan file filtered.live).map (Scanner.Finding.move (.into d)) :=
      Scanner.scan_move settings.scan file (Move.keepsDistances_into d) filtered.live
    rw [hlines] at hscan
    dsimp only
    rw [hscan, Scanner.declarations_move]
    unfold FileScan.into
    congr 1
    · rw [List.map_map, List.map_map]
      rfl
    · have hwarnings (found : List Scanner.Finding) :
          Scanner.warnings (d.join file) (found.map (Scanner.Finding.move (.into d))) =
            (Scanner.warnings file found).map (Diagnostic.move (.into d)) :=
        Scanner.warnings_move (.into d) file found
      rw [hwarnings, List.map_append, List.map_append, List.map_map, List.map_flatMap,
        List.flatMap_map]
      simp only [Mapper.diagnostics_move]
      rfl

/-! ## Catalogues -/

/-- The conflict of two declarations elsewhere. -/
def Conflict.move (m : Move) (c : Conflict) : Conflict :=
  { c with first := c.first.move m, second := c.second.move m }

namespace Catalogue

variable {c : Catalogue} {s : Signature} {m : Move} {P : Path → Prop}

/-- The catalogue with its signatures elsewhere. -/
def move (m : Move) (c : Catalogue) : Catalogue :=
  { c with entries := c.entries.map (Signature.move m), files := c.files.map m.file }

/-- The files of a catalogue are among the given ones. -/
structure Within (P : Path → Prop) (c : Catalogue) : Prop where
  /-- The entries come from them. -/
  entries : ∀ e ∈ c.entries, P e.origin.file
  /-- They are the files of the groups. -/
  files : ∀ f ∈ c.files, P f

theorem within_empty : empty.Within P := ⟨nofun, nofun⟩

theorem get?_move (m : Move) (c : Catalogue) (name : String) :
    (c.move m).get? name = (c.get? name).map (Signature.move m) := by
  show ((c.index.lookup name).bind fun i => (c.entries.map (Signature.move m))[i]?) = _
  unfold get?
  cases c.index.lookup name with
  | none => rfl
  | some i => exact List.getElem?_map

/-- A new entry comes from its own file. -/
theorem Within.append (h : c.Within P) (hs : P s.origin.file) : (c.append s).Within P := by
  constructor
  · intro e he
    rcases List.mem_append.1 he with he | he
    · exact h.entries e he
    · rwa [List.mem_singleton.1 he]
  · intro f hf
    unfold Catalogue.append at hf
    dsimp only at hf
    split at hf
    · exact h.files f hf
    · rcases List.mem_append.1 hf with hf | hf
      · exact h.files f hf
      · rwa [List.mem_singleton.1 hf]

/-- What is added comes from the given files. -/
theorem Within.add (h : c.Within P) (hs : P s.origin.file) {r : Insertion × Catalogue}
    (hadd : c.add s = .ok r) : r.2.Within P := by
  rw [Catalogue.add_eq] at hadd
  cases hget : c.get? s.name with
  | none =>
    rw [hget] at hadd
    obtain rfl := Except.ok.inj hadd
    exact h.append hs
  | some first =>
    rw [hget] at hadd
    dsimp only at hadd
    split at hadd
    · obtain rfl := Except.ok.inj hadd
      exact h
    · cases hadd

/-- A signature is added elsewhere as it is here: its file is known when it was. -/
theorem append_move (hm : m.KeepsFiles P) (h : c.Within P) (hs : P s.origin.file) :
    (c.move m).append (s.move m) = (c.append s).move m := by
  have hknown : (c.files.map m.file).any (·.same (m.file s.origin.file)) =
      c.files.any (·.same s.origin.file) := by
    rw [List.any_map, Bool.eq_iff_iff, List.any_eq_true, List.any_eq_true]
    refine exists_congr fun f => and_congr_right fun hf => ?_
    rw [Function.comp_apply, hm.same f _ (h.files f hf) hs]
  unfold append move
  show Catalogue.mk _ _ (if (c.files.map m.file).any (·.same (m.file s.origin.file)) then _ else _)
    = _
  rw [hknown]
  dsimp only
  rw [List.map_append, List.length_map]
  split
  · rfl
  · rw [List.map_append]
    rfl

/-- What becomes of a signature elsewhere is what becomes of it here. -/
theorem add_move (hm : m.KeepsFiles P) (h : c.Within P) (hs : P s.origin.file) :
    (c.move m).add (s.move m) =
      ((c.add s).map fun r => (r.1, r.2.move m)).mapError (Conflict.move m) := by
  have hget : (c.move m).get? (s.move m).name = (c.get? s.name).map (Signature.move m) :=
    get?_move m c s.name
  rw [add_eq, add_eq, hget, append_move hm h hs]
  cases c.get? s.name with
  | none => rfl
  | some first =>
    show (if first.sameBinding s then _ else _) = _
    dsimp only
    split <;> rfl

/-- Signatures are added elsewhere as they are here. -/
theorem addUntil_move (hm : m.KeepsFiles P) (h : c.Within P) {ss : List Signature}
    (hss : ∀ s ∈ ss, P s.origin.file) :
    (c.move m).addUntil (ss.map (Signature.move m)) =
      ((c.addUntil ss).1.move m, (c.addUntil ss).2) ∧ (c.addUntil ss).1.Within P := by
  induction ss generalizing c with
  | nil => exact ⟨rfl, h⟩
  | cons s ss ih =>
    obtain ⟨hs, hrest⟩ := List.forall_mem_cons.1 hss
    rw [List.map_cons, addUntil, addUntil, add_move hm h hs]
    cases hadd : c.add s with
    | error conflict => exact ⟨rfl, h⟩
    | ok r => exact ih (h.add hs hadd) hrest

/-- The groups elsewhere are the groups with their files and entries elsewhere. -/
theorem groups_move (hm : m.KeepsFiles P) (h : c.Within P) :
    (c.move m).groups =
      c.groups.map fun g => (m.file g.1, g.2.map (Signature.move m)) := by
  unfold groups move
  dsimp only
  rw [List.map_map, List.map_map]
  refine List.map_congr_left fun f hf => Prod.ext rfl ?_
  show (c.entries.map (Signature.move m)).filter (·.origin.file.same (m.file f)) =
    (c.entries.filter (·.origin.file.same f)).map (Signature.move m)
  rw [List.filter_map]
  congr 1
  exact List.filter_congr fun e he => hm.same _ f (h.entries e he) (h.files f hf)

end Catalogue

/-- The generated file shows the same wherever the files lie, when they keep their names. -/
theorem Emission.render_move {m : Move} {P : Path → Prop} (hm : m.KeepsFiles P) {c : Catalogue}
    (h : c.Within P) (o : Options) : render o (c.move m) = render o c := by
  -- Of the files only the names to display are written, and these stay as they are.
  have hgroup (depth : Nat) : ∀ g ∈ c.groups,
      groupLines o depth (m.file g.1, g.2.map (Signature.move m)) = groupLines o depth g := by
    intro g hg
    have hfile : g.1 ∈ c.files := (Catalogue.mem_groups.1 hg).1
    unfold groupLines
    rw [hm.displayName g.1 (h.files g.1 hfile), List.flatMap_map]
    rfl
  have hclass (depth : Nat) : classLines o depth (c.move m) = classLines o depth c := by
    have hgroups : (c.move m).groups.map (groupLines o (depth + 1)) =
        c.groups.map (groupLines o (depth + 1)) := by
      rw [Catalogue.groups_move hm h, List.map_map]
      exact List.map_congr_left (hgroup (depth + 1))
    unfold classLines
    rw [hgroups]
  unfold render fileLines
  rw [hclass, hclass]

/-! ## Passes -/

/-- The sources with the given names in a directory. -/
def sourcesIn (d : Path) (files : List (String × Text)) : List (Path × Text) :=
  files.map fun (name, text) => (d.join ⟨name⟩, text)

/-- The sources with the given names by themselves. -/
def bareSources (files : List (String × Text)) : List (Path × Text) :=
  files.map fun (name, text) => (⟨name⟩, text)

/-- A source is accepted in every directory or in none. -/
theorem accepts_sourcesIn (settings : Settings) (d : Path) (files : List (String × Text)) :
    (∃ source ∈ sourcesIn d files, settings.accepts source = false) ↔
      ∃ source ∈ bareSources files, settings.accepts source = false := by
  unfold sourcesIn bareSources
  simp only [List.mem_map, exists_exists_and_eq_and]
  rfl

/-- The signatures of sources in a directory are moved into it. -/
theorem signatures_sourcesIn (settings : Settings) (d : Path) (files : List (String × Text)) :
    settings.signatures (sourcesIn d files) =
      (settings.signatures (bareSources files)).map (Signature.move (.into d)) := by
  unfold Settings.signatures sourcesIn bareSources
  rw [List.filter_map, List.filter_map, List.flatMap_map, List.flatMap_map, List.map_flatMap]
  simp only [scanSource_into]
  rfl

variable {files : List (String × Text)}

/-- Sources with plain names give signatures of files with plain names. -/
theorem isBare_origin (settings : Settings) (h : ∀ f ∈ files, Path.IsPlain f.1) :
    ∀ s ∈ settings.signatures (bareSources files), s.origin.file.IsBare := by
  intro s hs
  obtain ⟨source, hsource, hs⟩ := List.mem_flatMap.1 hs
  obtain ⟨f, hf, rfl⟩ := List.mem_map.1 (List.mem_filter.1 hsource).1
  rw [Emission.file_origin_scanSource hs]
  exact h f hf

namespace Pass

/-- A pass over sources in a directory fails when the pass over their bare names does. -/
theorem failed_into (settings : Settings) (d : Path) :
    (({} : Pass).process settings (sourcesIn d files)).failed =
      (({} : Pass).process settings (bareSources files)).failed := by
  refine (endAlike_process (accepts_sourcesIn settings d files) fun b => ?_).1
  -- What a signature binds does not depend on its origin.
  rw [signatures_sourcesIn, List.map_map]
  rfl

/-- A pass over sources in a directory holds the signatures of the pass over their bare names, moved
into the directory. -/
theorem catalogue_into (settings : Settings) (d : Path) (h : ∀ f ∈ files, Path.IsPlain f.1) :
    (({} : Pass).process settings (sourcesIn d files)).catalogue =
        (({} : Pass).process settings (bareSources files)).catalogue.move (.into d) ∧
      (({} : Pass).process settings (bareSources files)).catalogue.Within Path.IsBare := by
  obtain ⟨hmove, hwithin⟩ := Catalogue.addUntil_move (Move.keepsFiles_into d)
    Catalogue.within_empty (isBare_origin settings h)
  rw [catalogue_process, catalogue_process, signatures_sourcesIn]
  exact ⟨congrArg Prod.fst hmove, hwithin⟩

/-- The generated file is that of the bare names. -/
theorem render_into (settings : Settings) (o : Emission.Options) (d : Path)
    (h : ∀ f ∈ files, Path.IsPlain f.1) :
    Emission.render o (({} : Pass).process settings (sourcesIn d files)).catalogue =
      Emission.render o (({} : Pass).process settings (bareSources files)).catalogue := by
  obtain ⟨hcatalogue, hwithin⟩ := catalogue_into settings d h
  rw [hcatalogue]
  exact Emission.render_move (Move.keepsFiles_into d) hwithin o

/-- The fingerprint is made of the names. -/
theorem fingerprint_into (target : Target) (d : Path) (h : ∀ f ∈ files, Path.IsPlain f.1) :
    target.fingerprint (sourcesIn d files) =
      Fingerprint.Inputs.fingerprint {
        library := target.library
        symbols := target.symbols
        files := files.map fun (name, text) => (name, String.ofList text) } := by
  unfold Target.fingerprint sourcesIn
  rw [List.map_map]
  congr 2
  exact List.map_congr_left fun f hf => Prod.ext (Path.displayName_join d (h f hf)) rfl

/-- What is generated does not depend on the directory of the sources. Files with the same plain
names and the same texts in two directories make the pass fail in both or in neither. The generated
text is the same for all options, and so is the fingerprint of the inputs and with it the text of
every target. Only with the empty word as a marker is there a pass that does not end
(`scanning_ends_iff`). -/
theorem process_directory (settings : Settings) (o : Emission.Options) (d d' : Path)
    (h : ∀ f ∈ files, Path.IsPlain f.1) :
    let pass := ({} : Pass).process settings (sourcesIn d files)
    let pass' := ({} : Pass).process settings (sourcesIn d' files)
    pass.failed = pass'.failed ∧
      Emission.render o pass.catalogue = Emission.render o pass'.catalogue ∧
      ∀ (c : Config) (target : Target),
        target.fingerprint (sourcesIn d files) = target.fingerprint (sourcesIn d' files) ∧
        (c.scanTarget target (sourcesIn d files)).text =
          (c.scanTarget target (sourcesIn d' files)).text := by
  intro pass pass'
  refine ⟨?_, ?_, fun c target => ?_⟩
  · exact (failed_into settings d).trans (failed_into settings d').symm
  · exact (render_into settings o d h).trans (render_into settings o d' h).symm
  · have hfingerprint : target.fingerprint (sourcesIn d files) =
        target.fingerprint (sourcesIn d' files) :=
      (fingerprint_into target d h).trans (fingerprint_into target d' h).symm
    refine ⟨hfingerprint, ?_⟩
    unfold Config.scanTarget
    dsimp only
    rw [hfingerprint, failed_into (c.settings target) d, failed_into (c.settings target) d',
      render_into _ _ d h, render_into _ _ d' h]

/-- A header and a source that declares its function again, under an absolute directory that ends
with a separator and under none. -/
theorem process_directory_redeclared :
    let settings : Settings := ⟨.ofList [], { markers := ["API"] }, ⟨.default, .cdecl⟩⟩
    let files := [("a.h", "API int F(int x);".toList),
      ("b.cpp", "API int F(int y) {}\nAPI void G();".toList)]
    let pass := ({} : Pass).process settings (sourcesIn ⟨"/home/native/"⟩ files)
    let pass' := ({} : Pass).process settings (sourcesIn ⟨""⟩ files)
    (∀ f ∈ files, Path.IsPlain f.1) ∧
      (pass'.failed = false ∧ pass'.catalogue.names = ["F", "G"]) ∧
      pass.failed = pass'.failed ∧
      Emission.render {} pass.catalogue = Emission.render {} pass'.catalogue := by
  intro settings files pass pass'
  have hplain : ∀ f ∈ files, Path.IsPlain f.1 := by decide
  obtain ⟨hfailed, hrender, -⟩ := process_directory settings {} ⟨"/home/native/"⟩ ⟨""⟩ hplain
  exact ⟨hplain, by decide +kernel, hfailed, hrender⟩

end Pass

end NativeBindings
