import Mathlib.Data.List.Basic
import Mathlib.Tactic.Set
import NativeBindings.FileTree.TextFile

/-!
# What writing changes

No operation on a file tree removes an entry or turns a file into a directory or back (`Keeps`), so
a path leads to the same place ever after (`Keeps.follow`). Creating directories changes no file
(`Grows`), whether it succeeds or fails midway. A text is written to the one place that its path
leads to (`Wrote`); `writeText_cases` says all that `writeText` can do to a tree.
-/

namespace NativeBindings.FileTree

variable {t t' t'' : FileTree}

/-- The bytes of the file at a place. -/
def content? (t : FileTree) (q : Place) : Option (List UInt8) :=
  match t.get? q with
  | some (.file content) => some content
  | _ => none

theorem content?_eq_some_iff {q : Place} {content : List UInt8} :
    t.content? q = some content ↔ t.get? q = some (.file content) := by
  unfold content?
  split
  · rename_i c h
    simp [h]
  · rename_i h
    simp only [reduceCtorEq, false_iff]
    exact h content

/-! ## Trees that keep their entries -/

/-- Directories stay directories and files stay files, maybe with other bytes. -/
structure Keeps (t t' : FileTree) : Prop where
  /-- Relative paths start from the same directory. -/
  cwd : t'.cwd = t.cwd
  /-- Directories stay. -/
  directory : ∀ q, t.get? q = some .directory → t'.get? q = some .directory
  /-- Files stay. -/
  file : ∀ q content, t.get? q = some (.file content) → ∃ new, t'.get? q = some (.file new)

namespace Keeps

theorem refl (t : FileTree) : Keeps t t := ⟨rfl, fun _ h => h, fun _ content h => ⟨content, h⟩⟩

theorem trans (h : Keeps t t') (h' : Keeps t' t'') : Keeps t t'' where
  cwd := h'.cwd.trans h.cwd
  directory q hq := h'.directory q (h.directory q hq)
  file q content hq := by
    obtain ⟨new, hnew⟩ := h.file q content hq
    exact h'.file q new hnew

/-- Pieces of a path lead to the same place. -/
theorem follow (h : Keeps t t') {place q : Place} {ps : List Text}
    (hq : t.follow place ps = .ok q) : t'.follow place ps = .ok q := by
  induction ps generalizing place with
  | nil => exact hq
  | cons p ps ih =>
    rw [FileTree.follow] at hq ⊢
    -- Only a directory lets the path go on, and it has stayed one.
    cases hget : t.get? place with
    | none => rw [hget] at hq; cases hq
    | some e =>
      cases e with
      | file content => rw [hget] at hq; cases hq
      | directory =>
        rw [hget] at hq
        rw [h.directory place hget]
        dsimp only at hq ⊢
        split at hq
        · cases hq
        · rename_i hsize
          rw [if_neg hsize]
          exact ih hq

/-- Paths start from the same place. -/
theorem startOf (h : Keeps t t') (p : Path) : t'.startOf p = t.startOf p := by
  unfold FileTree.startOf
  rw [h.cwd]

end Keeps

/-- Directories may have come where nothing was. All else is as before. -/
structure Grows (t t' : FileTree) : Prop where
  /-- Relative paths start from the same directory. -/
  cwd : t'.cwd = t.cwd
  /-- A place holds what it held, or a new directory. -/
  get? : ∀ q, t'.get? q = t.get? q ∨ t.get? q = none ∧ t'.get? q = some .directory

namespace Grows

theorem refl (t : FileTree) : Grows t t := ⟨rfl, fun _ => .inl rfl⟩

theorem trans (h : Grows t t') (h' : Grows t' t'') : Grows t t'' := by
  refine ⟨h'.cwd.trans h.cwd, fun q => ?_⟩
  rcases h.get? q with hsame | ⟨hnone, hnew⟩
  · rw [← hsame]
    exact h'.get? q
  · refine .inr ⟨hnone, ?_⟩
    rcases h'.get? q with hsame' | ⟨hnone', -⟩
    · rw [hsame', hnew]
    · rw [hnew] at hnone'
      cases hnone'

theorem keeps (h : Grows t t') : Keeps t t' := by
  have hsome : ∀ q e, t.get? q = some e → t'.get? q = some e := by
    intro q e hq
    rcases h.get? q with hsame | ⟨hnone, -⟩
    · rw [hsame, hq]
    · rw [hq] at hnone
      cases hnone
  exact ⟨h.cwd, fun q => hsome q .directory, fun q content hq => ⟨content, hsome q _ hq⟩⟩

/-- No file is created or altered. -/
theorem content? (h : Grows t t') (q : Place) : t'.content? q = t.content? q := by
  unfold FileTree.content?
  rcases h.get? q with hsame | ⟨hnone, hnew⟩
  · rw [hsame]
  · rw [hnone, hnew]

end Grows

/-- A file has been written at a place. -/
structure Wrote (t : FileTree) (place : Place) (content : List UInt8) (t' : FileTree) : Prop where
  /-- Directories stay directories and files stay files. -/
  keeps : Keeps t t'
  /-- The place held a file or nothing. -/
  free : t.get? place ≠ some .directory
  /-- It holds the bytes. -/
  written : t'.content? place = some content
  /-- Other files are as they were. -/
  others : ∀ q, q ≠ place → t'.content? q = t.content? q

/-- Directories may have been created before. -/
theorem Wrote.behind {place : Place} {content : List UInt8} (h : Wrote t' place content t'')
    (hgrows : Grows t t') : Wrote t place content t'' where
  keeps := hgrows.keeps.trans h.keeps
  free hplace := h.free (hgrows.keeps.directory place hplace)
  written := h.written
  others q hq := (h.others q hq).trans (hgrows.content? q)

/-- An entry put where nothing was, if it is a directory. -/
theorem grows_put {place : Place} (hne : place ≠ []) (hget : t.get? place = none) :
    Grows t (t.put place .directory) := by
  refine ⟨rfl, fun q => ?_⟩
  rw [get?_put t hne]
  split
  · rename_i hq
    exact .inr ⟨hq ▸ hget, rfl⟩
  · exact .inl rfl

/-- A file put where no directory was. -/
theorem wrote_put {place : Place} (hne : place ≠ []) (hget : t.get? place ≠ some .directory)
    (content : List UInt8) : Wrote t place content (t.put place (.file content)) where
  keeps := by
    refine ⟨rfl, fun q hq => ?_, fun q old hq => ?_⟩
    · have hother : q ≠ place := by
        rintro rfl
        exact hget hq
      rw [get?_put t hne, if_neg hother, hq]
    · rw [get?_put t hne]
      split
      · exact ⟨content, rfl⟩
      · exact ⟨old, hq⟩
  free := hget
  written := by rw [content?_eq_some_iff, get?_put t hne, if_pos rfl]
  others q hq := by
    unfold content?
    rw [get?_put t hne, if_neg hq]

/-! ## Following a path to its end -/

/-- The pieces of a path lead on from where the first of them lead. -/
theorem follow_append (t : FileTree) (place : Place) (ps qs : List Text) :
    t.follow place (ps ++ qs) = (t.follow place ps).bind (t.follow · qs) := by
  induction ps generalizing place with
  | nil => rfl
  | cons p ps ih =>
    rw [List.cons_append, follow, follow]
    cases t.get? place with
    | none => rfl
    | some e =>
      cases e with
      | file content => rfl
      | directory =>
        dsimp only
        split
        · rfl
        · exact ih (stepTo place p)

/-- A path leads to an entry when it is a possible path, its pieces lead to a place, and the entry
lies there. -/
theorem find_eq_ok_iff {p : Path} {place : Place} {e : Entry} :
    t.find p = .ok (place, e) ↔ pathError? p = none ∧
      t.follow (t.startOf p) (Path.pieces p.text.toList) = .ok place ∧ t.get? place = some e := by
  unfold find
  cases pathError? p with
  | some error =>
    dsimp only [bind, Except.bind, throw, throwThe, MonadExceptOf.throw]
    constructor
    · intro h
      cases h
    · rintro ⟨h, -⟩
      cases h
  | none =>
    dsimp only [bind, Except.bind, throw, throwThe, MonadExceptOf.throw, pure, Except.pure]
    -- The path is possible: its pieces lead nowhere, or to a place with or without an entry.
    cases t.follow (t.startOf p) (Path.pieces p.text.toList) with
    | error error =>
      constructor
      · intro h
        cases h
      · rintro ⟨-, h, -⟩
        cases h
    | ok q =>
      simp only [Except.ok.injEq, true_and]
      constructor
      · intro h
        split at h
        · rename_i e' hq
          cases h
          exact ⟨rfl, hq⟩
        · cases h
      · rintro ⟨rfl, hq⟩
        rw [hq]

/-- A path that leads to a file leads to a file at the same place ever after. -/
theorem Keeps.find {p : Path} {place : Place} {content : List UInt8} (h : Keeps t t')
    (hfind : t.find p = .ok (place, .file content)) :
    ∃ new, t'.find p = .ok (place, .file new) := by
  obtain ⟨herror, hfollow, hget⟩ := find_eq_ok_iff.1 hfind
  obtain ⟨new, hnew⟩ := h.file place content hget
  refine ⟨new, find_eq_ok_iff.2 ⟨herror, ?_, hnew⟩⟩
  rw [h.startOf]
  exact h.follow hfollow

/-- The place that a path leads to, when something lies there. -/
def place? (t : FileTree) (p : Path) : Option Place := (t.find p).toOption.map (·.1)

theorem place?_of_find {p : Path} {place : Place} {e : Entry} (h : t.find p = .ok (place, e)) :
    t.place? p = some place := by
  unfold place?
  rw [h]
  rfl

/-- Where the last name of a path leads: its directory is there, and the name is written at the end
of the path, with nothing behind it but separators. -/
theorem target_eq_ok {p : Path} {parent : Place} {name : String} {slashed : Bool}
    (h : t.target p = .ok ⟨parent, some name, slashed⟩) :
    ∃ before piece, pathError? p = none ∧ t.follow (t.startOf p) before = .ok parent ∧
      t.get? parent = some .directory ∧ Path.Component.ofPiece? piece = some (.named name) ∧
      (slashed = false → Path.pieces p.text.toList = before ++ [piece]) := by
  unfold target at h
  cases herror : pathError? p with
  | some error => rw [herror] at h; cases h
  | none =>
    rw [herror] at h
    dsimp only [bind, Except.bind, throw, throwThe, MonadExceptOf.throw, pure, Except.pure] at h
    -- The pieces of the path, and those that have a name at their end.
    set pieces := Path.pieces p.text.toList
    set named := dropTrailing List.isEmpty pieces
    cases hfollow : t.follow (t.startOf p) named.dropLast with
    | error error => rw [hfollow] at h; cases h
    | ok q =>
      rw [hfollow] at h
      dsimp only at h
      split at h
      · cases h
      · cases h
      · rename_i hq
        injection h with h
        injection h with hparent hname hslashed
        subst hparent
        split at hname
        · rename_i name' hlast
          obtain ⟨piece, hpiece, hof⟩ := Option.bind_eq_some_iff.1 hlast
          cases hname
          refine ⟨named.dropLast, piece, rfl, hfollow, hq, hof, fun hs => ?_⟩
          rw [hs, decide_eq_false_iff_not] at hslashed
          -- No piece is left out, so the last one holds the name.
          have hprefix : named <+: pieces :=
            ⟨_, dropTrailing_append_takeTrailing List.isEmpty pieces⟩
          have hall : named = pieces := hprefix.eq_of_length_le (Nat.le_of_not_lt hslashed)
          rw [List.dropLast_append_getLast? piece hpiece, hall]
        · cases hname

/-! ## New entries -/

/-- The place that a piece with a name leads to, and the name. -/
theorem stepTo_eq {piece : Text} {name : String}
    (h : Path.Component.ofPiece? piece = some (.named name)) (place : Place) :
    stepTo place piece = place ++ [name] ∧ String.ofList piece = name := by
  unfold stepTo
  rw [h]
  refine ⟨rfl, ?_⟩
  unfold Path.Component.ofPiece? at h
  split at h
  · cases h
  · cases h
  · cases h
  · injection h with h
    injection h

/-- A directory is created where nothing was. -/
theorem grows_createDirectory {p : Path} (h : t.createDirectory p = .ok t') : Grows t t' := by
  unfold createDirectory at h
  cases htarget : t.target p with
  | error e => rw [htarget] at h; cases h
  | ok target =>
    obtain ⟨parent, _ | name, slashed⟩ := target
    · rw [htarget] at h
      cases h
    · rw [htarget] at h
      dsimp only [bind, Except.bind] at h
      split at h
      · cases h
      · split at h
        · cases h
        · rename_i hget
          cases h
          exact grows_put (by simp) hget

/-- A file is written to the place that its path leads to afterwards. -/
theorem wrote_write {p : Path} {content : List UInt8} (h : t.write p content = .ok t') :
    ∃ place, Wrote t place content t' ∧ t'.find p = .ok (place, .file content) := by
  unfold write at h
  cases htarget : t.target p with
  | error e => rw [htarget] at h; cases h
  | ok target =>
    obtain ⟨parent, _ | name, _ | _⟩ := target
    · rw [htarget] at h; cases h
    · rw [htarget] at h; cases h
    · rw [htarget] at h
      dsimp only [bind, Except.bind] at h
      split at h
      · cases h
      · rename_i hsize
        split at h
        · cases h
        · -- The name is not that of a directory, so the file is put there.
          rename_i hget
          cases h
          obtain ⟨before, piece, herror, hfollow, hparent, hpiece, hpieces⟩ := target_eq_ok htarget
          obtain ⟨hstep, hname⟩ := stepTo_eq hpiece parent
          have hne : parent ++ [name] ≠ [] := by simp
          have hwrote := wrote_put hne hget content
          refine ⟨parent ++ [name], hwrote, find_eq_ok_iff.2 ⟨herror, ?_,
            content?_eq_some_iff.1 hwrote.written⟩⟩
          -- The directory is found as before, and then the last piece leads to the file.
          rw [hpieces rfl, follow_append, hwrote.keeps.startOf, hwrote.keeps.follow hfollow]
          dsimp only [Except.bind]
          rw [follow, hwrote.keeps.directory parent hparent]
          dsimp only
          rw [hname, if_neg hsize, hstep, follow]
    · rw [htarget] at h; cases h

/-- Whatever becomes of the creation of directories, no file changes. -/
theorem grows_createAlong (t : FileTree) (ps : List Path) : Grows t (t.createAlong ps).1 := by
  induction ps generalizing t with
  | nil => exact .refl t
  | cons p parents ih =>
    rw [createAlong]
    -- The directory is created, or its parent is missing, or it fails.
    split
    · exact .refl t
    · split
      · rename_i t' hcreate
        exact grows_createDirectory hcreate
      · -- A parent is missing: the parents are created first.
        have hparents := ih t
        split
        · rename_i t' e heq
          rw [heq] at hparents
          exact hparents
        · rename_i t' heq
          rw [heq] at hparents
          split
          · rename_i t'' hcreate
            exact hparents.trans (grows_createDirectory hcreate)
          · exact hparents
      · exact .refl t

theorem grows_ensureDirectory (t : FileTree) (p : Path) : Grows t (t.ensureDirectory p).1 := by
  unfold ensureDirectory
  split
  · exact .refl t
  · exact grows_createAlong t p.ancestors

/-- The tree in which the directory of a path is there, and why that fails. -/
def withDirectoryOf (t : FileTree) (p : Path) : FileTree × Option FileError :=
  match p.parent? with
  | some parent => t.ensureDirectory parent
  | none => (t, none)

theorem grows_withDirectoryOf (t : FileTree) (p : Path) : Grows t (t.withDirectoryOf p).1 := by
  unfold withDirectoryOf
  split
  · exact grows_ensureDirectory t _
  · exact .refl t

/-- All that writing a text can do. It fails and changes no file, or the text is written to the
place that the path leads to afterwards. -/
theorem writeText_cases (t : FileTree) (p : Path) (text : String) :
    (∃ t' e, t.writeText p text = (t', some e) ∧ Grows t t') ∨
      ∃ t' place, t.writeText p text = (t', none) ∧ Wrote t place (Utf8.encode text.toList) t' ∧
        t'.find p = .ok (place, .file (Utf8.encode text.toList)) := by
  have hgrows := grows_withDirectoryOf t p
  unfold writeText
  dsimp only
  -- The directory of the file comes first; where it cannot be made nothing is written.
  split
  · rename_i t' e hready
    have hdirectory : t.withDirectoryOf p = (t', some e) := hready
    rw [hdirectory] at hgrows
    exact .inl ⟨t', e, rfl, hgrows⟩
  · rename_i t' hready
    have hdirectory : t.withDirectoryOf p = (t', none) := hready
    rw [hdirectory] at hgrows
    cases hwrite : t'.write p (Utf8.encode text.toList) with
    | ok t'' =>
      obtain ⟨place, hwrote, hfind⟩ := wrote_write hwrite
      exact .inr ⟨t'', place, rfl, hwrote.behind hgrows, hfind⟩
    | error cause => exact .inl ⟨t', _, rfl, hgrows⟩

end NativeBindings.FileTree
