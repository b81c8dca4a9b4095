import NativeBindings.Path

/-!
# File trees

A file tree holds directories and files under one root, and the directory that relative paths start
from. A path is followed from directory to directory; each step into a file, each step into nothing
and each step to a name that is too long fails with its own error. Paths and names have a bounded
size in bytes, and no path holds a NUL character.
-/

namespace NativeBindings

/-- Why an operation on a path is refused. -/
inductive OsError
  /-- An entry on the path, or the last one, does not exist. -/
  | notFound
  /-- The entry to be created exists. -/
  | alreadyExists
  /-- The path leads through a file. -/
  | notADirectory
  /-- The entry is a directory where a file is needed. -/
  | isADirectory
  /-- The path, or a name on it, has too many bytes. -/
  | nameTooLong
  /-- The path holds a NUL character, which would end it for the operating system. -/
  | nulInPath
  deriving DecidableEq, Repr

/-- The text of an error; one that the operating system reports has its number. -/
def OsError.message : OsError → String
  | .notFound => "No such file or directory (os error 2)"
  | .alreadyExists => "File exists (os error 17)"
  | .notADirectory => "Not a directory (os error 20)"
  | .isADirectory => "Is a directory (os error 21)"
  | .nameTooLong => "File name too long (os error 36)"
  | .nulInPath => "file name contained an unexpected NUL byte"

/-- What lies at a place of a file tree. -/
inductive Entry
  /-- A directory. -/
  | directory
  /-- A file with its bytes. -/
  | file (content : List UInt8)
  deriving DecidableEq, Repr

/-- A place in a file tree: the names on the way from the root. -/
abbrev Place := List String

/-- Directories and files under one root, which is a directory itself. -/
structure FileTree where
  /-- The entries below the root. -/
  entries : List (Place × Entry) := []
  /-- The directory that relative paths start from. -/
  cwd : Place := []
  deriving DecidableEq, Repr

namespace FileTree

/-- What lies at a place. -/
def get? (t : FileTree) (place : Place) : Option Entry :=
  if place = [] then some .directory else t.entries.lookup place

/-- The entries with the given one at its place. -/
def putInto (place : Place) (e : Entry) : List (Place × Entry) → List (Place × Entry)
  | [] => [(place, e)]
  | (p, old) :: rest => if place = p then (p, e) :: rest else (p, old) :: putInto place e rest

/-- The tree with an entry at a place. -/
def put (t : FileTree) (place : Place) (e : Entry) : FileTree :=
  { t with entries := putInto place e t.entries }

/-- A look-up takes the first entry with the place. -/
theorem lookup_cons (q p : Place) (e : Entry) (es : List (Place × Entry)) :
    ((p, e) :: es).lookup q = if q = p then some e else es.lookup q := by
  rw [List.lookup_cons]
  by_cases h : q = p
  · simp [h]
  · simp [h, beq_eq_false_iff_ne.2 h]

/-- After `putInto` the new entry lies at its place, and all else is as it was. -/
theorem lookup_putInto (place q : Place) (e : Entry) (es : List (Place × Entry)) :
    (putInto place e es).lookup q = if q = place then some e else es.lookup q := by
  induction es with
  | nil => simp only [putInto, lookup_cons, List.lookup_nil]
  | cons x es ih =>
    obtain ⟨p, old⟩ := x
    simp only [putInto]
    split <;> simp only [lookup_cons, ih] <;> grind

/-- After `put` the new entry lies at its place, and all else is as it was. -/
theorem get?_put (t : FileTree) {place : Place} (h : place ≠ []) (e : Entry) (q : Place) :
    (t.put place e).get? q = if q = place then some e else t.get? q := by
  by_cases hq : q = []
  · subst hq
    simp [get?, Ne.symm h]
  · simp [get?, put, hq, lookup_putInto]

/-! ## Following paths -/

/-- The greatest number of bytes in a name. -/
def nameLimit : Nat := 255

/-- The greatest number of bytes in a path. -/
def pathLimit : Nat := 4095

/-- What is wrong with a path as such, whatever the tree holds. The empty path leads nowhere. -/
def pathError? (p : Path) : Option OsError :=
  if '\x00' ∈ p.text.toList then some .nulInPath
  else if p.text.isEmpty then some .notFound
  else if pathLimit < p.text.utf8ByteSize then some .nameTooLong
  else none

/-- The place that one piece of a path leads to from a directory. -/
def stepTo (place : Place) (piece : Text) : Place :=
  match Path.Component.ofPiece? piece with
  | some (.named name) => place ++ [name]
  | some .parent => place.dropLast
  | _ => place

/-- The place that pieces of a path lead to. Every piece, an empty one too, needs a directory to
start from, and only there its size matters. -/
def follow (t : FileTree) (place : Place) : List Text → Except OsError Place
  | [] => .ok place
  | piece :: rest =>
    match t.get? place with
    | none => .error .notFound
    | some (.file _) => .error .notADirectory
    | some .directory =>
      if nameLimit < (String.ofList piece).utf8ByteSize then .error .nameTooLong
      else t.follow (stepTo place piece) rest

/-- The place where a path starts. -/
def startOf (t : FileTree) (p : Path) : Place := if p.isAbsolute then [] else t.cwd

/-- What a path leads to. -/
def find (t : FileTree) (p : Path) : Except OsError (Place × Entry) := do
  if let some e := pathError? p then throw e
  let place ← t.follow (t.startOf p) (Path.pieces p.text.toList)
  match t.get? place with
  | some e => return (place, e)
  | none => throw .notFound

/-- Whether a path leads to an entry. -/
def pathExists (t : FileTree) (p : Path) : Bool := (t.find p).toBool

/-- Whether a path leads to a directory. -/
def isDirectory (t : FileTree) (p : Path) : Bool :=
  match t.find p with
  | .ok (_, .directory) => true
  | _ => false

/-- Whether a path leads to a file. -/
def isFile (t : FileTree) (p : Path) : Bool :=
  match t.find p with
  | .ok (_, .file _) => true
  | _ => false

/-- The names in the directory at a place, in increasing order. -/
def namesIn (t : FileTree) (place : Place) : List String :=
  let below := t.entries.filterMap fun (p, _) =>
    match p.getLast? with
    | some name => if p.dropLast = place then some name else none
    | none => none
  below.mergeSort (· ≤ ·)

/-! ## Reading and writing -/

/-- The bytes of the file that a path leads to. -/
def read (t : FileTree) (p : Path) : Except OsError (List UInt8) := do
  match ← t.find p with
  | (_, .file content) => return content
  | (_, .directory) => throw .isADirectory

/-- A path that ends with the name of an entry to be created: the directory that the entry will lie
in, the name, and whether separators follow the name. The name is missing when the path ends with
`.` or `..` or is the root. -/
structure Target where
  /-- The directory. -/
  parent : Place
  /-- The name. -/
  name : Option String
  /-- Whether separators follow the name. -/
  slashed : Bool
  deriving DecidableEq, Repr

/-- Where the last piece of a path leads, when all pieces before it lead to a directory. -/
def target (t : FileTree) (p : Path) : Except OsError Target := do
  if let some e := pathError? p then throw e
  let pieces := Path.pieces p.text.toList
  let named := dropTrailing List.isEmpty pieces
  let parent ← t.follow (t.startOf p) named.dropLast
  match t.get? parent with
  | none => throw .notFound
  | some (.file _) => throw .notADirectory
  | some .directory =>
    let name :=
      match named.getLast?.bind Path.Component.ofPiece? with
      | some (.named name) => some name
      | _ => none
    return { parent, name, slashed := named.length < pieces.length }

/-- The tree with the given bytes in the file that a path leads to. The file is created when it
does not exist, its directory is not. -/
def write (t : FileTree) (p : Path) (content : List UInt8) : Except OsError FileTree := do
  match ← t.target p with
  -- A name with separators behind it asks for a directory, and there is nothing to write into.
  | ⟨parent, some name, false⟩ =>
    if nameLimit < name.utf8ByteSize then throw .nameTooLong
    let place := parent ++ [name]
    match t.get? place with
    | some .directory => throw .isADirectory
    | _ => return t.put place (.file content)
  | _ => throw .isADirectory

/-- The tree with a new directory at the end of a path. -/
def createDirectory (t : FileTree) (p : Path) : Except OsError FileTree := do
  match ← t.target p with
  | ⟨parent, some name, _⟩ =>
    if nameLimit < name.utf8ByteSize then throw .nameTooLong
    let place := parent ++ [name]
    match t.get? place with
    | some _ => throw .alreadyExists
    | none => return t.put place .directory
  | _ => throw .alreadyExists

/-- The tree with the first of the given paths as a directory, and why that fails. The paths that
follow are its parents, nearest first; they are created where they do not exist, and stay when a
later step fails. -/
def createAlong (t : FileTree) : List Path → FileTree × Option OsError
  | [] => (t, none)
  | p :: parents =>
    let unlessThere (t : FileTree) (e : OsError) :=
      (t, if t.isDirectory p then none else some e)
    if p.text.isEmpty then (t, none)
    else
      match t.createDirectory p with
      | .ok t => (t, none)
      -- A parent is missing; with all parents there the directory itself is tried once more.
      | .error .notFound =>
        match t.createAlong parents with
        | (t, some e) => (t, some e)
        | (t, none) =>
          match t.createDirectory p with
          | .ok t => (t, none)
          | .error e => unlessThere t e
      | .error e => unlessThere t e

/-- The tree with the directory that a path leads to and its parents, and why that fails. -/
def createDirectories (t : FileTree) (p : Path) : FileTree × Option OsError :=
  t.createAlong p.ancestors

/-! ## Comparing trees -/

/-- The files of a tree. -/
def files (t : FileTree) : List (Place × List UInt8) :=
  t.entries.filterMap fun
    | (place, .file content) => some (place, content)
    | (_, .directory) => none

/-- The absolute path to a place. -/
def pathTo (place : Place) : Path := ⟨"/" ++ "/".intercalate place⟩

/-- The files of `new` that `old` does not hold with the same bytes, in order of their paths. -/
def changedFiles (old new : FileTree) : List (Path × List UInt8) :=
  let changed := new.files.filter fun (place, content) => old.get? place != some (.file content)
  (changed.map fun (place, content) => (pathTo place, content)).mergeSort fun a b =>
    a.1.text ≤ b.1.text

end FileTree

end NativeBindings
