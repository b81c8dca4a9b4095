import NativeBindings.Text.Blank

/-!
# Paths

A path is kept as it was written. Two paths name the same place when their components agree, so
repeated separators, a separator at the end and a `.` after the first component make no difference.
-/

namespace NativeBindings

/-- A path as written, with `/` between its components. -/
structure Path where
  /-- The written path. -/
  text : String
  deriving DecidableEq, Repr, Inhabited

namespace Path

/-- One step of a path. -/
inductive Component
  /-- The separator that an absolute path starts with. -/
  | root
  /-- The `.` that a relative path starts with. -/
  | current
  /-- A step up, written `..`. -/
  | parent
  /-- A step into a named entry. -/
  | named (name : String)
  deriving DecidableEq, Repr

/-- The pieces of a text between its separators. -/
def pieces (t : Text) : List Text := t.splitOnP (· == '/')

/-- The component that a piece of a path stands for; an empty piece and `.` stand for none. -/
def Component.ofPiece? (piece : Text) : Option Component :=
  match piece with
  | [] => none
  | ['.'] => none
  | ['.', '.'] => some .parent
  | name => some (.named (String.ofList name))

/-- The start of a path that its later pieces never contain: `/`, a leading `.`, or nothing. -/
def start (t : Text) : Text × Text :=
  match t with
  | '/' :: rest => (['/'], rest)
  | ['.'] => (['.'], [])
  | '.' :: '/' :: rest => (['.'], '/' :: rest)
  | rest => ([], rest)

/-- The components of a path, first one first. -/
def components (p : Path) : List Component :=
  let (start, rest) := start p.text.toList
  let first :=
    match start with
    | ['/'] => [Component.root]
    | ['.'] => [Component.current]
    | _ => []
  first ++ (pieces rest).filterMap Component.ofPiece?

/-- Two paths are the same when their components agree. -/
def same (p q : Path) : Bool := p.components == q.components

/-- A path is absolute when it starts with a separator. -/
def isAbsolute (p : Path) : Bool := p.text.toList.head? == some '/'

/-- The path `q` as seen from `p`: `q` itself when it is absolute, and otherwise `q` behind `p` and
one separator. -/
def join (p q : Path) : Path :=
  if q.isAbsolute then q
  else
    match p.text.toList.getLast? with
    | none => q
    | some '/' => ⟨p.text ++ q.text⟩
    | some _ => ⟨p.text ++ "/" ++ q.text⟩

/-- The last component, when it is a name. -/
def fileName? (p : Path) : Option String :=
  match p.components.getLast? with
  | some (.named name) => some name
  | _ => none

/-- The name to show for a path: its last component, or the whole path when that is no name. -/
def displayName (p : Path) : String := p.fileName?.getD p.text

/-- A piece that stands for no component. -/
def isVoid (piece : Text) : Bool := (Component.ofPiece? piece).isNone

/-- The path without its last component; the root and the empty path have no parent. -/
def parent? (p : Path) : Option Path :=
  let (start, rest) := start p.text.toList
  match dropTrailing isVoid (pieces rest) with
  | [] => if start = ['.'] then some ⟨""⟩ else none
  | ps =>
    let kept := dropTrailing isVoid ps.dropLast
    some ⟨String.ofList (start ++ ['/'].intercalate kept)⟩

/-- The path and then its parents, nearest first. Every parent has fewer components, so as many
steps as the path has components reach the end. -/
def ancestors (p : Path) : List Path := go (p.components.length + 1) p
where
  /-- At most `n` paths: `p` and its parents. -/
  go : Nat → Path → List Path
    | 0, _ => []
    | n + 1, p =>
      match p.parent? with
      | none => [p]
      | some q => p :: go n q

end Path

end NativeBindings
