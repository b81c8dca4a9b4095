import NativeBindings.Toml.Number

/-!
# TOML documents

A document is a list of statements: headers of tables, and keys with values. The statements build
the table of the document from left to right; one that contradicts an earlier one is refused.
-/

namespace NativeBindings.Toml

open Reader

/-- A key with its value, as written: the path, the last key and the value. -/
structure Assignment where
  /-- The keys before the last dot. -/
  path : List String
  /-- The last key. -/
  key : String
  /-- The value. -/
  value : Value

/-- Reads a key, the sign of equality and a value. -/
def assignment (value : Reader Value) : Reader Assignment := do
  let (path, key) ← key
  literal "="
  spaces
  return ⟨path, key, ← value⟩

/-- The table that assignments in braces make. -/
def tableInBraces (assignments : List Assignment) : Option Value :=
  (assignments.foldlM (fun es a => Entries.assign a.path a.key a.value es) []).map (.table .braces)

/-- Reads the elements of an array. -/
def array (value : Reader Value) : Reader Value := do
  literal "["
  let element : Reader Value := do gaps; let v ← value; gaps; return v
  let elements ← optional (separated element (literal ","))
  if elements.isSome then let _ ← optional (literal ",")
  gaps
  literal "]"
  return .array false (elements.getD [])

/-- Reads a table in braces, which stands on one line. -/
def braces (value : Reader Value) : Reader Value := do
  literal "\x7b"
  let entry : Reader Assignment := do let a ← assignment value; spaces; return a
  let entries ← optional (separated entry (literal ","))
  spaces
  literal "\x7d"
  tableInBraces (entries.getD [])

/-- Reads a value in which arrays and tables are nested to the given depth at most. -/
def valueWithin : Nat → Reader Value
  | 0 => scalar
  | depth + 1 => fun t =>
    match t with
    | '[' :: _ => array (valueWithin depth) t
    | '\x7b' :: _ => braces (valueWithin depth) t
    | _ => scalar t
where
  /-- Reads a value without parts. -/
  scalar : Reader Value := fun t =>
    match t with
    | '\x22' :: _ | '\x27' :: _ => ((.string ∘ String.ofList) <$> string) t
    | 't' :: _ => (do literal "true"; return .boolean true : Reader Value) t
    | 'f' :: _ => (do literal "false"; return .boolean false : Reader Value) t
    | _ => numeric t

/-- How deep arrays and tables may be nested in a value. -/
def nestingLimit : Nat := 79

/-- Reads a value. -/
def value : Reader Value := valueWithin nestingLimit

/-- A statement of a document. -/
inductive Statement
  /-- An empty line, or a comment. -/
  | blank
  /-- The header of a table. -/
  | table (path : List String) (key : String)
  /-- The header of one more table in an array. -/
  | element (path : List String) (key : String)
  /-- A key with its value. -/
  | assign (a : Assignment)

/-- Reads a statement and the end of its line. -/
def statement : Reader Statement := fun t =>
  match t with
  | '[' :: '[' :: _ => (do
    literal "[["
    let (path, key) ← key
    literal "]]"
    lineEnd
    return .element path key : Reader Statement) t
  | '[' :: _ => (do
    literal "["
    let (path, key) ← key
    literal "]"
    lineEnd
    return .table path key : Reader Statement) t
  | '#' :: _ | '\n' :: _ | '\r' :: _ => (do lineEnd; return .blank : Reader Statement) t
  | _ => (do
    let a ← assignment value
    lineEnd
    return .assign a : Reader Statement) t

/-- Reads all statements of a document. A byte order mark may stand in front of them. -/
def statements : Reader (List Statement) := do
  let _ ← optional (literal "\ufeff")
  spaces
  let ss ← many (do let s ← statement; spaces; return s)
  atEnd
  return ss

/-- A document while its statements are carried out. -/
structure Document where
  /-- The entries so far. -/
  entries : Entries := []
  /-- The path of the latest header. -/
  header : List String := []

/-- The document after one more statement. -/
def Document.step (d : Document) : Statement → Option Document
  | .blank => some d
  | .table path key => do
    return ⟨← Entries.openTable path key d.entries, path ++ [key]⟩
  | .element path key => do
    return ⟨← Entries.openElement path key d.entries, path ++ [key]⟩
  | .assign a => do
    let change := Entries.assign a.path a.key a.value
    return { d with entries := ← Entries.alterAt .passed change d.header d.entries }

/-- The table that a text denotes, when it is a TOML document. -/
def parse? (t : Text) : Option Entries := do
  let (ss, _) ← statements t
  return (← ss.foldlM Document.step {}).entries

end NativeBindings.Toml
