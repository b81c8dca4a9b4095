/-!
# TOML values

The values of a TOML document. A table remembers how it came to be, because that decides which later
lines of the document may still add to it. A change deep in a table follows a path of keys.
-/

namespace NativeBindings.Toml

/-- How a table came to be. -/
inductive Origin
  /-- It is written in braces, and is complete. -/
  | braces
  /-- It has a header of its own, or is the whole document. -/
  | header
  /-- It is named on the way to the table of a header. -/
  | passed
  /-- It is named on the way to a dotted key. -/
  | dotted
  deriving DecidableEq, Repr

/-- A value. -/
inductive Value
  /-- A string. -/
  | string (s : String)
  /-- An integer of sixty-four bits. -/
  | integer (n : Int)
  /-- A number with a fraction or an exponent, or a special one, as written. -/
  | float (text : String)
  /-- A truth value. -/
  | boolean (b : Bool)
  /-- A date, a time or both, in its normal spelling. -/
  | datetime (text : String)
  /-- An array. It grows when headers of the array name further tables. -/
  | array (grows : Bool) (elements : List Value)
  /-- A table. -/
  | table (origin : Origin) (entries : List (String × Value))
  deriving Repr, Inhabited

/-- The entries of a table. -/
abbrev Entries := List (String × Value)

namespace Entries

/-- The entries with one of them changed; `f` gets the old value, or none where the key is new. -/
def alter (key : String) (f : Option Value → Option Value) : Entries → Option Entries
  | [] => (f none).map fun v => [(key, v)]
  | (k, v) :: es =>
    if k = key then (f (some v)).map fun v => (k, v) :: es
    else (alter key f es).map ((k, v) :: ·)

/-- The entries of a table that may be added to on the way to a deeper table, and the table with
other entries. A growing array stands for its last table. A table with a header of its own is
closed to dotted keys. -/
def inner? (way : Origin) : Value → Option (Entries × (Entries → Value))
  | .table origin es =>
    if origin = .braces ∨ (way = .dotted ∧ origin = .header) then none
    else some (es, .table origin)
  | .array true elements =>
    match elements.getLast? with
    | some (.table _ es) =>
      some (es, fun es => .array true (elements.dropLast ++ [.table .header es]))
    | _ => none
  | _ => none

/-- The entries with those changed that lie at the end of a path of keys. New tables on the path
get the origin `way`. -/
def alterAt (way : Origin) (f : Entries → Option Entries) : List String → Entries → Option Entries
  | [], es => f es
  | key :: path, es => alter key (fun old =>
      match old with
      | none => (alterAt way f path []).map (.table way)
      | some v => do
        let (inside, rebuild) ← inner? way v
        return rebuild (← alterAt way f path inside)) es

/-- The entries with a value under a new key. -/
def add (key : String) (v : Value) : Entries → Option Entries :=
  alter key fun
    | none => some v
    | some _ => none

/-- The entries with a value under a dotted key. The last table on the way must have come to be on
the way to a dotted key, too. -/
def assign (path : List String) (key : String) (v : Value) (es : Entries) : Option Entries :=
  match path.getLast? with
  | none => add key v es
  | some last => alterAt .dotted (alter last fun
      | none => some (.table .dotted [(key, v)])
      | some (.table .dotted inside) => (add key v inside).map (.table .dotted)
      | some _ => none) path.dropLast es

/-- The entries with a table that gets its header now. -/
def openTable (path : List String) (key : String) : Entries → Option Entries :=
  alterAt .passed (alter key fun
    | none => some (.table .header [])
    | some (.table .passed inside) => some (.table .header inside)
    | some _ => none) path

/-- The entries with one more table in a growing array. -/
def openElement (path : List String) (key : String) : Entries → Option Entries :=
  alterAt .passed (alter key fun
    | none => some (.array true [.table .header []])
    | some (.array true elements) => some (.array true (elements ++ [.table .header []]))
    | some _ => none) path

end Entries

end NativeBindings.Toml
