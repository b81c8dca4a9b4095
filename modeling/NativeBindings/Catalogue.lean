import NativeBindings.Signature

/-!
# Catalogues

A catalogue holds the signatures of one target, one for each name, in the order in which the names
came first. A further signature of a name is left out when it binds like the first one, and is
refused otherwise.
-/

namespace NativeBindings

/-- Two declarations of a name that bind differently. -/
structure Conflict where
  /-- The name. -/
  name : String
  /-- Where the name is declared first. -/
  first : Location
  /-- Where it is declared differently. -/
  second : Location
  /-- The first declaration in one line. -/
  firstSignature : String
  /-- The second declaration in one line. -/
  secondSignature : String
  deriving DecidableEq, Repr

namespace Conflict

/-- The text of a conflict. -/
def message (c : Conflict) : String :=
  "conflicting declarations of `" ++ c.name ++ "` at " ++ c.first.text ++ " and " ++ c.second.text

/-- The diagnostic of a conflict, at the second declaration. -/
def diagnostic (c : Conflict) : Diagnostic :=
  ((((Diagnostic.new .error ("conflicting declarations of `" ++ c.name ++ "`")).located
    c.second).withContext ("first declared at " ++ c.first.text ++ ": " ++ c.firstSignature)
    ).withContext ("redeclared at " ++ c.second.text ++ ": " ++ c.secondSignature)).withSuggestion
    "help: Make the header declaration and the definition agree"

end Conflict

/-- What becomes of a signature that is not refused. -/
inductive Insertion
  /-- Its name is new, and it is an entry now. -/
  | added
  /-- It binds like the entry of its name and is left out. -/
  | duplicate
  deriving DecidableEq, Repr

/-- Signatures by name, in order. -/
structure Catalogue where
  /-- The signatures, oldest first. -/
  entries : List Signature := []
  /-- The positions of the entries by name. -/
  index : List (String × Nat) := []
  /-- The files of the entries, in the order in which their first entries came. -/
  files : List Path := []
  deriving DecidableEq, Repr

namespace Catalogue

/-- The catalogue without entries. -/
def empty : Catalogue := {}

/-- The entry with the given name. -/
def get? (c : Catalogue) (name : String) : Option Signature :=
  (c.index.lookup name).bind fun i => c.entries[i]?

/-- The catalogue with a signature of a new name. -/
def append (c : Catalogue) (s : Signature) : Catalogue where
  entries := c.entries ++ [s]
  index := c.index ++ [(s.name, c.entries.length)]
  files := if c.files.any (·.same s.origin.file) then c.files else c.files ++ [s.origin.file]

/-- The conflict of a signature with the entry of its name. -/
def conflictWith (first s : Signature) : Conflict where
  name := s.name
  first := first.origin
  second := s.origin
  firstSignature := first.describe
  secondSignature := s.describe

/-- Adds a signature and says what became of it. Whether there is a conflict is settled before
anything is changed. -/
def adding (s : Signature) : StateM Catalogue (Except Conflict Insertion) := do
  match (← get).get? s.name with
  | some first =>
    if first.sameBinding s then
      return .ok .duplicate
    return .error (conflictWith first s)
  | none =>
    unless (← get).files.any (·.same s.origin.file) do
      modify fun c => { c with files := c.files ++ [s.origin.file] }
    modify fun c => { c with index := c.index ++ [(s.name, c.entries.length)] }
    modify fun c => { c with entries := c.entries ++ [s] }
    return .ok .added

/-- What becomes of one more signature, and the catalogue that is left, also behind a conflict. -/
def put (c : Catalogue) (s : Signature) : Except Conflict Insertion × Catalogue := (adding s).run c

/-- The catalogue after one more signature and what became of it, or a conflict. -/
def add (c : Catalogue) (s : Signature) : Except Conflict (Insertion × Catalogue) :=
  let (result, c) := c.put s
  result.map (·, c)

/-- A signature is appended under a new name, and otherwise nothing is changed. -/
theorem put_eq (c : Catalogue) (s : Signature) : c.put s =
    match c.get? s.name with
    | none => (.ok .added, c.append s)
    | some first => (if first.sameBinding s then .ok .duplicate
      else .error (conflictWith first s), c) := by
  unfold put adding append
  cases hget : c.get? s.name with
  | none =>
    cases hfile : c.files.any (·.same s.origin.file) <;>
    · simp only [StateT.run_bind, StateT.run_get, pure_bind, hget, hfile]
      rfl
  | some first =>
    cases hsame : first.sameBinding s <;>
    · simp only [StateT.run_bind, StateT.run_get, pure_bind, hget, hsame]
      rfl

/-- What becomes of a signature, and the catalogue unless there is a conflict. -/
theorem add_eq (c : Catalogue) (s : Signature) : c.add s =
    match c.get? s.name with
    | none => .ok (.added, c.append s)
    | some first =>
      if first.sameBinding s then .ok (.duplicate, c) else .error (conflictWith first s) := by
  unfold add
  rw [put_eq]
  cases c.get? s.name with
  | none => rfl
  | some first =>
    dsimp only
    split <;> rfl

/-- The names of the entries, in order. -/
def names (c : Catalogue) : List String := c.entries.map (·.name)

/-- The entries of each file, files and entries in order. -/
def groups (c : Catalogue) : List (Path × List Signature) :=
  c.files.map fun file => (file, c.entries.filter (·.origin.file.same file))

end Catalogue

end NativeBindings
