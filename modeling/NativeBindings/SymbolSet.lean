import NativeBindings.NameSet
import NativeBindings.Text.Blank

/-!
# Defined symbols

The symbols that count as defined while conditionals are decided.
-/

namespace NativeBindings

/-- The symbols that are defined. -/
structure SymbolSet where
  /-- The names, none of them empty or with blanks at an end when built by `ofList`. -/
  names : NameSet
  deriving DecidableEq, Inhabited

namespace SymbolSet

/-- A name without the blanks at its ends, unless nothing is left. -/
def clean? (name : String) : Option String :=
  match Text.trim name.toList with
  | [] => none
  | t => some (String.ofList t)

/-- The symbols listed, each trimmed, the empty ones left out. -/
def ofList (names : List String) : SymbolSet := ⟨NameSet.ofList (names.filterMap clean?)⟩

/-- The symbols in increasing order. -/
def toList (s : SymbolSet) : List String := s.names.names

/-- A symbol is defined when it is in the set. -/
def isDefined (s : SymbolSet) (name : String) : Bool := name ∈ s.names

end SymbolSet

end NativeBindings
