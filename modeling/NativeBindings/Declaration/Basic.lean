import NativeBindings.Diagnostic

/-!
# Declarations

An exported function as its native declaration states it, before its types are read.
-/

namespace NativeBindings

/-- A parameter as written. -/
structure Parameter where
  /-- The text of its type, with the array dimensions that are written behind the name. -/
  typeText : String
  /-- Its name. -/
  name : String
  deriving DecidableEq, Repr

/-- An exported function as declared. -/
structure Declaration where
  /-- Where the declaration starts. -/
  location : Location
  /-- The text of the return type. -/
  returnType : String
  /-- The name of the function. -/
  name : String
  /-- The parameters, in order. -/
  params : List Parameter
  /-- The word for the calling convention, where one is written. -/
  convention : Option String
  /-- The line comment behind the end of the declaration. -/
  doc : Option String
  deriving DecidableEq, Repr

end NativeBindings
