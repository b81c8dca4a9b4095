import NativeBindings.Text.LowerCase

/-!
# Calling conventions
-/

namespace NativeBindings

/-- The calling conventions that an exported function can have. -/
inductive Convention
  /-- The caller clears the stack. -/
  | cdecl
  /-- The callee clears the stack. -/
  | stdcall
  deriving DecidableEq, Repr, Inhabited

namespace Convention

/-- The convention that a word of native source asks for. -/
def ofKeyword? : String → Option Convention
  | "__cdecl" | "_cdecl" | "CDECL" => some .cdecl
  | "__stdcall" | "_stdcall" | "WINAPI" | "CALLBACK" | "APIENTRY" => some .stdcall
  | _ => none

/-- The name of a convention. -/
def name : Convention → String
  | .cdecl => "cdecl"
  | .stdcall => "stdcall"

/-- The name of a convention in the generated file. -/
def managedName : Convention → String
  | .cdecl => "Cdecl"
  | .stdcall => "StdCall"

/-- The convention with the given name. -/
def ofName? : String → Option Convention
  | "cdecl" => some .cdecl
  | "stdcall" => some .stdcall
  | _ => none

/-- The convention with the given name in any case, or a message about the name in lower case. -/
def parse (name : String) : Except String Convention :=
  let lower := String.ofList (Text.lower name.toList)
  match ofName? lower with
  | some convention => .ok convention
  | none => .error ("unknown calling convention `" ++ lower ++ "`")

end Convention

end NativeBindings
