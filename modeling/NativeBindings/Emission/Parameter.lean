import NativeBindings.Signature

/-!
# Parameters in the generated file
-/

namespace NativeBindings.Emission

/-- Whether values of the type are truth values, which are one byte wide on the native side. -/
def isBool (t : ManagedType) : Bool := t.managed == "bool"

/-- The direction of an array in which the callee may write or only read. -/
def direction (writable : Bool) : String := if writable then "In, Out" else "In"

/-- The type of a parameter with its attributes. -/
def declaredType (t : ManagedType) : String :=
  match t.directive with
  | .scalar => if isBool t then "[MarshalAs(UnmanagedType.U1)]bool" else t.managed
  | .opaquePointer | .structValue => t.managed
  | .buffer .single _ =>
    if isBool t then "[MarshalAs(UnmanagedType.U1)]ref bool" else "ref " ++ t.managed
  | .structPointer => "ref " ++ t.managed
  | .buffer .array writable =>
    if isBool t then
      "[" ++ direction writable ++
        ", MarshalAs(UnmanagedType.LPArray, ArraySubType = UnmanagedType.U1)]bool[]"
    else "[" ++ direction writable ++ "]" ++ t.managed ++ "[]"
  | .fixedArray length =>
    "[MarshalAs(UnmanagedType.LPArray, SizeConst = " ++ toString length ++ ")]" ++ t.managed ++ "[]"
  | .stringIn encoding | .stringOut encoding _ =>
    "[MarshalAs(UnmanagedType." ++ encoding.unmanagedType ++ ")]" ++ t.managed

/-- A parameter with its attributes, type and name. -/
def renderParameter (p : ManagedParameter) : String := declaredType p.type ++ " " ++ p.name

end NativeBindings.Emission
