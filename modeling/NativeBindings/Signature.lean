import NativeBindings.Convention
import NativeBindings.Diagnostic

/-!
# Signatures

A function with the managed types of its parameters and return value and the way in which each
value crosses the boundary.
-/

namespace NativeBindings

/-- The encodings of strings that cross the boundary. -/
inductive Encoding
  /-- Narrow characters. -/
  | ansi
  /-- Wide characters. -/
  | unicode
  deriving DecidableEq, Repr

namespace Encoding

/-- The name of an encoding. -/
def name : Encoding → String
  | .ansi => "ansi"
  | .unicode => "unicode"

/-- The encoding with the given name. -/
def ofName? : String → Option Encoding
  | "ansi" => some .ansi
  | "unicode" => some .unicode
  | _ => none

/-- The unmanaged type that a string of the encoding is marshaled as. -/
def unmanagedType : Encoding → String
  | .ansi => "LPStr"
  | .unicode => "LPWStr"

end Encoding

/-- How many elements a pointer leads to. -/
inductive Extent
  /-- One. -/
  | single
  /-- An array of the caller. -/
  | array
  deriving DecidableEq, Repr

/-- How a value crosses the boundary. -/
inductive Directive
  /-- A scalar of the same width on both sides. -/
  | scalar
  /-- A pointer that the managed side only carries around. -/
  | opaquePointer
  /-- A pointer to data of the caller. -/
  | buffer (extent : Extent) (writable : Bool)
  /-- An array of fixed length. -/
  | fixedArray (length : Nat)
  /-- A string that is only read. -/
  | stringIn (encoding : Encoding)
  /-- A string that is written into a buffer, whose capacity is the parameter of the given index. -/
  | stringOut (encoding : Encoding) (lengthParam : Nat)
  /-- A pointer or reference to a structure. -/
  | structPointer
  /-- A structure passed by value. -/
  | structValue
  deriving DecidableEq, Repr

/-- The name of a directive in reports. -/
def Directive.name : Directive → String
  | .scalar => "by-value-scalar"
  | .opaquePointer => "pointer-opaque"
  | .buffer _ _ => "pointer-to-mutable-buffer"
  | .fixedArray _ => "fixed-length-array"
  | .stringIn _ => "null-terminated-string-in"
  | .stringOut _ _ => "null-terminated-string-out-buffer"
  | .structPointer => "struct-by-pointer"
  | .structValue => "struct-by-value"

/-- A native type and its managed counterpart. -/
structure ManagedType where
  /-- The managed type of the value or of its elements. -/
  managed : String
  /-- How the value crosses the boundary. -/
  directive : Directive
  /-- The text of the native type. -/
  native : String
  /-- Whether a rule gave this counterpart; otherwise it is the default. -/
  resolved : Bool := true
  deriving DecidableEq, Repr

namespace ManagedType

/-- The counterpart of no value. -/
def void : ManagedType := ⟨"void", .scalar, "void", true⟩

/-- The default counterpart of a native type that no rule knows. -/
def unresolved (native : String) : ManagedType := ⟨"IntPtr", .opaquePointer, native, false⟩

/-- Whether there is no value. -/
def isVoid (t : ManagedType) : Bool := t.managed == "void"

/-- Two counterparts bind alike when they differ at most in the native text and its resolution. -/
def sameBinding (t u : ManagedType) : Bool :=
  t.managed == u.managed && t.directive == u.directive

end ManagedType

/-- A parameter with its managed type. -/
structure ManagedParameter where
  /-- The name in the generated file. -/
  name : String
  /-- Its type. -/
  type : ManagedType
  deriving DecidableEq, Repr

/-- A function with its managed types. -/
structure Signature where
  /-- The name of the function. -/
  name : String
  /-- The return type. -/
  returnType : ManagedType
  /-- The parameters, in order. -/
  params : List ManagedParameter
  /-- Where the function is declared. -/
  origin : Location
  /-- The calling convention. -/
  convention : Convention
  /-- The documentation carried over from the declaration. -/
  doc : Option String
  deriving DecidableEq, Repr

namespace Signature

/-- Two signatures bind alike when they agree but for names of parameters, documentation, origin
and native texts. -/
def sameBinding (s t : Signature) : Bool :=
  s.name == t.name && s.convention == t.convention && s.returnType.sameBinding t.returnType &&
    s.params.length == t.params.length &&
    (s.params.zip t.params).all fun (p, q) => p.type.sameBinding q.type

/-- A value of a function. -/
inductive Slot
  /-- The value that it returns. -/
  | returned
  /-- The parameter with the given name. -/
  | parameter (name : String)
  deriving DecidableEq, Repr

/-- A value of a function in words. -/
def Slot.phrase : Slot → String
  | .returned => "return value"
  | .parameter name => "parameter `" ++ name ++ "`"

/-- The values of a function with their types: the return value, then the parameters. -/
def slots (s : Signature) : List (Slot × ManagedType) :=
  (.returned, s.returnType) :: s.params.map fun p => (.parameter p.name, p.type)

/-- The values whose type is the default. -/
def unresolved (s : Signature) : List (Slot × ManagedType) := s.slots.filter (!·.2.resolved)

/-- The function in one line, for reports of conflicts. -/
def describe (s : Signature) : String :=
  let params := s.params.map fun p => p.type.managed ++ " " ++ p.type.directive.name
  s.returnType.managed ++ " " ++ s.name ++ "(" ++ ", ".intercalate params ++ ")"

end Signature

end NativeBindings
