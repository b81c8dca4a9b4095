/-!
# C types

The types of parameters and return values as far as their text tells them, and their spelling.
-/

namespace NativeBindings

/-- The builtin arithmetic types. -/
inductive Scalar
  /-- Eight bits, signed. -/
  | int8
  /-- Sixteen bits, signed. -/
  | int16
  /-- Thirty-two bits, signed. -/
  | int32
  /-- Sixty-four bits, signed. -/
  | int64
  /-- Eight bits, unsigned. -/
  | uint8
  /-- Sixteen bits, unsigned. -/
  | uint16
  /-- Thirty-two bits, unsigned. -/
  | uint32
  /-- Sixty-four bits, unsigned. -/
  | uint64
  /-- Single precision. -/
  | float
  /-- Double precision. -/
  | double
  /-- A truth value of one byte. -/
  | bool
  /-- A character of unstated sign. -/
  | char
  /-- A signed character. -/
  | schar
  /-- An unsigned character. -/
  | uchar
  /-- A wide character. -/
  | wchar
  /-- The size of an object. -/
  | size
  /-- A size or an error. -/
  | ssize
  /-- The distance of two pointers. -/
  | ptrdiff
  /-- A signed integer that holds a pointer. -/
  | intptr
  /-- An unsigned integer that holds a pointer. -/
  | uintptr
  deriving DecidableEq, Repr

namespace Scalar

/-- The spelling of a builtin type. -/
def text : Scalar → String
  | .int8 => "int8_t"
  | .int16 => "int16_t"
  | .int32 => "int"
  | .int64 => "int64_t"
  | .uint8 => "uint8_t"
  | .uint16 => "uint16_t"
  | .uint32 => "unsigned int"
  | .uint64 => "uint64_t"
  | .float => "float"
  | .double => "double"
  | .bool => "bool"
  | .char => "char"
  | .schar => "signed char"
  | .uchar => "unsigned char"
  | .wchar => "wchar_t"
  | .size => "size_t"
  | .ssize => "ssize_t"
  | .ptrdiff => "ptrdiff_t"
  | .intptr => "intptr_t"
  | .uintptr => "uintptr_t"

/-- The managed type of the same width. -/
def managed : Scalar → String
  | .int8 | .schar => "sbyte"
  | .int16 => "short"
  | .int32 => "int"
  | .int64 => "long"
  | .uint8 | .char | .uchar => "byte"
  | .uint16 => "ushort"
  | .uint32 => "uint"
  | .uint64 => "ulong"
  | .float => "float"
  | .double => "double"
  | .bool => "bool"
  | .wchar => "char"
  | .size | .uintptr => "UIntPtr"
  | .ssize | .ptrdiff | .intptr => "IntPtr"

end Scalar

/-- A C type. -/
inductive CType
  /-- No value. -/
  | void
  /-- A builtin arithmetic type. -/
  | scalar (s : Scalar)
  /-- A pointer; it is constant when what it points to is. -/
  | pointer (constant : Bool) (target : CType)
  /-- A reference; it is constant when what it refers to is. -/
  | reference (constant : Bool) (target : CType)
  /-- An array of fixed length. -/
  | array (element : CType) (length : Nat)
  /-- A structure, class or union named as such. -/
  | struct (name : String)
  /-- An enumeration named as such. -/
  | enum (name : String)
  /-- Any other name: a typedef, a class or an instance of a template. -/
  | named (name : String)
  /-- A text that is no type. -/
  | unparsed (text : String)
  deriving DecidableEq, Repr

namespace CType

/-- The spelling of a type. -/
def text : CType → String
  | .void => "void"
  | .scalar s => s.text
  | .pointer false t => t.text ++ "*"
  | .pointer true t => "const " ++ t.text ++ "*"
  | .reference false t => t.text ++ "&"
  | .reference true t => "const " ++ t.text ++ "&"
  | .array t length => t.text ++ "[" ++ toString length ++ "]"
  | .struct name => "struct " ++ name
  | .enum name => "enum " ++ name
  | .named name | .unparsed name => name

/-- Whether the type is a pointer. -/
def isPointer : CType → Bool
  | .pointer _ _ => true
  | _ => false

/-- What a pointer or a reference leads to. -/
def target? : CType → Option CType
  | .pointer _ t | .reference _ t => some t
  | _ => none

/-- Whether the type is a pointer or a reference to something constant. -/
def leadsToConstant : CType → Bool
  | .pointer constant _ | .reference constant _ => constant
  | _ => false

/-- The managed type of the same width as a builtin type. -/
def scalarManaged? : CType → Option String
  | .scalar s => some s.managed
  | _ => none

end CType

end NativeBindings
