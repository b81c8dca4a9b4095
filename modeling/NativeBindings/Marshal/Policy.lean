import NativeBindings.NameSet
import NativeBindings.Signature

/-!
# Marshaling policies

The tables that decide which managed type a native type gets.
-/

namespace NativeBindings

/-- Which neighbour of a character buffer may hold its capacity. -/
inductive CapacitySide
  /-- The parameter behind the buffer, or else the one in front. -/
  | adjacent
  /-- The parameter in front of the buffer. -/
  | preceding
  /-- The parameter behind the buffer. -/
  | following
  /-- None: no parameter is a character buffer. -/
  | never
  deriving DecidableEq, Repr

namespace CapacitySide

/-- The name of a side. -/
def name : CapacitySide → String
  | .adjacent => "adjacent"
  | .preceding => "preceding"
  | .following => "following"
  | .never => "never"

/-- The side with the given name. -/
def ofName? : String → Option CapacitySide
  | "adjacent" => some .adjacent
  | "preceding" => some .preceding
  | "following" => some .following
  | "never" => some .never
  | _ => none

/-- The indices that may hold the capacity of the buffer at `i` among `n` parameters, the preferred
one first. -/
def candidates (side : CapacitySide) (i n : Nat) : List Nat :=
  let following := if i + 1 < n then [i + 1] else []
  let preceding := if 0 < i then [i - 1] else []
  match side with
  | .adjacent => following ++ preceding
  | .preceding => preceding
  | .following => following
  | .never => []

end CapacitySide

/-- The tables of the mapper. -/
structure MappingPolicy where
  /-- How the names of native classes start that are only handled through pointers. -/
  structPrefixes : List String
  /-- Native structures and the managed structures of the same layout. -/
  valueStructs : List (String × String)
  /-- Typedefs and the texts of the types that they stand for. -/
  typedefs : List (String × String)
  /-- Typedefs of handles. -/
  handles : NameSet
  /-- Enumerations, marshaled as integers. -/
  enums : NameSet
  /-- The elements of strings and their encodings. -/
  strings : List (String × Encoding)
  /-- Which parameter may hold the capacity of a character buffer. -/
  outBuffer : CapacitySide
  /-- The comment that marks a pointer as an array of the caller. -/
  arrayTag : String
  deriving DecidableEq

namespace MappingPolicy

/-- Structures of two to four coordinates and other geometry whose layouts agree. -/
def defaultValueStructs : List (String × String) :=
  [("ON_2DPOINT_STRUCT", "Point2d"), ("ON_2dPoint", "Point2d"), ("ON_2dVector", "Vector2d"),
    ("ON_3DPOINT_STRUCT", "Point3d"), ("ON_3dPoint", "Point3d"),
    ("ON_3DVECTOR_STRUCT", "Vector3d"), ("ON_3dVector", "Vector3d"), ("ON_3fPoint", "Point3f"),
    ("ON_3fVector", "Vector3f"), ("ON_4dPoint", "Point4d"), ("ON_BoundingBox", "BoundingBox"),
    ("ON_CIRCLE_STRUCT", "Circle"), ("ON_COMPONENT_INDEX", "ComponentIndex"),
    ("ON_INTERVAL_STRUCT", "Interval"), ("ON_Interval", "Interval"), ("ON_Line", "Line"),
    ("ON_PLANE_STRUCT", "Plane"), ("ON_UUID", "Guid"), ("ON_Xform", "Transform")]

/-- Typedefs of integers. -/
def defaultTypedefs : List (String × String) :=
  [("BOOL", "int"), ("DWORD", "uint32_t"), ("INT_PTR", "intptr_t"), ("ON_Color", "unsigned int"),
    ("ON__INT16", "int16_t"), ("ON__INT32", "int32_t"), ("ON__INT64", "int64_t"),
    ("ON__INT8", "int8_t"), ("ON__INT_PTR", "intptr_t"), ("ON__UINT16", "uint16_t"),
    ("ON__UINT32", "uint32_t"), ("ON__UINT64", "uint64_t"), ("ON__UINT8", "uint8_t"),
    ("ON__UINT_PTR", "uintptr_t"), ("UINT", "unsigned int"), ("UINT_PTR", "uintptr_t")]

/-- Handles of windows and their parts. -/
def defaultHandles : NameSet := .ofList
  ["HANDLE", "HBITMAP", "HCURSOR", "HDC", "HFONT", "HICON", "HINSTANCE", "HMENU", "HMODULE",
    "HWND"]

/-- The policy that holds where nothing else is configured. -/
def default : MappingPolicy where
  structPrefixes := ["ON_", "ONX_", "CRh"]
  valueStructs := defaultValueStructs
  typedefs := defaultTypedefs
  handles := defaultHandles
  enums := .empty
  strings := [("RHMONO_STRING", .unicode), ("char", .ansi), ("wchar_t", .unicode)]
  outBuffer := .adjacent
  arrayTag := "ARRAY"

instance : Inhabited MappingPolicy := ⟨default⟩

end MappingPolicy

end NativeBindings
