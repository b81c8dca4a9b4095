import NativeBindings.CType.Parser
import NativeBindings.Declaration.Basic
import NativeBindings.Marshal.Tag
import NativeBindings.Marshal.Policy

/-!
# From native to managed types

A type is read, its typedefs are expanded, and then the first rule that fits decides: scalars,
enumerations, handles and structures by value; arrays; strings; pointers and references. A type
that no rule knows gets a default and is reported. At last, pointers to characters next to an
integer become output buffers of that capacity.
-/

namespace NativeBindings

/-- What the mapping of types depends on. -/
structure Mapper where
  /-- The tables. -/
  policy : MappingPolicy
  /-- The calling convention of all functions. -/
  convention : Convention
  deriving DecidableEq

namespace Mapper

/-- A type with its typedefs expanded, in at most `fuel` steps down to and into each name. -/
def expandWithin (typedefs : List (String × String)) : Nat → CType → CType
  | 0, t => t
  | fuel + 1, .named name =>
    match typedefs.lookup name with
    | some text => expandWithin typedefs fuel (CType.parse text.toList)
    | none => .named name
  | fuel + 1, .pointer constant t => .pointer constant (expandWithin typedefs fuel t)
  | fuel + 1, .reference constant t => .reference constant (expandWithin typedefs fuel t)
  | fuel + 1, .array t length => .array (expandWithin typedefs fuel t) length
  | _ + 1, t => t

/-- The number of steps after which a chain of typedefs counts as endless. -/
def expansionSteps : Nat := 9

/-- A type with its typedefs expanded. -/
def expand (m : Mapper) (t : CType) : CType := expandWithin m.policy.typedefs expansionSteps t

/-- The encoding of strings with the given element. -/
def encoding? (m : Mapper) : CType → Option Encoding
  | .scalar .char => m.policy.strings.lookup "char"
  | .scalar .wchar => m.policy.strings.lookup "wchar_t"
  | .named name => m.policy.strings.lookup name
  | _ => none

/-- The managed structure of a native one. -/
def valueStruct? (m : Mapper) : CType → Option String
  | .struct name | .named name => m.policy.valueStructs.lookup name
  | _ => none

/-- Whether a type is an enumeration. -/
def isEnum (m : Mapper) : CType → Bool
  | .enum _ => true
  | .named name => name ∈ m.policy.enums
  | _ => false

/-- Whether a type is a handle. -/
def isHandle (m : Mapper) : CType → Bool
  | .named name => name ∈ m.policy.handles
  | _ => false

/-- Whether a name starts like a class that is only handled through pointers. -/
def hasStructPrefix (m : Mapper) (name : String) : Bool :=
  m.policy.structPrefixes.any fun start => start.toList.isPrefixOf name.toList

/-- Whether the managed side only carries pointers to a type around. -/
def isOpaque (m : Mapper) : CType → Bool
  | .void | .struct _ | .pointer _ _ => true
  | .named name => name ∈ m.policy.handles || m.hasStructPrefix name
  | _ => false

/-- Whether a rule knows a type behind a pointer. -/
def isKnown (m : Mapper) (t : CType) : Bool :=
  t.scalarManaged?.isSome || (m.encoding? t).isSome || (m.valueStruct? t).isSome || m.isEnum t ||
    m.isOpaque t

/-- The counterpart of a type passed by value. -/
def mapValue? (m : Mapper) (t : CType) (native : String) : Option ManagedType :=
  match t.scalarManaged? with
  | some managed => some { managed, directive := .scalar, native }
  | none =>
    if m.isEnum t then some { managed := "int", directive := .scalar, native }
    else if m.isHandle t then some { managed := "IntPtr", directive := .opaquePointer, native }
    else (m.valueStruct? t).map fun managed => { managed, directive := .structValue, native }

/-- The counterpart of a pointer or reference to a type. -/
def mapIndirect? (m : Mapper) (target : CType) (writable : Bool) (extent : Extent)
    (native : String) : Option ManagedType :=
  let buffer := Directive.buffer extent writable
  match target.scalarManaged?, m.valueStruct? target with
  | some managed, _ => some { managed, directive := buffer, native }
  | none, some managed =>
    -- A single structure goes by pointer; an array of them is a buffer like one of scalars.
    let directive := if extent = .array then buffer else .structPointer
    some { managed, directive, native }
  | none, none =>
    if m.isEnum target then some { managed := "int", directive := buffer, native }
    else if m.isOpaque target then
      some { managed := "IntPtr", directive := .opaquePointer, native }
    else none

/-- The managed type of the elements of an array. -/
def elementName? (m : Mapper) (t : CType) : Option String :=
  t.scalarManaged?.or (m.valueStruct? t)

/-- The counterpart of a pointer to the elements of a string. -/
def mapString (encoding : Encoding) (writable : Bool) (native : String) : ManagedType :=
  if writable then { managed := "IntPtr", directive := .opaquePointer, native }
  else { managed := "string", directive := .stringIn encoding, native }

/-- The counterpart of a parameter's type, when a rule knows it. The element of a string is looked
up before its typedefs are expanded, and a tagged pointer leads to an array and to no string. -/
def mapParam? (m : Mapper) (text : String) : Option ManagedType :=
  let word := m.policy.arrayTag.toList
  let tagged := Tag.occurs word text.toList
  let nativeText := (Tag.replaceAll word text.toList).trim
  let native := String.ofList nativeText
  let parsed := CType.parse nativeText
  let expanded := m.expand parsed
  -- A tag says nothing about a value or an array: only pointers ask for it.
  (m.mapValue? expanded native).or <|
    match expanded with
    | .array element length => (m.elementName? element).map fun managed =>
      { managed, directive := .fixedArray length, native }
    | .pointer constant target =>
      -- A tagged pointer leads to an array, even of characters.
      let encoding := if tagged then none else m.encoding? (parsed.target?.getD target)
      match encoding with
      | some encoding => some (mapString encoding (!constant) native)
      | none =>
        m.mapIndirect? target (!constant) (if tagged then .array else .single) native
    | .reference constant target => m.mapIndirect? target (!constant) .single native
    | _ => none

/-- The counterpart of a return type, when a rule knows it; pointers come back as they are. -/
def mapReturn? (m : Mapper) (text : String) : Option ManagedType :=
  let nativeText := Text.trim text.toList
  let native := String.ofList nativeText
  let expanded := m.expand (CType.parse nativeText)
  if expanded = .void then some .void
  else
    (m.mapValue? expanded native).or <|
      match expanded with
      | .pointer _ target =>
        if m.isKnown target then some { managed := "IntPtr", directive := .opaquePointer, native }
        else none
      | _ => none

/-- The words that the generated language reserves. -/
def reservedWords : List String :=
  ["abstract", "as", "base", "bool", "break", "byte", "case", "catch", "char", "checked",
    "class", "const", "continue", "decimal", "default", "delegate", "do", "double", "else",
    "enum", "event", "explicit", "extern", "false", "finally", "fixed", "float", "for",
    "foreach", "goto", "if", "implicit", "in", "int", "interface", "internal", "is", "lock",
    "long", "namespace", "new", "null", "object", "operator", "out", "override", "params",
    "private", "protected", "public", "readonly", "ref", "return", "sbyte", "sealed", "short",
    "sizeof", "stackalloc", "static", "string", "struct", "switch", "this", "throw", "true",
    "try", "typeof", "uint", "ulong", "unchecked", "unsafe", "ushort", "using", "virtual",
    "void", "volatile", "while"]

/-- The name as an identifier of the generated language: a reserved word gets an at sign. -/
def escapeIdentifier (name : String) : String :=
  if name ∈ reservedWords then "@" ++ name else name

/-- Whether a counterpart can hold the capacity of a buffer. -/
def isCapacity (t : ManagedType) : Bool :=
  t.directive == .scalar &&
    t.managed ∈ ["int", "uint", "long", "ulong", "short", "ushort", "UIntPtr"]

/-- The managed type of a string that is written. -/
def stringBuilder : String := "System.Text.StringBuilder"

/-- The encoding of the string that a parameter of the given type may receive: it is a pointer to
the elements of a string, neither constant nor tagged. -/
def outEncoding? (m : Mapper) (text : String) : Option Encoding :=
  if Tag.occurs m.policy.arrayTag.toList text.toList then none
  else
    match CType.parse text.toList with
    | .pointer false element => m.encoding? element
    | _ => none

/-- The type of the parameter at an index as an output buffer, when it is one. -/
def outBuffer? (m : Mapper) (texts : List String) (types : List ManagedType) (i : Nat) :
    Option ManagedType := do
  let text ← texts[i]?
  let type ← types[i]?
  let encoding ← m.outEncoding? text
  let capacity ← (m.policy.outBuffer.candidates i types.length).find? fun j =>
    types[j]?.any isCapacity
  return { type with managed := stringBuilder, directive := .stringOut encoding capacity }

/-- Types of parameters, those of output buffers replaced. -/
def bindOutBuffers (m : Mapper) (texts : List String) (types : List ManagedType) :
    List ManagedType :=
  types.zipIdx.map fun (type, i) => (m.outBuffer? texts types i).getD type

/-- What a declaration is warned about. -/
inductive Warning
  /-- No rule knows the type of a value. -/
  | unresolved (slot : Signature.Slot) (text : String)
  /-- The declaration asks for another calling convention. -/
  | otherConvention (word : String)
  deriving DecidableEq, Repr

/-- The diagnostic of a warning about the given declaration. -/
def Warning.diagnostic (m : Mapper) (d : Declaration) : Warning → Diagnostic
  | .unresolved slot text =>
    let value :=
      match slot with
      | .returned => "the return value"
      | .parameter _ => slot.phrase
    ((Diagnostic.new .warning ("cannot map type `" ++ text ++ "` of " ++ value ++ " in `" ++
      d.name ++ "`; defaulting to IntPtr")).located d.location).withSuggestion
      "help: Add the type to [mapping.typedefs], [mapping.value_structs] or [mapping.handles]"
  | .otherConvention word =>
    (Diagnostic.new .warning ("`" ++ d.name ++ "` is declared `" ++ word ++
      "` but bindings use " ++ m.convention.name)).located d.location

/-- The types of a declaration that no rule knows. -/
def unresolvedWarnings (m : Mapper) (d : Declaration) : List Warning :=
  (if (m.mapReturn? d.returnType).isNone then [.unresolved .returned d.returnType] else []) ++
    (d.params.filter fun p => (m.mapParam? p.typeText).isNone).map fun p =>
      .unresolved (.parameter p.name) p.typeText

/-- The calling convention that a declaration asks for, when it is another one. -/
def conventionWarnings (m : Mapper) (d : Declaration) : List Warning :=
  match d.convention with
  | none => []
  | some word =>
    match Convention.ofKeyword? word with
    | some declared => if declared = m.convention then [] else [.otherConvention word]
    | none => []

/-- The warnings about a declaration, in order. -/
def warnings (m : Mapper) (d : Declaration) : List Warning :=
  m.unresolvedWarnings d ++ m.conventionWarnings d

/-- The counterpart of a parameter's type by itself, the default included. -/
def mapParam (m : Mapper) (text : String) : ManagedType :=
  (m.mapParam? text).getD (.unresolved text)

/-- The counterpart of a return type, the default included. -/
def mapReturn (m : Mapper) (text : String) : ManagedType :=
  (m.mapReturn? text).getD (.unresolved text)

/-- The signature of a declaration. -/
def signature (m : Mapper) (d : Declaration) : Signature :=
  let texts := d.params.map (·.typeText)
  let types := m.bindOutBuffers texts (texts.map m.mapParam)
  { name := d.name
    returnType := m.mapReturn d.returnType
    params := (d.params.zip types).map fun (p, type) => ⟨escapeIdentifier p.name, type⟩
    origin := d.location
    convention := m.convention
    doc := d.doc }

/-- The diagnostics about a declaration, in order. -/
def diagnostics (m : Mapper) (d : Declaration) : List Diagnostic :=
  (m.warnings d).map (·.diagnostic m d)

end Mapper

end NativeBindings
