import NativeBindings.CType.Basic
import NativeBindings.Text.Natural
import NativeBindings.Text.Word

/-!
# Reading C types

A type is read from its end: array dimensions, then `*` and `&`, then the base. `const` and
`volatile` behind a pointer or reference qualify it and not what it leads to, and are dropped.
`long` has thirty-two bits.
-/

namespace NativeBindings.CType

/-- The text before the qualifier at its end. -/
def beforeQualifier? (t : Text) : Option Text :=
  ("const".toList.isSuffixOf? t).or ("volatile".toList.isSuffixOf? t)

/-- What precedes a qualifier is shorter than the text. -/
theorem length_lt_of_beforeQualifier? {t rest : Text} (h : beforeQualifier? t = some rest) :
    rest.length < t.length := by
  rcases Option.or_eq_some_iff.1 h with h | ⟨-, h⟩ <;>
    rw [Text.eq_append_of_isSuffixOf? h] <;> simp

/-- The text without the qualifiers behind its last `*` or `&`. -/
def dropOuterQualifiers (t : Text) : Text :=
  match h : beforeQualifier? t with
  | none => t
  | some rest =>
    have : (dropTrailing isBlank rest).length < t.length :=
      Nat.lt_of_le_of_lt (length_dropTrailing_le _ _) (length_lt_of_beforeQualifier? h)
    let rest := rest.trimRight
    if rest.getLast? = some '*' ∨ rest.getLast? = some '&' then dropOuterQualifiers rest else t
termination_by t.length

/-- Dropping qualifiers never lengthens a text. -/
theorem length_dropOuterQualifiers_le (t : Text) : (dropOuterQualifiers t).length ≤ t.length := by
  fun_induction dropOuterQualifiers t with
  | case1 => exact Nat.le_refl _
  | case2 t rest h this rest' hlast ih => exact Nat.le_trans ih (Nat.le_of_lt this)
  | case3 => exact Nat.le_refl _

/-- The characters outside template arguments, given the depth that the text starts at. A closing
bracket without an opening one leaves the depth at zero. -/
def outsideTemplates (depth : Nat) : Text → Text
  | [] => []
  | c :: cs =>
    if c = '<' then outsideTemplates (depth + 1) cs
    else if c = '>' then outsideTemplates (depth - 1) cs
    else if depth = 0 then c :: outsideTemplates depth cs
    else outsideTemplates depth cs

/-- Whether `const` stands in a type outside template arguments. -/
def isConstant (t : Text) : Bool :=
  (Text.findWord? "const".toList (outsideTemplates 0 t)).isSome

/-- A space in template arguments goes behind an opening bracket, before a closing one or a `*`,
and next to a comma. -/
def gluedInTemplate (a b : Char) : Bool := a == '<' || a == ',' || b == '>' || b == '*' || b == ','

/-- The instance of a template with the given text before its arguments and the given arguments,
brackets included. Of several words before the arguments the last one is the name. -/
def ofTemplate (head arguments : Text) : CType :=
  let head := head.trimRight
  let name :=
    match Text.splitLast? [' '] head with
    | some (_, name) => name
    | none => head
  .named (String.ofList (name ++ Text.dropSpaces gluedInTemplate arguments))

/-- The type that words without `signed` and `unsigned` denote, when they denote a builtin type. -/
def ofBuiltin? (isSigned isUnsigned : Bool) (words : String) : Option CType :=
  match words with
  | "void" => some .void
  | "bool" | "_Bool" => some (.scalar .bool)
  | "char" => some (.scalar (if isUnsigned then .uchar else if isSigned then .schar else .char))
  | "wchar_t" => some (.scalar .wchar)
  | "short" | "short int" => some (.scalar (if isUnsigned then .uint16 else .int16))
  | "" =>
    if isUnsigned then some (.scalar .uint32)
    else if isSigned then some (.scalar .int32)
    else none
  -- Under the LLP64 model of Windows `long` has 32 bits.
  | "int" | "long" | "long int" => some (.scalar (if isUnsigned then .uint32 else .int32))
  | "long long" | "long long int" | "__int64" =>
    some (.scalar (if isUnsigned then .uint64 else .int64))
  | "float" => some (.scalar .float)
  | "double" | "long double" => some (.scalar .double)
  | "int8_t" | "__int8" => some (.scalar .int8)
  | "int16_t" | "__int16" => some (.scalar .int16)
  | "int32_t" | "__int32" => some (.scalar .int32)
  | "int64_t" => some (.scalar .int64)
  | "uint8_t" => some (.scalar .uint8)
  | "uint16_t" => some (.scalar .uint16)
  | "uint32_t" => some (.scalar .uint32)
  | "uint64_t" => some (.scalar .uint64)
  | "size_t" => some (.scalar .size)
  | "ssize_t" => some (.scalar .ssize)
  | "ptrdiff_t" => some (.scalar .ptrdiff)
  | "intptr_t" => some (.scalar .intptr)
  | "uintptr_t" => some (.scalar .uintptr)
  | _ => none

/-- The type that the words of the given text denote, its qualifiers left out. -/
def ofWords (t : Text) : CType :=
  let words := ((Text.words t).map String.ofList).filter fun w => w != "const" && w != "volatile"
  match words with
  | [] => .unparsed (String.ofList t)
  | ["struct", name] | ["class", name] | ["union", name] => .struct name
  | ["enum", name] => .enum name
  | _ =>
    let core := words.filter fun w => w != "unsigned" && w != "signed"
    match ofBuiltin? ("signed" ∈ words) ("unsigned" ∈ words) (" ".intercalate core), core with
    | some type, _ => type
    | none, [name] => .named name
    | none, _ => .unparsed (String.ofList t)

/-- The type of a text without array dimensions, `*` and `&` at its end. -/
def ofBase (t : Text) : CType :=
  match Text.splitFirst? ['<'] t with
  | some (head, arguments) => ofTemplate head ('<' :: arguments)
  | none => ofWords t

/-- A text is as long as its part before the last bracket, the bracket and the rest. -/
theorem length_lt_of_splitLast? {mark : Char} {t before after : Text}
    (h : Text.splitLast? [mark] t.dropLast = some (before, after)) : before.length < t.length := by
  have h1 := congrArg List.length (Text.eq_of_splitLast? h)
  simp only [List.length_append, List.length_cons, List.length_nil, List.length_dropLast] at h1
  omega

/-- A text without its last character, trimmed, is shorter when there was one. -/
theorem length_trim_dropLast_lt {t : Text} {c : Char} (h : t.getLast? = some c) :
    (Text.trim t.dropLast).length < t.length := by
  have h1 := Text.length_trim_le t.dropLast
  have h2 : t ≠ [] := by rintro rfl; simp at h
  have h3 := List.length_pos_iff.2 h2
  rw [List.length_dropLast] at h1
  omega

/-- The type that a text spells. -/
def parse (t : Text) : CType :=
  have hle : (dropOuterQualifiers t.collapse).length ≤ t.length :=
    Nat.le_trans (length_dropOuterQualifiers_le _) (Text.length_collapse_le _)
  let s := dropOuterQualifiers t.collapse
  match hlast : s.getLast? with
  | some ']' =>
    match h : Text.splitLast? ['['] s.dropLast with
    | none => .unparsed (String.ofList s)
    | some (before, inside) =>
      -- Only a length makes an array: a name of a constant has a value that no text tells.
      match Text.natural64? inside.trim with
      | some length =>
        have := Nat.lt_of_lt_of_le (length_lt_of_splitLast? h) hle
        .array (parse before) length
      | none => .unparsed (String.ofList s)
  | some '*' =>
    have := Nat.lt_of_lt_of_le (length_trim_dropLast_lt hlast) hle
    .pointer (isConstant (Text.trim s.dropLast)) (parse (Text.trim s.dropLast))
  | some '&' =>
    have := Nat.lt_of_lt_of_le (length_trim_dropLast_lt hlast) hle
    .reference (isConstant (Text.trim s.dropLast)) (parse (Text.trim s.dropLast))
  | _ => ofBase s
termination_by t.length

end NativeBindings.CType
