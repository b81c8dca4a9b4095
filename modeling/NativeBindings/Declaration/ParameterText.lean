import NativeBindings.Declaration.Basic
import NativeBindings.Declaration.TypeText

/-!
# Reading parameters

A parameter is a type, a name and array dimensions behind the name; a default value is cut off. A
list of parameters is divided at the commas that lie outside parentheses, angle brackets and square
brackets.
-/

namespace NativeBindings

/-- The last word of a text. Characters outside ASCII belong to the word, so that a name spelled
with them is not cut short but refused as a whole. -/
def trailingWord (t : Text) : Text :=
  takeTrailing (fun c => isIdentChar c || 128 ≤ c.toNat) t.trimRight

/-- How a character changes the depth of nesting. -/
def nesting (c : Char) : Int :=
  if c == '(' || c == '<' || c == '[' then 1
  else if c == ')' || c == '>' || c == ']' then -1
  else 0

/-- The pieces of a text between the commas at depth zero, given the depth that it starts at. -/
def splitTopLevelAt (depth : Int) : Text → List Text
  | [] => [[]]
  | c :: cs =>
    if c = ',' ∧ depth = 0 then [] :: splitTopLevelAt 0 cs
    else (splitTopLevelAt (depth + nesting c) cs).modifyHead (c :: ·)

/-- The pieces of a text between its top-level commas. -/
def splitTopLevel (t : Text) : List Text := splitTopLevelAt 0 t

/-- The text before the first equals sign at depth zero, when there is one. -/
def beforeDefaultAt? (depth : Int) : Text → Option Text
  | [] => none
  | c :: cs =>
    if c = '=' ∧ depth = 0 then some []
    else (beforeDefaultAt? (depth + nesting c) cs).map (c :: ·)

/-- A parameter without its default value. -/
def withoutDefault (t : Text) : Text :=
  match beforeDefaultAt? 0 t with
  | some before => before.trim
  | none => t

/-- What precedes the last dimension is shorter than the text. -/
theorem length_lt_of_dimension {t before inside : Text}
    (h : Text.splitLast? ['['] t.trimRight.dropLast = some (before, inside)) :
    before.length < t.length := by
  have h1 := congrArg List.length (Text.eq_of_splitLast? h)
  have h2 : t.trimRight.length ≤ t.length := length_dropTrailing_le _ _
  simp only [List.length_append, List.length_cons, List.length_nil, List.length_dropLast] at h1
  omega

/-- A declarator cut before its array dimensions, which are spelled without blanks at the ends of
their brackets; none when a closing bracket has no opening one. -/
def splitDimensions? (t : Text) : Option (Text × Text) :=
  let body := t.trimRight
  if body.getLast? = some ']' then
    match h : Text.splitLast? ['['] body.dropLast with
    | none => none
    | some (before, inside) =>
      have : before.length < t.length := length_lt_of_dimension h
      (splitDimensions? before).map fun (body, dimensions) =>
        (body, dimensions ++ '[' :: inside.trim ++ [']'])
  else some (body, [])
termination_by t.length
decreasing_by exact this

/-- The words of types, which name no parameter. -/
def typeWords : List String :=
  ["void", "bool", "char", "wchar_t", "short", "int", "long", "float", "double", "signed",
    "unsigned", "const", "volatile", "struct", "class", "enum", "union"]

/-- The text behind the last comment of a type. -/
def behindComments (t : Text) : Text :=
  match Text.splitLast? ['*', '/'] t with
  | some (_, after) => after
  | none => t

/-- The parameter that a text declares; none when it has no type or no name. -/
def Parameter.parse? (t : Text) : Option Parameter := do
  let (body, dimensions) ← splitDimensions? (withoutDefault t.collapse)
  let name := trailingWord body
  if !isIdentifier name || String.ofList name ∈ typeWords then none
  else
    -- A tag alone is no type: something has to stand behind the last comment.
    let type := Text.trim (body.take (body.length - name.length))
    if (behindComments type).trim.isEmpty then none
    else some ⟨String.ofList (TypeText.tidy (type ++ dimensions)), String.ofList name⟩

end NativeBindings
