import NativeBindings.Convention
import NativeBindings.Declaration.ParameterText

/-!
# Reading a declaration

A declaration is read from the text between the export marker and the parameters, its head, and the
text of the parameters. The head holds attribute macros with their arguments, words for linkage and
for the calling convention, the return type and, last, the name.
-/

namespace NativeBindings

/-- The macros that decorate a declaration and take arguments. -/
def attributeMacros : List String := ["__declspec", "__attribute__", "alignas", "_Pragma"]

/-- The words of storage and linkage, which are not part of the return type. -/
def linkageWords : List String :=
  ["extern", "\"C\"", "\"C++\"", "static", "inline", "__inline", "__forceinline"]

/-- The text behind the parenthesis that closes the innermost of `depth` open ones; with none open,
behind the first group of balanced parentheses. -/
def afterClosing? (depth : Nat) : Text → Option Text
  | [] => none
  | '(' :: cs => afterClosing? (depth + 1) cs
  | ')' :: cs => if depth = 1 then some cs else afterClosing? (depth - 1) cs
  | _ :: cs => afterClosing? depth cs

/-- What follows the closing parenthesis is shorter than the text. -/
theorem length_lt_of_afterClosing? {depth : Nat} {t rest : Text}
    (h : afterClosing? depth t = some rest) : rest.length < t.length := by
  fun_induction afterClosing? depth t with
  | case1 => simp at h
  | case2 depth cs ih => have := ih h; simp only [List.length_cons]; omega
  | case3 cs => cases h; simp
  | case4 depth cs _ ih => have := ih h; simp only [List.length_cons]; omega
  | case5 depth c cs _ _ ih => have := ih h; simp only [List.length_cons]; omega

/-- A head cut around the first call of the given macro. -/
def splitAttribute? (head : Text) (name : String) : Option (Text × Text) := do
  let (before, after) ← Text.findWord? name.toList head
  let arguments := after.trimLeft
  if arguments.head? = some '(' then
    let rest ← afterClosing? 0 arguments
    return (before, rest)
  else none

/-- What follows a macro call is shorter than the head. -/
theorem length_lt_of_splitAttribute? {head before after : Text} {name : String}
    (h : splitAttribute? head name = some (before, after)) : after.length < head.length := by
  simp only [splitAttribute?, Option.bind_eq_bind, Option.bind_eq_some_iff] at h
  obtain ⟨⟨b, a⟩, hfind, hrest⟩ := h
  split at hrest
  · simp only [Option.bind_eq_some_iff, Option.pure_def, Option.some.injEq, Prod.mk.injEq] at hrest
    obtain ⟨rest, hclose, -, rfl⟩ := hrest
    have h1 := length_lt_of_afterClosing? hclose
    have h2 : (Text.trimLeft a).length ≤ a.length := length_dropWhile_le _ _
    have h3 := Text.length_le_of_findWord? hfind
    omega
  · simp at hrest

/-- The head with every macro call, and its arguments, replaced by a space. -/
def stripAttributes (head : Text) : Text :=
  match h : attributeMacros.findSome? (splitAttribute? head) with
  | none => head
  | some (before, rest) =>
    have : rest.length < head.length := by
      obtain ⟨name, -, hname⟩ := List.exists_of_findSome?_eq_some h
      exact length_lt_of_splitAttribute? hname
    before ++ ' ' :: stripAttributes rest
termination_by head.length

/-- Why a declaration cannot be bound. -/
inductive Defect
  /-- Its head does not end with an identifier. -/
  | noName
  /-- Nothing stands before its name. -/
  | noReturnType (name : String)
  /-- It takes a varying number of arguments. -/
  | variadic (name : String)
  /-- One of its parameters cannot be read. -/
  | badParameter (piece : String) (name : String)
  deriving DecidableEq, Repr

/-- The text of a defect. -/
def Defect.message : Defect → String
  | .noName => "cannot find the function name of an exported declaration"
  | .noReturnType name => "exported function `" ++ name ++ "` has no return type"
  | .variadic name => "exported function `" ++ name ++ "` is variadic and cannot be bound"
  | .badParameter piece name =>
    "parameter `" ++ piece ++ "` of `" ++ name ++ "` has no name or cannot be split"

/-- The parameter that a piece of the list declares. -/
def readParameter (function : String) (piece : Text) : Except Defect Parameter :=
  let piece := piece.trim
  if piece = ['.', '.', '.'] then .error (.variadic function)
  else
    match Parameter.parse? piece with
    | some p => .ok p
    | none => .error (.badParameter (String.ofList piece) function)

/-- The parameters of a list; a list without words and the word `void` declare none. -/
def readParameters (function : String) (params : Text) : Except Defect (List Parameter) :=
  let params := params.collapse
  if params.isEmpty || params = "void".toList then .ok []
  else (splitTopLevel params).mapM (readParameter function)

/-- Whether a word asks for a calling convention. -/
def isConventionWord (w : Text) : Bool := (Convention.ofKeyword? (String.ofList w)).isSome

/-- The declaration with the given head and parameters. Of several words for the calling convention
the last one counts. -/
def Declaration.read (location : Location) (head params : Text) (doc : Option Text) :
    Except Defect Declaration := do
  let words := (Text.words (stripAttributes head)).filter (String.ofList · ∉ linkageWords)
  let head := Text.unwords (words.filter (!isConventionWord ·))
  let name := trailingWord head
  if !isIdentifier name then throw .noName
  let returnType := TypeText.tidy (head.take (head.length - name.length))
  let name := String.ofList name
  if returnType.isEmpty then throw (.noReturnType name)
  let params ← readParameters name params
  return {
    location
    returnType := String.ofList returnType
    name
    params
    convention := (words.filter isConventionWord).getLast?.map String.ofList
    doc := doc.map String.ofList }

end NativeBindings
