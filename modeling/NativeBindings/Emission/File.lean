import NativeBindings.Catalogue
import NativeBindings.Emission.Parameter
import NativeBindings.Text.Word

/-!
# The generated file

The file starts with a header, which names the library and the namespaces that it imports. Then one
class holds the declarations, grouped by the native file that they come from.
-/

namespace NativeBindings.Emission

/-- What the generated file says besides its declarations. -/
structure Options where
  /-- The library that the declarations link to. -/
  library : String := "lib"
  /-- The namespace around the class. -/
  enclosing : Option String := none
  /-- The name of the class. -/
  className : String := "UnsafeNativeMethods"
  /-- The class that holds the names of libraries as constants. -/
  importClass : Option String := none
  /-- The namespaces to import besides the base ones. -/
  usings : List String := []
  /-- The fingerprint of the inputs. -/
  fingerprint : Option String := none
  deriving DecidableEq, Repr

/-- The namespaces that every generated file imports. -/
def baseUsings : List String := ["System", "System.Runtime.InteropServices"]

/-- The namespace that an import names: blanks, the word `using` and semicolons around it are left
out. -/
def usingName (s : String) : String :=
  let t := Text.trim s.toList
  let t := ("using ".toList.isPrefixOf? t).getD t
  String.ofList (Text.trim (dropTrailing (· == ';') t))

/-- The namespaces to import, each once, in the order of their first mention. -/
def usingNames (o : Options) : List String :=
  (baseUsings ++ o.usings.map usingName).eraseDups.filter (· != "")

/-- The library in the declarations: a constant of the import class where there is one, and
otherwise a string literal. -/
def linkTarget (o : Options) : String :=
  match o.importClass with
  | some class_ => class_ ++ "." ++ o.library
  | none =>
    let quoted := o.library.toList.flatMap fun c => if c = '\x22' then ['\\', '\x22'] else [c]
    "\"" ++ String.ofList quoted ++ "\""

/-- A line indented by the given number of levels. -/
def indented (depth : Nat) (line : String) : String :=
  String.join (List.replicate depth "  ") ++ line

/-- The lines before the namespace or the class. -/
def headerLines (o : Options) : List String :=
  ["// <auto-generated>",
    "// Generated by methodgen from native export declarations.",
    "// Do not edit by hand: changes are lost when the file is regenerated.",
    "// Library: " ++ o.library] ++
  o.fingerprint.toList.map ("// Fingerprint: " ++ ·) ++
  ["// </auto-generated>", ""] ++ (usingNames o).map ("using " ++ · ++ ";") ++ [""]

/-- The value that a note is about. The name `return`, which no parameter can have, stands for the
return value. -/
def noteSubject : Signature.Slot → String
  | .parameter "return" => Signature.Slot.returned.phrase
  | slot => slot.phrase

/-- The note about a value whose type is the default. -/
def noteLine (slot : Signature.Slot) (t : ManagedType) : String :=
  "// NOTE: native type `" ++ t.native ++ "` of " ++ noteSubject slot ++
    " is unresolved; defaulted to " ++ t.managed

/-- The attribute that links a declaration to the library. -/
def importLine (o : Options) (s : Signature) : String :=
  "[DllImport(" ++ linkTarget o ++ ", CallingConvention = CallingConvention." ++
    s.convention.managedName ++ ")]"

/-- The declaration of a function. -/
def externLine (s : Signature) : String :=
  "internal static extern " ++ s.returnType.managed ++ " " ++ s.name ++ "(" ++
    ", ".intercalate (s.params.map renderParameter) ++ ");"

/-- The lines of a function: documentation, notes, attributes and the declaration. -/
def functionLines (o : Options) (s : Signature) : List String :=
  s.doc.toList.map ("// " ++ ·) ++
  s.unresolved.map (fun (slot, t) => noteLine slot t) ++
  [importLine o s] ++
  (if isBool s.returnType then ["[return: MarshalAs(UnmanagedType.U1)]"] else []) ++
  [externLine s]

/-- The lines of a function in the class, an empty one last. -/
def functionBlock (o : Options) (depth : Nat) (s : Signature) : List String :=
  (functionLines o s).map (indented depth) ++ [""]

/-- The lines of a file's group: the name of the file and its functions. -/
def groupLines (o : Options) (depth : Nat) (group : Path × List Signature) : List String :=
  indented depth ("// " ++ group.1.displayName) :: group.2.flatMap (functionBlock o depth)

/-- The lines of the class. -/
def classLines (o : Options) (depth : Nat) (c : Catalogue) : List String :=
  [indented depth ("internal partial class " ++ o.className), indented depth "\x7b"] ++
  [""].intercalate (c.groups.map (groupLines o (depth + 1))) ++
  [indented depth "\x7d"]

/-- The lines of the generated file. -/
def fileLines (o : Options) (c : Catalogue) : List String :=
  headerLines o ++
    match o.enclosing with
    | some name => ["namespace " ++ name, "\x7b"] ++ classLines o 1 c ++ ["\x7d"]
    | none => classLines o 0 c

/-- The text of the generated file: its lines, each ended by a line feed. -/
def render (o : Options) (c : Catalogue) : String :=
  String.join ((fileLines o c).map (· ++ "\n"))

end NativeBindings.Emission
