import NativeBindings.Comment
import NativeBindings.Conditional.Directive
import NativeBindings.Declaration.Head

/-!
# Scanning for exported declarations

The scanner reads code without comments character by character. Outside declarations it looks for
the next export marker, a word that stands alone. Behind a marker it collects the head of a
declaration up to an opening parenthesis, then the parameters up to the matching closing one, and
then expects a semicolon or an opening brace. Every marker found this way gives exactly one finding:
a declaration, or the reason why there is none.

A policy may have the empty word as a marker, and the search for that need not end
(`Text.searchForever`). The definitions below have a value then, too, but it is no result of a run:
what holds for every policy says something of a scan only where the scan ends.
-/

namespace NativeBindings

/-- How a scanner finds declarations. -/
structure ScanPolicy where
  /-- The words that mark an exported function. -/
  markers : List String := ["RH_C_FUNCTION"]
  /-- The number of lines within which a declaration has to end. -/
  lookahead : Nat := 32
  /-- The comments that stay in the code. -/
  tags : List String := ["ARRAY"]
  deriving DecidableEq, Repr

namespace Scanner

/-- A declaration that is being collected. -/
structure Candidate where
  /-- The line of its marker. -/
  line : Nat
  /-- The text between the marker and the parameters, as far as it is read. -/
  head : String := ""
  /-- The text of the parameters, as far as it is read. -/
  params : String := ""
  deriving DecidableEq, Repr

/-- Where the scanner is. -/
inductive State
  /-- Outside declarations. -/
  | outside
  /-- In the head of a declaration. -/
  | inHead (c : Candidate)
  /-- In the arguments of an attribute macro, with the given number of parentheses open. -/
  | inAttribute (c : Candidate) (depth : Nat)
  /-- In the parameters, with the given number of parentheses open. -/
  | inParams (c : Candidate) (depth : Nat)
  /-- Behind the parameters. -/
  | afterParams (c : Candidate)
  deriving DecidableEq, Repr

/-- The declaration that is being collected. -/
def State.candidate? : State → Option Candidate
  | .outside => none
  | .inHead c | .inAttribute c _ | .inParams c _ | .afterParams c => some c

/-- Why a marker gives no declaration. -/
inductive Reason
  /-- The head holds a character that no declaration of a function has. -/
  | notAFunction
  /-- Something other than a semicolon or an opening brace follows the parameters. -/
  | badEnd
  /-- The declaration does not end within the given number of lines. -/
  | tooLong (lookahead : Nat)
  /-- The file ends first. -/
  | endOfFile
  /-- The declaration is complete but cannot be bound. -/
  | defect (d : Defect)
  deriving DecidableEq, Repr

/-- The text of a reason. -/
def Reason.message : Reason → String
  | .notAFunction => "export marker is not followed by a function declaration"
  | .badEnd => "expected `;` or `\x7b` after parameter list"
  | .tooLong lookahead =>
    "declaration is not terminated within " ++ toString lookahead ++ " lines"
  | .endOfFile => "declaration is not terminated before end of file"
  | .defect d => d.message

/-- What a marker gives. -/
inductive Finding
  /-- A declaration. -/
  | declared (d : Declaration)
  /-- No declaration: the line of the marker and the reason. -/
  | skipped (line : Nat) (reason : Reason)
  deriving DecidableEq, Repr

/-- The declaration of a finding. -/
def Finding.declaration? : Finding → Option Declaration
  | .declared d => some d
  | .skipped _ _ => none

/-- The warning of a finding in the given file. -/
def Finding.warning? (file : Path) : Finding → Option Diagnostic
  | .declared _ => none
  | .skipped line reason =>
    let warning := (Diagnostic.new .warning reason.message).located ⟨file, line⟩
    some <|
      match reason with
      | .defect (.badParameter _ _) => (warning.withContext "declaration skipped").withSuggestion
        "help: Name every parameter of an exported function"
      | .defect _ => warning.withContext "declaration skipped"
      | _ => warning

/-- The declarations among findings. -/
def declarations (findings : List Finding) : List Declaration :=
  findings.filterMap Finding.declaration?

/-- The warnings of findings in the given file. -/
def warnings (file : Path) (findings : List Finding) : List Diagnostic :=
  findings.filterMap (Finding.warning? file)

/-- A line of code without comments, and its line comment. -/
structure CodeLine where
  /-- Its number. -/
  number : Nat
  /-- Its code. -/
  code : Text
  /-- The text of its line comment. -/
  comment : Option Text := none
  deriving DecidableEq, Repr

/-- A marker in a text: the length of the text before it, its own length and the text behind it. -/
structure Mark where
  /-- The number of characters before the marker. -/
  start : Nat
  /-- The number of characters of the marker. -/
  length : Nat
  /-- The text behind the marker. -/
  rest : Text

/-- The first occurrence of a marker that stands alone. -/
def Mark.find? (text : Text) (marker : String) : Option Mark :=
  (Text.findWord? marker.toList text).map fun (before, after) =>
    ⟨before.length, marker.length, after⟩

/-- Of two marks the one that starts first, and of two at one place the shorter one. -/
def Mark.earlier (a b : Mark) : Mark :=
  if b.start < a.start ∨ (b.start = a.start ∧ b.length < a.length) then b else a

/-- The text behind the first marker in a text. -/
def afterMarker? (policy : ScanPolicy) (text : Text) : Option Text :=
  match policy.markers.filterMap (Mark.find? text) with
  | [] => none
  | m :: ms => some (ms.foldl Mark.earlier m).rest

/-- Behind a marker lies no more text than there was. -/
theorem length_le_of_afterMarker? {policy : ScanPolicy} {text rest : Text}
    (h : afterMarker? policy text = some rest) : rest.length ≤ text.length := by
  have hall : ∀ m ∈ policy.markers.filterMap (Mark.find? text),
      m.rest.length ≤ text.length := by
    intro m hm
    obtain ⟨w, -, hw⟩ := List.mem_filterMap.1 hm
    obtain ⟨⟨b, a⟩, hfind, rfl⟩ := Option.map_eq_some_iff.1 hw
    exact Text.length_le_of_findWord? hfind
  unfold afterMarker? at h
  split at h
  · simp at h
  · rename_i m ms heq
    rw [heq] at hall
    simp only [Option.some.injEq] at h
    subst h
    have hm := hall m (by simp)
    have hms : ∀ x ∈ ms, x.rest.length ≤ text.length := fun x hx => hall x (by simp [hx])
    -- The earliest of the marks is one of them.
    clear heq hall
    induction ms generalizing m with
    | nil => exact hm
    | cons x xs ih =>
      refine ih (m.earlier x) ?_ fun y hy => hms y (by simp [hy])
      unfold Mark.earlier
      split
      · exact hms x (by simp)
      · exact hm

/-- What a complete declaration gives. -/
def finish (file : Path) (c : Candidate) (doc : Option Text) : Finding :=
  match Declaration.read ⟨file, c.line⟩ c.head.toList c.params.toList doc with
  | .ok d => .declared d
  | .error d => .skipped c.line (.defect d)

/-- The state after one character inside a declaration, and what it completes. -/
def State.read (file : Path) (doc : Option Text) (s : State) (ch : Char) :
    State × Option Finding :=
  match s with
  | .outside => (.outside, none)
  | .inHead c =>
    if ch = '(' then
      -- The arguments of an attribute macro are no parameters, and stay in the head.
      if String.ofList (trailingWord c.head.toList) ∈ attributeMacros then
        (.inAttribute { c with head := c.head.push ch } 1, none)
      else (.inParams c 1, none)
    else if ch = ';' ∨ ch = '{' ∨ ch = '}' ∨ ch = '=' then
      (.outside, some (.skipped c.line .notAFunction))
    else (.inHead { c with head := c.head.push ch }, none)
  | .inAttribute c depth =>
    let c := { c with head := c.head.push ch }
    if ch = '(' then (.inAttribute c (depth + 1), none)
    else if ch = ')' then
      if depth = 1 then (.inHead c, none) else (.inAttribute c (depth - 1), none)
    else (.inAttribute c depth, none)
  | .inParams c depth =>
    -- The parentheses around the parameters are no part of their text; those inside are.
    if ch = ')' ∧ depth = 1 then (.afterParams c, none)
    else
      let c := { c with params := c.params.push ch }
      if ch = '(' then (.inParams c (depth + 1), none)
      else if ch = ')' then (.inParams c (depth - 1), none)
      else (.inParams c depth, none)
  | .afterParams c =>
    if ch = ';' ∨ ch = '{' then (.outside, some (finish file c doc))
    -- Words may stand between the parameters and the end of the declaration.
    else if isBlank ch || isIdentChar ch then (.afterParams c, none)
    else (.outside, some (.skipped c.line .badEnd))

/-- The state after a text and the findings in it, in order. Outside declarations the text is
searched for a marker; inside one it is read by character. -/
def readText (policy : ScanPolicy) (file : Path) (line : Nat) (doc : Option Text) (s : State)
    (text : Text) : State × List Finding :=
  match text with
  | [] => (s, [])
  | c :: cs =>
    -- A step outside may read nothing, when the marker is the empty word, but a declaration begins.
    if s = .outside then
      match h : afterMarker? policy (c :: cs) with
      | none => (s, [])
      | some rest =>
        have := length_le_of_afterMarker? h
        readText policy file line doc (.inHead { line }) rest
    else
      let (s, found) := s.read file doc c
      let (s, more) := readText policy file line doc s cs
      (s, found.toList ++ more)
termination_by 2 * text.length + if s = .outside then 1 else 0
decreasing_by
  · rename_i hs
    rw [if_neg (by simp), if_pos hs]
    omega
  · rw [List.length_cons]
    split <;> omega

/-- A declaration that has not ended within the lookahead is given up when a further line comes. -/
def State.expire (policy : ScanPolicy) (number : Nat) (s : State) : State × Option Finding :=
  match s.candidate? with
  | none => (s, none)
  | some c =>
    if policy.lookahead ≤ number - c.line then
      (.outside, some (.skipped c.line (.tooLong policy.lookahead)))
    else (s, none)

/-- The end of a line parts words. -/
def State.endLine : State → State
  | .inHead c => .inHead { c with head := c.head.push ' ' }
  | .inAttribute c depth => .inAttribute { c with head := c.head.push ' ' } depth
  | .inParams c depth => .inParams { c with params := c.params.push ' ' } depth
  | s => s

/-- The state after a line of code and the findings in it, in order. -/
def feed (policy : ScanPolicy) (file : Path) (s : State) (l : CodeLine) : State × List Finding :=
  let (s, expired) := s.expire policy l.number
  let (s, found) := readText policy file l.number l.comment s l.code
  (s.endLine, expired.toList ++ found)

/-- The state after lines of code and the findings in them, in order. -/
def feedAll (policy : ScanPolicy) (file : Path) (s : State) :
    List CodeLine → State × List Finding
  | [] => (s, [])
  | l :: ls =>
    let (s, found) := feed policy file s l
    let (s, more) := feedAll policy file s ls
    (s, found ++ more)

/-- What the end of the file gives: a declaration that is being collected is given up. -/
def State.atEnd (s : State) : List Finding :=
  s.candidate?.toList.map fun c => .skipped c.line .endOfFile

/-- The code of lines, with the tags of the policy kept. -/
def codeLines (policy : ScanPolicy) (lines : List Conditional.SourceLine) : List CodeLine :=
  (lines.zip (Comment.readLines (policy.tags.map (·.toList)) (lines.map (·.text)))).map
    fun (source, line) => ⟨source.number, line.code, line.remark⟩

/-- The findings in the lines of a file. -/
def scan (policy : ScanPolicy) (file : Path) (lines : List Conditional.SourceLine) :
    List Finding :=
  let (s, found) := feedAll policy file .outside (codeLines policy lines)
  found ++ s.atEnd

end Scanner

end NativeBindings
