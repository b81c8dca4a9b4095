import NativeBindings.Proofs.Declaration.Name
import NativeBindings.Proofs.Emission.Listing
import NativeBindings.Proofs.Marshal.OutBuffer

/-!
# Names in the generated file

The names of functions and of parameters are identifiers of the native language. Most of them are
identifiers of the generated language too. Some are keywords there, and these it takes as names with
an at sign only (`LegalName`). The names of parameters get the sign (`legalName_escapeIdentifier`)
and are always legal. The names of functions stay as they are, and so a declaration is legal exactly
when its function is not named by a keyword (`names_legal_iff`).
-/

namespace NativeBindings

/-! ## Identifiers of the generated language -/

namespace Emission

/-- An ASCII letter. -/
def IsLetter (c : Char) : Prop := ('a' ≤ c ∧ c ≤ 'z') ∨ ('A' ≤ c ∧ c ≤ 'Z')

/-- An ASCII digit. -/
def IsDigit (c : Char) : Prop := '0' ≤ c ∧ c ≤ '9'

/-- A name is an ASCII identifier when it is a letter or an underscore with letters, digits and
underscores behind it. -/
def AsciiIdentifier (name : String) : Prop :=
  ∃ c cs, name.toList = c :: cs ∧ (IsLetter c ∨ c = '_') ∧
    ∀ d ∈ cs, IsLetter d ∨ IsDigit d ∨ d = '_'

/-- The keywords of the generated language. -/
def keywords : List String :=
  -- types
  ["bool", "byte", "char", "decimal", "double", "float", "int", "long", "object", "sbyte", "short",
    "string", "uint", "ulong", "ushort", "void", "class", "delegate", "enum", "interface",
    "struct"] ++
  -- modifiers
  ["abstract", "const", "event", "explicit", "extern", "fixed", "implicit", "in", "internal",
    "operator", "out", "override", "params", "private", "protected", "public", "readonly", "ref",
    "sealed", "static", "unsafe", "virtual", "volatile"] ++
  -- statements
  ["break", "case", "catch", "checked", "continue", "default", "do", "else", "finally", "for",
    "foreach", "goto", "if", "lock", "namespace", "return", "switch", "throw", "try", "unchecked",
    "using", "while"] ++
  -- expressions
  ["as", "base", "false", "is", "new", "null", "sizeof", "stackalloc", "this", "true", "typeof"]

/-- A name is legal when it is an ASCII identifier and no keyword, or a keyword behind an at sign.
-/
inductive LegalName : String → Prop
  /-- An identifier that is no keyword. -/
  | plain {name : String} : AsciiIdentifier name → name ∉ keywords → LegalName name
  /-- A keyword behind an at sign. -/
  | escaped {word : String} : word ∈ keywords → LegalName ("@" ++ word)

theorem isLetter_of_isAlpha {c : Char} (h : c.isAlpha) : IsLetter c := by
  unfold Char.isAlpha Char.isUpper Char.isLower at h
  simp only [Bool.or_eq_true, Bool.and_eq_true, decide_eq_true_eq] at h
  exact h.symm

theorem isDigit_of_char_isDigit {c : Char} (h : c.isDigit) : IsDigit c := by
  unfold Char.isDigit at h
  simp only [Bool.and_eq_true, decide_eq_true_eq] at h
  exact h

/-- What the native language takes as an identifier is an ASCII identifier. -/
theorem asciiIdentifier_of_isIdentifier {name : String} (h : isIdentifier name.toList) :
    AsciiIdentifier name := by
  cases hname : name.toList with
  | nil =>
    rw [hname] at h
    cases h
  | cons c cs =>
    rw [hname] at h
    unfold isIdentifier at h
    rw [Bool.and_eq_true, Bool.or_eq_true, List.all_eq_true, beq_iff_eq] at h
    refine ⟨c, cs, hname, h.1.imp_left isLetter_of_isAlpha, fun d hd => ?_⟩
    have hident := h.2 d hd
    unfold isIdentChar Char.isAlphanum at hident
    simp only [Bool.or_eq_true, beq_iff_eq, or_assoc] at hident
    exact hident.imp isLetter_of_isAlpha (Or.imp_left isDigit_of_char_isDigit)

/-- An identifier does not start with an at sign. -/
theorem not_asciiIdentifier_at (word : String) : ¬AsciiIdentifier ("@" ++ word) := by
  rintro ⟨c, cs, hname, hfirst, -⟩
  rw [String.toList_append] at hname
  obtain ⟨rfl, -⟩ := List.cons.inj hname
  revert hfirst
  unfold IsLetter
  decide

/-- An identifier is legal as it is when it is no keyword. -/
theorem legalName_iff {name : String} (h : AsciiIdentifier name) :
    LegalName name ↔ name ∉ keywords := by
  refine ⟨fun hlegal => ?_, .plain h⟩
  cases hlegal with
  | plain _ hword => exact hword
  | escaped hword => exact absurd h (not_asciiIdentifier_at _)

/-- The reserved words are the keywords. -/
theorem mem_reservedWords_iff {word : String} : word ∈ Mapper.reservedWords ↔ word ∈ keywords := by
  have hleft : ∀ word ∈ Mapper.reservedWords, word ∈ keywords := by decide +kernel
  have hright : ∀ word ∈ keywords, word ∈ Mapper.reservedWords := by decide +kernel
  exact ⟨hleft word, hright word⟩

/-- An identifier is legal once it is escaped. -/
theorem legalName_escapeIdentifier {name : String} (h : AsciiIdentifier name) :
    LegalName (Mapper.escapeIdentifier name) := by
  unfold Mapper.escapeIdentifier
  split
  · rename_i hword
    exact .escaped (mem_reservedWords_iff.1 hword)
  · rename_i hword
    exact .plain h (mt mem_reservedWords_iff.2 hword)

end Emission

/-! ## The names of signatures -/

open Emission (AsciiIdentifier LegalName keywords fileLines declares indented level declaredType)

/-- A signature of a source is the signature of a declaration that the scanner finds there. -/
theorem exists_named_of_mem_signatures {settings : Settings} {sources : List (Path × Text)}
    {s : Signature} (h : s ∈ settings.signatures sources) :
    ∃ d : Declaration, d.Named ∧ s = settings.mapper.signature d := by
  unfold Settings.signatures at h
  obtain ⟨source, -, hs⟩ := List.mem_flatMap.1 h
  unfold scanSource at hs
  split at hs
  · cases hs
  · obtain ⟨d, hd, rfl⟩ := List.mem_map.1 hs
    exact ⟨d, Scanner.named_of_mem_scan hd, rfl⟩

namespace Signature

/-- The function is named by an identifier, and the names of the parameters are legal. -/
structure Named (s : Signature) : Prop where
  /-- The name of the function. -/
  function : AsciiIdentifier s.name
  /-- The names of the parameters. -/
  params : ∀ p ∈ s.params, LegalName p.name

/-- The names of a declaration become those of its signature. -/
theorem named_signature (m : Mapper) {d : Declaration} (h : d.Named) : (m.signature d).Named where
  function := Emission.asciiIdentifier_of_isIdentifier h.function
  params := by
    intro p hp
    have hname : p.name ∈ d.params.map (Mapper.escapeIdentifier ·.name) := by
      rw [← Mapper.names_params_signature m d]
      exact List.mem_map_of_mem hp
    obtain ⟨q, hq, heq⟩ := List.mem_map.1 hname
    have hident := Emission.asciiIdentifier_of_isIdentifier (h.params q hq)
    rw [← heq]
    exact Emission.legalName_escapeIdentifier hident

/-- The signature is declared by the line, where the names of the function and of its parameters
stand behind their types. -/
def DeclaredBy (s : Signature) (line : String) : Prop :=
  line = "internal static extern " ++ s.returnType.managed ++ " " ++ s.name ++ "(" ++
    ", ".intercalate (s.params.map fun p => declaredType p.type ++ " " ++ p.name) ++ ");"

end Signature

namespace Pass

variable {settings : Settings} {sources : List (Path × Text)}

theorem coherent_process (settings : Settings) (sources : List (Path × Text)) :
    (({} : Pass).process settings sources).catalogue.Coherent := by
  rw [catalogue_process]
  exact Catalogue.coherent_empty.addUntil _

/-- The names of all entries come from declarations. -/
theorem named_of_mem_entries {e : Signature}
    (h : e ∈ (({} : Pass).process settings sources).catalogue.entries) : e.Named := by
  rw [catalogue_process] at h
  have hmem := Catalogue.mem_entries_addUntil Catalogue.coherent_empty h
  obtain ⟨d, hd, rfl⟩ := exists_named_of_mem_signatures (hmem.resolve_left List.not_mem_nil)
  exact Signature.named_signature settings.mapper hd

end Pass

namespace Emission

/-- The lines of the file that declare are those that declare an entry. -/
theorem declares_iff_exists_declaredBy {c : Catalogue} (hc : c.Coherent) (o : Options)
    (line : String) : (line ∈ fileLines o c ∧ declares line) ↔
      ∃ e ∈ c.entries, ∃ text, e.DeclaredBy text ∧ line = indented (level o) text := by
  rw [← List.mem_filter, filter_declares_fileLines, List.mem_map]
  constructor
  · rintro ⟨e, he, rfl⟩
    obtain ⟨g, hg, heg⟩ := List.mem_flatMap.1 he
    exact ⟨e, (Catalogue.same_of_mem_group hg heg).1, externLine e, rfl, rfl⟩
  · rintro ⟨e, he, text, rfl, rfl⟩
    obtain ⟨g, ⟨hg, heg⟩, -⟩ := hc.existsUnique_group he
    exact ⟨e, List.mem_flatMap.2 ⟨g, hg, heg⟩, rfl⟩

/-- Whatever the sources are, a line of the generated file that declares a function declares an
entry, with the name of its function and the names of its parameters in their places. The names of
parameters are legal. The name of a function is an ASCII identifier, and legal exactly when it is no
keyword. So all names are legal exactly when no function is named by a keyword. Only with the empty
word as a marker is there no file because the pass does not end (`scanning_ends_iff`). -/
theorem names_legal_iff (settings : Settings) (sources : List (Path × Text)) (o : Options) :
    let c := (({} : Pass).process settings sources).catalogue
    (∀ line, (line ∈ fileLines o c ∧ declares line) ↔
      ∃ e ∈ c.entries, ∃ text, e.DeclaredBy text ∧ line = indented (level o) text) ∧
    (∀ e ∈ c.entries, (∀ p ∈ e.params, LegalName p.name) ∧ AsciiIdentifier e.name ∧
      (LegalName e.name ↔ e.name ∉ keywords)) ∧
    ((∀ e ∈ c.entries, LegalName e.name ∧ ∀ p ∈ e.params, LegalName p.name) ↔
      ∀ word ∈ keywords, word ∉ c.names) := by
  intro c
  have hnamed : ∀ e ∈ c.entries, e.Named := fun e he => Pass.named_of_mem_entries he
  refine ⟨declares_iff_exists_declaredBy (Pass.coherent_process settings sources) o,
    fun e he => ?_, ?_⟩
  · have he := hnamed e he
    exact ⟨he.params, he.function, legalName_iff he.function⟩
  constructor
  · intro hlegal word hword hmem
    obtain ⟨e, he, rfl⟩ := List.mem_map.1 hmem
    exact (legalName_iff (hnamed e he).function).1 (hlegal e he).1 hword
  · intro hwords e he
    refine ⟨(legalName_iff (hnamed e he).function).2 fun hword => ?_, (hnamed e he).params⟩
    exact hwords e.name hword (List.mem_map_of_mem he)

/-- A parameter and the function itself are named by keywords. The name of the parameter gets an at
sign in the generated file, and that of the function does not. -/
theorem function_named_by_keyword :
    let settings : Settings := ⟨.ofList [], {}, ⟨.default, .cdecl⟩⟩
    let sources := [((⟨"f.h"⟩ : Path), "RH_C_FUNCTION void lock(int out);".toList)]
    let c := (({} : Pass).process settings sources).catalogue
    (fileLines {} c).filter declares = ["  internal static extern void lock(int @out);"] ∧
      (∃ e ∈ c.entries, e.DeclaredBy "internal static extern void lock(int @out);" ∧
        e.name = "lock" ∧ e.params.map (·.name) = ["@out"]) ∧
      ¬LegalName "lock" ∧ LegalName "@out" := by
  intro settings sources c
  have hentries : c.entries = [⟨"lock", .void, [⟨"@out", ⟨"int", .scalar, "int", true⟩⟩],
      ⟨⟨"f.h"⟩, 1⟩, .cdecl, none⟩] := by decide +kernel
  have hescaped : LegalName ("@" ++ "out") := .escaped (by decide)
  refine ⟨by decide +kernel, ?_, ?_, hescaped⟩
  · rw [hentries]
    exact ⟨_, .head [], by unfold Signature.DeclaredBy; decide +kernel, rfl, rfl⟩
  · rw [legalName_iff (asciiIdentifier_of_isIdentifier (by decide))]
    decide

end Emission

end NativeBindings
