import NativeBindings.Proofs.Declaration.Head
import NativeBindings.Proofs.Scanner.Reading

/-!
# Prototypes are read back

A prototype is a return type, a name and formal parameters, and `Prototype.text` writes it behind an
export marker on one line. Scanning that line gives the prototype back and nothing else
(`feed_text`).

The line has no character that ends the head before the parameters or a parenthesis inside them, so
the scanner collects both as they were written. Both are single-spaced, so their words and pieces
are those that they were put together from.
-/

namespace NativeBindings

/-- A function as a header declares it. -/
structure Prototype where
  /-- The return type. -/
  returnType : Text
  /-- The name. -/
  name : Text
  /-- The parameters, in order. -/
  formals : List Formal

namespace Prototype

/-- The text between the marker and the parameters. -/
def head (p : Prototype) : Text := ' ' :: (p.returnType ++ ' ' :: p.name)

/-- The text of the parameters, without the parentheses around them. -/
def params (p : Prototype) : Text := joined (p.formals.map Formal.text)

/-- The line that exports the function with the given marker. -/
def text (marker : String) (p : Prototype) : Text :=
  marker.toList ++ (p.head ++ '(' :: (p.params ++ [')', ';']))

/-- The declaration that is read from the line. -/
def declaration (location : Location) (doc : Option Text) (p : Prototype) : Declaration where
  location
  returnType := String.ofList p.returnType
  name := String.ofList p.name
  params := p.formals.map Formal.parameter
  convention := none
  doc := doc.map String.ofList

/-- A word that a return type may hold and a function may have as its name. -/
def IsPlain (w : Text) : Prop := String.ofList w ∉ linkageWords ∧ isConventionWord w = false

/-- What is asked of a prototype. -/
structure WellFormed (p : Prototype) : Prop where
  /-- Its return type is in its normal spelling. -/
  type : IsType p.returnType
  /-- No word of its return type is one of linkage or of calling conventions. -/
  plainType : ∀ w ∈ Text.words p.returnType, IsPlain w
  /-- Its name is an identifier. -/
  ident : isIdentifier p.name
  /-- Its name is no word of linkage or of calling conventions. -/
  plainName : IsPlain p.name
  /-- Its name is no attribute macro. -/
  notAttribute : String.ofList p.name ∉ attributeMacros
  /-- Its parameters are well-formed. -/
  formals : ∀ f ∈ p.formals, f.WellFormed

end Prototype

/-! ## Parameter lists -/

/-- Single-spaced texts are still so when they are joined. -/
theorem singleSpaced_joined {ts : List Text} (h : ∀ t ∈ ts, Text.SingleSpaced t ∧ t ≠ []) :
    Text.SingleSpaced (joined ts) ∧ (ts ≠ [] → joined ts ≠ []) := by
  induction ts with
  | nil => exact ⟨.nil, fun hne => absurd rfl hne⟩
  | cons t ts ih =>
    obtain ⟨ht, hne⟩ := h t (.head ts)
    obtain ⟨hspaced, hjoined⟩ := ih fun s hs => h s (.tail t hs)
    cases ts with
    | nil =>
      unfold joined
      rw [List.intercalate_singleton]
      exact ⟨ht, fun _ => hne⟩
    | cons s ts =>
      -- A comma goes to the text in front of it, and a space parts it from the others.
      have hcomma : Text.SingleSpaced [','] := .of_solid fun c hc => by
        rw [List.mem_singleton.1 hc]
        decide
      have happend := (ht.append hcomma).append_space hspaced (by simp) (hjoined (by simp))
      have heq : joined (t :: s :: ts) = t ++ [','] ++ ' ' :: joined (s :: ts) := by
        unfold joined
        rw [List.intercalate_cons_cons, List.append_assoc, List.append_assoc]
        rfl
      rw [heq]
      exact ⟨happend, fun _ => by simp⟩

/-- A character that stands in no text and does not join texts. -/
theorem not_mem_joined {ts : List Text} {c : Char} (h : ∀ t ∈ ts, c ∉ t) (hcomma : c ≠ ',')
    (hspace : c ≠ ' ') : c ∉ joined ts := by
  unfold joined
  induction ts with
  | nil => exact List.not_mem_nil
  | cons t ts ih =>
    have htail := ih fun s hs => h s (.tail t hs)
    cases ts with
    | nil =>
      rw [List.intercalate_singleton]
      exact h t (.head [])
    | cons s ts =>
      rw [List.intercalate_cons_cons]
      simp only [List.mem_append, List.mem_cons, not_or]
      exact ⟨⟨h t (.head _), hcomma, hspace, List.not_mem_nil⟩, htail⟩

/-- A formal parameter is read from its piece of the list, with a blank in front or not. -/
theorem readParameter_text {f : Formal} (h : f.WellFormed) (function : String) {piece : Text}
    (hpiece : piece.trim = f.text) : readParameter function piece = .ok f.parameter := by
  have hdots : f.text ≠ ['.', '.', '.'] := by
    intro heq
    have hdot : '.' ∉ f.text := h.not_mem (by decide) (by decide) (by decide)
    rw [heq] at hdot
    exact hdot (.head _)
  unfold readParameter
  rw [hpiece, if_neg hdots, h.parse?_text]

/-- The formal parameters behind the first one are read from their pieces. -/
theorem mapM_readParameter {formals : List Formal} (h : ∀ f ∈ formals, f.WellFormed)
    (function : String) :
    ((formals.map Formal.text).map (' ' :: ·)).mapM (readParameter function) =
      .ok (formals.map Formal.parameter) := by
  induction formals with
  | nil => rfl
  | cons f fs ih =>
    have hf := h f (.head fs)
    -- The space that stands behind a comma is trimmed.
    have htrim : Text.trim (' ' :: f.text) = f.text := by
      rw [Text.trim_cons_blank (by decide), hf.singleSpaced.trim_eq]
    rw [List.map_cons, List.map_cons, List.mapM_cons, readParameter_text hf function htrim,
      ih fun g hg => h g (.tail f hg)]
    rfl

/-- A list that starts with a formal parameter has a space. -/
theorem space_mem_joined (f : Formal) (ts : List Text) : ' ' ∈ joined (f.text :: ts) := by
  have hmem : ' ' ∈ f.text := by
    unfold Formal.text
    simp
  unfold joined
  cases ts with
  | nil =>
    rw [List.intercalate_singleton]
    exact hmem
  | cons t ts =>
    rw [List.intercalate_cons_cons, List.append_assoc]
    exact List.mem_append_left _ hmem

/-- A list of formal parameters is read back. -/
theorem readParameters_joined {formals : List Formal} (h : ∀ f ∈ formals, f.WellFormed)
    (function : String) :
    readParameters function (joined (formals.map Formal.text)) =
      .ok (formals.map Formal.parameter) := by
  have hspaced : Text.SingleSpaced (joined (formals.map Formal.text)) := by
    refine (singleSpaced_joined fun t ht => ?_).1
    obtain ⟨f, hf, rfl⟩ := List.mem_map.1 ht
    exact ⟨(h f hf).singleSpaced, by unfold Formal.text; simp⟩
  unfold readParameters
  rw [hspaced.collapse_eq]
  cases formals with
  | nil => rfl
  | cons f fs =>
    have hf := h f (.head fs)
    rw [List.map_cons]
    have hspace := space_mem_joined f (fs.map Formal.text)
    have hne : joined (f.text :: fs.map Formal.text) ≠ [] := List.ne_nil_of_mem hspace
    -- The list is not read as `void`, for it holds a space.
    have hvoid : joined (f.text :: fs.map Formal.text) ≠ "void".toList := by
      intro heq
      rw [heq] at hspace
      revert hspace
      decide
    -- The list is divided at the commas between formal parameters, and at no others.
    have hlevel : ∀ t ∈ f.text :: fs.map Formal.text, Level 0 t := by
      intro t ht
      rw [← List.map_cons] at ht
      obtain ⟨g, hg, rfl⟩ := List.mem_map.1 ht
      exact (h g hg).level
    have hwords : ¬ ((joined (f.text :: fs.map Formal.text)).isEmpty ||
        decide (joined (f.text :: fs.map Formal.text) = "void".toList)) = true := by
      rw [Bool.or_eq_true, List.isEmpty_iff, decide_eq_true_eq]
      exact not_or.2 ⟨hne, hvoid⟩
    rw [if_neg hwords, splitTopLevel_joined hlevel, List.mapM_cons,
      readParameter_text hf function hf.singleSpaced.trim_eq,
      mapM_readParameter (fun g hg => h g (.tail f hg)) function]
    rfl

/-! ## Declarations -/

namespace Prototype

variable {p : Prototype}

/-- The words of the head are those of the return type, and the name. -/
theorem WellFormed.words_head (h : p.WellFormed) :
    Text.words p.head = Text.words p.returnType ++ [p.name] := by
  obtain ⟨hne, hname⟩ := allIdent_of_isIdentifier h.ident
  unfold head
  rw [Text.words_cons_blank (by decide), Text.words_append_blank (by decide),
    Text.words_of_solid hne hname.solid]

/-- A character of a head. -/
theorem WellFormed.not_mem_head (h : p.WellFormed) {c : Char} (hident : isIdentChar c = false)
    (hmark : TypeText.isMark c = false) (hc : c ∉ [' ', ':', ',', '<', '>']) : c ∉ p.head := by
  unfold head
  simp only [List.mem_cons, List.mem_append, not_or]
  have hspace : c ≠ ' ' := fun heq => hc (heq ▸ .head _)
  obtain ⟨-, hname⟩ := allIdent_of_isIdentifier h.ident
  exact ⟨hspace, h.type.not_mem hident hmark hc, hspace, hname.not_mem hident⟩

/-- A character that neither types nor names nor dimensions have. -/
theorem WellFormed.not_mem_params (h : p.WellFormed) {c : Char} (hident : isIdentChar c = false)
    (hmark : TypeText.isMark c = false) (hc : c ∉ [' ', ':', ',', '<', '>', '[', ']']) :
    c ∉ p.params := by
  refine not_mem_joined (fun t ht => ?_) (fun heq => hc (by simp [heq]))
    (fun heq => hc (by simp [heq]))
  obtain ⟨f, hf, rfl⟩ := List.mem_map.1 ht
  exact (h.formals f hf).not_mem hident hmark hc

/-- The head of a prototype has no character that ends heads. -/
theorem WellFormed.endsHead_eq_false (h : p.WellFormed) {c : Char} (hc : c ∈ p.head) :
    Scanner.endsHead c = false := by
  by_contra hends
  have hmem : c ∈ ['(', ';', '{', '}', '='] := Scanner.mem_of_endsHead (by simpa using hends)
  simp only [List.mem_cons, List.not_mem_nil, or_false] at hmem
  rcases hmem with rfl | rfl | rfl | rfl | rfl <;>
    exact h.not_mem_head (by decide) (by decide) (by decide) hc

/-- Neither parenthesis stands in the parameters. -/
theorem WellFormed.params_plain (h : p.WellFormed) {c : Char} (hc : c ∈ p.params) :
    c ≠ '(' ∧ c ≠ ')' := by
  constructor
  · exact ne_of_mem_of_not_mem hc (h.not_mem_params (by decide) (by decide) (by decide))
  · exact ne_of_mem_of_not_mem hc (h.not_mem_params (by decide) (by decide) (by decide))

/-- No word of the head is one of linkage or of calling conventions. -/
theorem WellFormed.isPlain (h : p.WellFormed) {w : Text}
    (hw : w ∈ Text.words p.returnType ++ [p.name]) : IsPlain w := by
  rcases List.mem_append.1 hw with hw | hw
  · exact h.plainType w hw
  · rw [List.mem_singleton.1 hw]
    exact h.plainName

/-- No word of the head is left out because of linkage. -/
theorem WellFormed.filter_linkage (h : p.WellFormed) :
    (Text.words p.head).filter (String.ofList · ∉ linkageWords) =
      Text.words p.returnType ++ [p.name] := by
  rw [h.words_head, List.filter_eq_self]
  exact fun w hw => decide_eq_true (h.isPlain hw).1

/-- No word of the head is left out because it asks for a calling convention. -/
theorem WellFormed.filter_others (h : p.WellFormed) :
    (Text.words p.returnType ++ [p.name]).filter (!isConventionWord ·) =
      Text.words p.returnType ++ [p.name] := by
  rw [List.filter_eq_self]
  intro w hw
  rw [(h.isPlain hw).2]
  rfl

/-- The declaration is read back from the head and the parameters. -/
theorem WellFormed.read (h : p.WellFormed) (location : Location) (doc : Option Text) :
    Declaration.read location p.head p.params doc = .ok (p.declaration location doc) := by
  obtain ⟨hne, hname⟩ := allIdent_of_isIdentifier h.ident
  have hstrip : stripAttributes p.head = p.head :=
    stripAttributes_eq (h.not_mem_head (by decide) (by decide) (by decide))
  have hconvention : (Text.words p.returnType ++ [p.name]).filter isConventionWord = [] := by
    rw [List.filter_eq_nil_iff]
    intro w hw
    rw [(h.isPlain hw).2]
    simp
  -- Joined again, the words are the return type and the name, one space apart.
  have hunwords : Text.unwords (Text.words p.returnType ++ [p.name]) =
      p.returnType ++ ' ' :: p.name := by
    rw [Text.unwords_concat (h.type.singleSpaced.words_ne_nil h.type.ne_nil)]
    exact congrArg (· ++ ' ' :: p.name) h.type.singleSpaced.collapse_eq
  have hempty : p.returnType.isEmpty = false := by simpa using h.type.ne_nil
  unfold Declaration.read
  simp only [hstrip, h.filter_linkage, h.filter_others, hconvention, hunwords,
    trailingWord_append hne hname, take_length_sub, h.type.tidy_append_space, h.ident, hempty]
  show (readParameters (String.ofList p.name) p.params).bind _ = _
  unfold params
  rw [readParameters_joined h.formals]
  rfl

/-- Scanning the line of a prototype gives the prototype back, and nothing else. -/
theorem feed_text {policy : ScanPolicy} {marker : String}
    (hall : ∀ m ∈ policy.markers, isIdentifier m.toList) (hmarker : marker ∈ policy.markers)
    (h : p.WellFormed) (file : Path) (line : Nat) (comment : Option Text) :
    Scanner.feed policy file .outside ⟨line, p.text marker, comment⟩ =
      (.outside, [.declared (p.declaration ⟨file, line⟩ comment)]) := by
  -- The word in front of the parenthesis is the name, which is no attribute macro.
  have hname : trailingWord p.head = p.name := by
    obtain ⟨hne, hident⟩ := allIdent_of_isIdentifier h.ident
    exact trailingWord_append hne hident (' ' :: p.returnType)
  have hends : EndsIdent (p.head ++ ['(']) := by
    intro c hc
    obtain rfl : ' ' = c := Option.some.inj hc
    decide
  have hread : Scanner.finish file ⟨line, String.ofList p.head, String.ofList p.params⟩ comment =
      .declared (p.declaration ⟨file, line⟩ comment) := by
    unfold Scanner.finish
    rw [String.toList_ofList, String.toList_ofList, h.read]
  unfold text
  rw [Scanner.feed_declaration hmarker hall (fun c hc => h.endsHead_eq_false hc) hends
    (by rw [hname]; exact h.notAttribute) (fun c hc => h.params_plain hc), hread]

/-- A function with an argument list inside another in its return type, two array dimensions and a
comma inside a parameter type, behind the second of two markers. -/
theorem feed_text_lookup :
    Scanner.feed { markers := ["API", "EXPORT"] } ⟨"map.h"⟩ .outside
        ⟨7, ("EXPORT const ns::Map<int, List<char*>>* lookup(" ++
          "unsigned char key[4][N], Pair<int, T&>& out);").toList, some "Finds a key.".toList⟩ =
      (.outside, [.declared {
        location := ⟨⟨"map.h"⟩, 7⟩
        returnType := "const ns::Map<int, List<char*>>*"
        name := "lookup"
        params := [⟨"unsigned char[4][N]", "key"⟩, ⟨"Pair<int, T&>&", "out"⟩]
        convention := none
        doc := some "Finds a key." }]) := by
  -- The return type: the inner argument list, the outer one, and the name around it.
  have hchar : Spelled true "char*".toList := by
    show Spelled true ['c', 'h', 'a', 'r', '*']
    iterate 4 refine .ident (by decide) ?_
    exact .mark (by decide) (.nil true)
  have harguments : Spelled true "int, List<char*>".toList := by
    show Spelled true ('i' :: 'n' :: 't' :: ',' :: ' ' :: 'L' :: 'i' :: 's' :: 't' :: '<' ::
      ("char*".toList ++ ['>']))
    iterate 3 refine .ident (by decide) ?_
    refine .comma (.space ?_)
    iterate 4 refine .ident (by decide) ?_
    exact .list hchar (.nil true)
  have hmap : IsType "const ns::Map<int, List<char*>>*".toList := by
    refine ⟨⟨'c', rfl, by decide⟩, by decide +kernel, ?_⟩
    show Spelled false ('c' :: 'o' :: 'n' :: 's' :: 't' :: ' ' :: 'n' :: 's' :: ':' :: ':' :: 'M' ::
      'a' :: 'p' :: '<' :: ("int, List<char*>".toList ++ ['>', '*']))
    iterate 5 refine .ident (by decide) ?_
    refine .space ?_
    iterate 2 refine .ident (by decide) ?_
    refine .scope ?_
    iterate 3 refine .ident (by decide) ?_
    exact .list harguments (.mark (by decide) (.nil false))
  -- The types of the two parameters.
  have hkey : IsType "unsigned char".toList := by
    refine ⟨⟨'u', rfl, by decide⟩, by decide +kernel, ?_⟩
    show Spelled false ['u', 'n', 's', 'i', 'g', 'n', 'e', 'd', ' ', 'c', 'h', 'a', 'r']
    iterate 8 refine .ident (by decide) ?_
    refine .space ?_
    iterate 4 refine .ident (by decide) ?_
    exact .nil false
  have hpair : Spelled true "int, T&".toList := by
    show Spelled true ['i', 'n', 't', ',', ' ', 'T', '&']
    iterate 3 refine .ident (by decide) ?_
    exact .comma (.space (.ident (by decide) (.mark (by decide) (.nil true))))
  have hout : IsType "Pair<int, T&>&".toList := by
    refine ⟨⟨'P', rfl, by decide⟩, by decide +kernel, ?_⟩
    show Spelled false ('P' :: 'a' :: 'i' :: 'r' :: '<' :: ("int, T&".toList ++ ['>', '&']))
    iterate 4 refine .ident (by decide) ?_
    exact .list hpair (.mark (by decide) (.nil false))
  let p : Prototype := ⟨"const ns::Map<int, List<char*>>*".toList, "lookup".toList,
    [⟨"unsigned char".toList, "key".toList, ["4".toList, "N".toList]⟩,
      ⟨"Pair<int, T&>&".toList, "out".toList, []⟩]⟩
  -- The prototype is well-formed: its return type, its name and its parameters are.
  have h : p.WellFormed := by
    refine ⟨hmap, ?_, by decide, ?_, by decide, ?_⟩
    · unfold IsPlain
      decide +kernel
    · unfold IsPlain
      decide
    · intro f hf
      rcases List.mem_cons.1 hf with rfl | hf
      · have hfour : AllIdent "4".toList := List.all_eq_true.1 (by decide)
        have hn : AllIdent "N".toList := List.all_eq_true.1 (by decide)
        have hliterals := List.forall_mem_cons.2 ⟨hfour, List.forall_mem_singleton.2 hn⟩
        exact ⟨hkey, by decide, by decide, hliterals⟩
      · obtain rfl := List.mem_singleton.1 hf
        exact ⟨hout, by decide, by decide, by simp⟩
  have hall : ∀ m ∈ ({ markers := ["API", "EXPORT"] } : ScanPolicy).markers,
      isIdentifier m.toList := by decide
  have hmarker : "EXPORT" ∈ ({ markers := ["API", "EXPORT"] } : ScanPolicy).markers := by decide
  have hfeed := feed_text hall hmarker h ⟨"map.h"⟩ 7 (some "Finds a key.".toList)
  -- Its text is the line, and its declaration the one that is reported.
  have htext : p.text "EXPORT" = ("EXPORT const ns::Map<int, List<char*>>* lookup(" ++
      "unsigned char key[4][N], Pair<int, T&>& out);").toList := by decide +kernel
  have hdeclaration : p.declaration ⟨⟨"map.h"⟩, 7⟩ (some "Finds a key.".toList) = {
      location := ⟨⟨"map.h"⟩, 7⟩
      returnType := "const ns::Map<int, List<char*>>*"
      name := "lookup"
      params := [⟨"unsigned char[4][N]", "key"⟩, ⟨"Pair<int, T&>&", "out"⟩]
      convention := none
      doc := some "Finds a key." } := by decide +kernel
  rw [htext, hdeclaration] at hfeed
  exact hfeed

end Prototype

end NativeBindings
