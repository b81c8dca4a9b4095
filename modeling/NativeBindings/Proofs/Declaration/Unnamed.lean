import NativeBindings.Proofs.Declaration.DefaultValue
import NativeBindings.Proofs.Declaration.Head
import NativeBindings.Proofs.Declaration.Token
import NativeBindings.Scanner

/-!
# Parameters without a name

Of a parameter without a name the last word is looked at, array dimensions left out
(`parse?_spaced`). The parameter is refused when this is no identifier or a word of types, or when
nothing stands in front of it; any other identifier is taken for the name (`parse?_unnamed`). So a
type is refused with all spacings and dimensions or with none (`UnnamedType.name?`), and a list with
one that is refused declares no function (`finish_of_parse?_eq_none`).
-/

namespace NativeBindings

open TypeText

/-! ## Array dimensions in any spacing -/

/-- An array dimension: what stands between its brackets, and the blanks behind it. -/
structure Dimension where
  /-- The text between the brackets. -/
  inside : Text
  /-- The blanks behind the closing bracket. -/
  gap : Text := []
  deriving DecidableEq, Repr

namespace Dimension

/-- The text of a dimension. -/
def text (d : Dimension) : Text := '[' :: (d.inside ++ ']' :: d.gap)

/-- What is asked of a dimension. -/
structure WellFormed (d : Dimension) : Prop where
  /-- No bracket, and no equals sign, stands inside. -/
  inside : ∀ c ∈ d.inside, c ≠ '[' ∧ c ≠ ']' ∧ c ≠ '='
  /-- Blanks stand behind it. -/
  gap : ∀ c ∈ d.gap, isBlank c

instance (d : Dimension) : Decidable d.WellFormed :=
  have : Decidable (∀ c ∈ d.inside, c ≠ '[' ∧ c ≠ ']' ∧ c ≠ '=') := List.decidableBAll _ d.inside
  have : Decidable (∀ c ∈ d.gap, isBlank c) := List.decidableBAll _ d.gap
  decidable_of_iff ((∀ c ∈ d.inside, c ≠ '[' ∧ c ≠ ']' ∧ c ≠ '=') ∧ ∀ c ∈ d.gap, isBlank c)
    ⟨fun ⟨hinside, hgap⟩ => ⟨hinside, hgap⟩, fun h => ⟨h.inside, h.gap⟩⟩

end Dimension

variable {body : Text} {dims : List Dimension}

/-- The brackets of a dimension stay behind a text, and nothing but blanks changes between them. -/
theorem exists_collapse_dimension {d : Dimension} (hd : d.WellFormed) (v : Text) :
    ∃ gap inside, Text.collapse (v ++ d.text) = (v.collapse ++ gap) ++ '[' :: inside ++ [']'] ∧
      (gap = [] ∨ gap = [' ']) ∧ '[' ∉ inside := by
  obtain ⟨gap, hopen, hgap⟩ := Text.exists_collapse_concat v (x := '[') (by decide)
  obtain ⟨inside, hcollapse, hchars⟩ := Text.exists_collapse_append (v ++ ['[']) d.inside
  obtain ⟨gap', hclose, hgap'⟩ := Text.exists_collapse_concat (v ++ ['['] ++ d.inside) (x := ']')
    (by decide)
  have hblanks : Text.collapse ((v ++ ['['] ++ d.inside ++ [']']) ++ d.gap) =
      Text.collapse (v ++ ['['] ++ d.inside ++ [']']) := by
    unfold Text.collapse
    rw [Text.words_append_blanks hd.gap]
  have htext : v ++ d.text = (v ++ ['['] ++ d.inside ++ [']']) ++ d.gap := by
    simp [Dimension.text]
  refine ⟨gap, inside ++ gap', ?_, hgap.imp And.left And.left, ?_⟩
  · rw [htext, hblanks, hclose, hcollapse, hopen]
    simp
  · -- No bracket comes from inside the dimension, nor from the blanks.
    have hkept : '[' ∉ inside := by
      intro hmem
      have hfiltered : '[' ∈ inside.filter (!isBlank ·) := List.mem_filter.2 ⟨hmem, by decide⟩
      rw [hchars] at hfiltered
      exact (hd.inside '[' (List.mem_filter.1 hfiltered).1).1 rfl
    rw [List.mem_append, not_or]
    refine ⟨hkept, ?_⟩
    rcases hgap' with ⟨rfl, -⟩ | ⟨rfl, -⟩ <;> decide

/-- A dimension is cut off behind a text. -/
theorem splitDimensions?_dimension {d : Dimension} (hd : d.WellFormed) {v t dimensions : Text}
    (h : splitDimensions? v.collapse = some (t, dimensions)) :
    ∃ more, splitDimensions? (Text.collapse (v ++ d.text)) = some (t, more) := by
  obtain ⟨gap, inside, hwhole, hgap, hnot⟩ := exists_collapse_dimension hd v
  have htrim := Text.trimRight_eq (Text.singleSpaced_collapse (v ++ d.text)).last
  have hlast : (Text.trimRight (Text.collapse (v ++ d.text))).getLast? = some ']' := by
    rw [htrim, hwhole, List.getLast?_concat]
  have hsplit : Text.splitLast? ['['] (Text.trimRight (Text.collapse (v ++ d.text))).dropLast =
      some (v.collapse ++ gap, inside) := by
    rw [htrim, hwhole, List.dropLast_concat, Text.splitLast?_singleton _ _ hnot]
  have hfront : Text.trimRight (v.collapse ++ gap) = v.collapse := by
    have hblank : Text.trimRight gap = [] := by
      rcases hgap with rfl | rfl <;> rfl
    rw [Text.trimRight_append_of_eq_nil hblank,
      Text.trimRight_eq (Text.singleSpaced_collapse v).last]
  rw [splitDimensions?_some hlast hsplit, ← splitDimensions?_trimRight, hfront, h]
  exact ⟨_, rfl⟩

/-- Dimensions are cut off behind a text, whatever the spacing. -/
theorem splitDimensions?_spaced (hbody : body.collapse.getLast? ≠ some ']')
    (hdims : ∀ d ∈ dims, d.WellFormed) :
    ∃ dimensions, splitDimensions? (Text.collapse (body ++ dims.flatMap Dimension.text)) =
      some (body.collapse, dimensions) := by
  -- Dimensions are cut off from the end, so the induction takes the last one first.
  induction dims using List.reverseRecOn with
  | nil =>
    have htrim := Text.trimRight_eq (Text.singleSpaced_collapse body).last
    rw [List.flatMap_nil, List.append_nil]
    exact ⟨[], by rw [splitDimensions?_none (by rwa [htrim]), htrim]⟩
  | append_singleton ds d ih =>
    obtain ⟨hds, hd⟩ := List.forall_mem_append.1 hdims
    obtain ⟨dimensions, hbefore⟩ := ih hds
    rw [List.flatMap_append, List.flatMap_singleton, ← List.append_assoc]
    exact splitDimensions?_dimension (hd d (List.mem_singleton_self d)) hbefore

/-- A parameter without comments, brackets and a default value is read from the last word of its
text, whatever dimensions stand behind. -/
theorem parse?_spaced (hslash : '/' ∉ body) (hequals : '=' ∉ body) (hbracket : ']' ∉ body)
    (hdims : ∀ d ∈ dims, d.WellFormed) {type name : Text} (hbody : body.collapse = type ++ name)
    (hname : trailingWord body.collapse = name) :
    ∃ dimensions, Parameter.parse? (body ++ dims.flatMap Dimension.text) =
      if !isIdentifier name || String.ofList name ∈ typeWords then none
      else if type.all isBlank then none
      else some ⟨String.ofList (tidy (type.trim ++ dimensions)), String.ofList name⟩ := by
  have hlast : body.collapse.getLast? ≠ some ']' := fun hsome =>
    hbracket ((Text.mem_collapse (by decide)).1 (List.mem_of_getLast? hsome))
  -- No default value is cut off, and no comment stands in the type.
  have hall : '=' ∉ Text.collapse (body ++ dims.flatMap Dimension.text) := by
    rw [Text.mem_collapse (by decide), List.mem_append, not_or, List.mem_flatMap]
    refine ⟨hequals, ?_⟩
    rintro ⟨d, hd, hmem⟩
    obtain ⟨hinside, hgap⟩ := hdims d hd
    unfold Dimension.text at hmem
    simp only [List.mem_cons, List.mem_append] at hmem
    rcases hmem with hmem | hmem | hmem | hmem
    · cases hmem
    · exact (hinside '=' hmem).2.2 rfl
    · cases hmem
    · exact absurd (hgap '=' hmem) (by decide)
  have htype : '/' ∉ type.trim := by
    intro hmem
    have hcollapse : '/' ∈ body.collapse := by
      rw [hbody]
      exact List.mem_append_left name ((Text.trim_sublist type).subset hmem)
    exact hslash ((Text.mem_collapse (by decide)).1 hcollapse)
  obtain ⟨dimensions, hsplit⟩ := splitDimensions?_spaced hlast hdims
  rw [← withoutDefault_eq hall, hbody] at hsplit
  rw [hbody] at hname
  have hblank : type.trim.trim.isEmpty = type.all isBlank := by
    rw [Bool.eq_iff_iff, List.isEmpty_iff, Text.trim_eq_nil_iff, ← Text.words_eq_nil_iff,
      Text.words_trim, Text.words_eq_nil_iff, List.all_eq_true]
  refine ⟨dimensions, ?_⟩
  rw [Parameter.parse?_of_split hsplit hname, behindComments_eq htype, hblank]

/-! ## Types without a name -/

/-- The qualifiers of pointers that are no words of types. -/
def restrictWords : List String := ["restrict", "__restrict", "__restrict__"]

/-- A type without a name, by its tokens. -/
structure UnnamedType where
  /-- Words of types in front of the base. -/
  front : List Text := []
  /-- The scopes in front of the base. -/
  scope : Text := []
  /-- The base. -/
  base : Text
  /-- Words of types behind the base. -/
  behind : List Text := []
  /-- The marks behind all this, with the qualifiers of pointers. -/
  declarator : List Text := []
  deriving DecidableEq, Repr

namespace UnnamedType

/-- The tokens of a type. -/
def tokens (p : UnnamedType) : List Text :=
  p.front ++ (p.scope ++ p.base) :: (p.behind ++ p.declarator)

/-- The token that is taken for a name. -/
def name? (p : UnnamedType) : Option Text :=
  match p.declarator.getLast? with
  | some w => if String.ofList w ∈ restrictWords then some w else none
  | none =>
    if p.behind = [] ∧ String.ofList p.base ∉ typeWords ∧ (p.front ≠ [] ∨ p.scope ≠ []) then
      some p.base
    else none

/-- What is asked of a type. -/
structure WellFormed (p : UnnamedType) : Prop where
  /-- Words of types stand in front. -/
  front : ∀ w ∈ p.front, String.ofList w ∈ typeWords
  /-- The scopes hold identifiers and colons. -/
  scope : ∀ c ∈ p.scope, isIdentChar c ∨ c = ':'
  /-- The scopes end with a colon. -/
  scopeEnd : ∀ c ∈ p.scope.getLast?, c = ':'
  /-- The base is an identifier. -/
  base : isIdentifier p.base
  /-- Words of types stand behind. -/
  behind : ∀ w ∈ p.behind, String.ofList w ∈ typeWords
  /-- Behind all this stand marks and qualifiers. -/
  declarator : ∀ w ∈ p.declarator,
    w = ['*'] ∨ w = ['&'] ∨ String.ofList w ∈ ["const", "volatile"] ++ restrictWords

instance (p : UnnamedType) : Decidable p.WellFormed :=
  have : Decidable (∀ c ∈ p.scope, isIdentChar c ∨ c = ':') := List.decidableBAll _ p.scope
  have : Decidable (∀ c ∈ p.scope.getLast?, c = ':') := Option.decidableForallMem p.scope.getLast?
  decidable_of_iff ((∀ w ∈ p.front, String.ofList w ∈ typeWords) ∧
      (∀ c ∈ p.scope, isIdentChar c ∨ c = ':') ∧ (∀ c ∈ p.scope.getLast?, c = ':') ∧
      isIdentifier p.base ∧ (∀ w ∈ p.behind, String.ofList w ∈ typeWords) ∧
      ∀ w ∈ p.declarator,
        w = ['*'] ∨ w = ['&'] ∨ String.ofList w ∈ ["const", "volatile"] ++ restrictWords)
    ⟨fun ⟨hfront, hscope, hend, hbase, hbehind, hdeclarator⟩ =>
      ⟨hfront, hscope, hend, hbase, hbehind, hdeclarator⟩,
      fun h => ⟨h.front, h.scope, h.scopeEnd, h.base, h.behind, h.declarator⟩⟩

/-- The words of types and the qualifiers of pointers are identifiers. -/
theorem isIdentifier_of_mem {w : Text} (hw : String.ofList w ∈ typeWords ++ restrictWords) :
    isIdentifier w := by
  have hall : ∀ s ∈ typeWords ++ restrictWords, isIdentifier s.toList := by decide
  simpa using hall _ hw

theorem not_mem_typeWords {w : Text} (hw : String.ofList w ∈ restrictWords) :
    String.ofList w ∉ typeWords := by
  have hall : ∀ s ∈ restrictWords, s ∉ typeWords := by decide
  exact hall _ hw

variable {p : UnnamedType}

/-- The characters of the tokens. -/
theorem WellFormed.mem_tokens (h : p.WellFormed) {w : Text} (hw : w ∈ p.tokens) {c : Char}
    (hc : c ∈ w) : isIdentChar c ∨ c = ':' ∨ isMark c := by
  have hident : isIdentifier w → isIdentChar c ∨ c = ':' ∨ isMark c := fun hw =>
    .inl ((allIdent_of_isIdentifier hw).2 c hc)
  have htype : String.ofList w ∈ typeWords → isIdentChar c ∨ c = ':' ∨ isMark c := fun hw =>
    hident (isIdentifier_of_mem (List.mem_append_left _ hw))
  unfold tokens at hw
  -- A word in front of the base, the base with its scope, a word behind it, or a mark or a
  -- qualifier of the declarator.
  rcases List.mem_append.1 hw with hw | hw
  · exact htype (h.front w hw)
  rcases List.mem_cons.1 hw with rfl | hw
  · rcases List.mem_append.1 hc with hc | hc
    · exact (h.scope c hc).imp_right .inl
    · exact .inl ((allIdent_of_isIdentifier h.base).2 c hc)
  rcases List.mem_append.1 hw with hw | hw
  · exact htype (h.behind w hw)
  rcases h.declarator w hw with rfl | rfl | hw
  · rw [List.mem_singleton.1 hc]
    exact .inr (.inr (by decide))
  · rw [List.mem_singleton.1 hc]
    exact .inr (.inr (by decide))
  · have hqualifiers : ∀ s ∈ ["const", "volatile"] ++ restrictWords,
        s ∈ typeWords ++ restrictWords := by decide
    exact hident (isIdentifier_of_mem (hqualifiers _ hw))

/-- Behind some tokens a type ends with a token, whose last word is a name when it can be one. -/
structure EndsWith (p : UnnamedType) (ts : List Text) (rest name : Text) : Prop where
  tokens_eq : p.tokens = ts ++ [rest ++ name]
  trailingWord_eq : trailingWord (rest ++ name) = name
  name?_eq : p.name? = if !isIdentifier name || String.ofList name ∈ typeWords then none
    else if ts = [] ∧ rest = [] then none else some name

theorem trailingWord_of_isIdentifier {w : Text} (hw : isIdentifier w) :
    trailingWord ([] ++ w) = w :=
  (allIdent_of_isIdentifier hw).2.trailingWord_eq

/-- With nothing behind it the base is the last token, with the scopes in front. -/
theorem WellFormed.endsWith_base (h : p.WellFormed) (hbehind : p.behind = [])
    (hdeclarator : p.declarator = []) : p.EndsWith p.front p.scope p.base where
  tokens_eq := by
    unfold tokens
    rw [hbehind, hdeclarator, List.append_nil]
  trailingWord_eq := by
    obtain ⟨hne, hbase⟩ := allIdent_of_isIdentifier h.base
    have hstarts : StartsWord p.scope := fun c hc => by
      rw [h.scopeEnd c hc]
      decide
    have htrim : Text.trimRight p.base ≠ [] := by
      rwa [Text.trimRight_eq hbase.solid.trimmed.last]
    rw [hstarts.trailingWord_append htrim, hbase.trailingWord_eq]
  name?_eq := by
    have hbase := h.base
    unfold name?
    rw [hbehind, hdeclarator]
    simp only [List.getLast?_nil, hbase, Bool.not_true, Bool.false_or, decide_eq_true_eq,
      true_and]
    split_ifs <;> simp_all

/-- Without marks the last word of a type behind the base is the last token. -/
theorem WellFormed.endsWith_behind (h : p.WellFormed) {ws : List Text} {w : Text}
    (hbehind : p.behind = ws ++ [w]) (hdeclarator : p.declarator = []) :
    p.EndsWith (p.front ++ (p.scope ++ p.base) :: ws) [] w := by
  have hw : String.ofList w ∈ typeWords := h.behind w (by simp [hbehind])
  refine ⟨?_, trailingWord_of_isIdentifier (isIdentifier_of_mem (List.mem_append_left _ hw)), ?_⟩
  · unfold tokens
    rw [hbehind, hdeclarator]
    simp
  · unfold name?
    rw [hbehind, hdeclarator]
    simp [hw]

/-- A mark or a qualifier behind the base is the last token. -/
theorem WellFormed.endsWith_declarator (h : p.WellFormed) {ws : List Text} {w : Text}
    (hdeclarator : p.declarator = ws ++ [w]) :
    ∃ rest name, p.EndsWith (p.front ++ (p.scope ++ p.base) :: (p.behind ++ ws)) rest name := by
  have htokens : p.tokens = (p.front ++ (p.scope ++ p.base) :: (p.behind ++ ws)) ++ [w] := by
    unfold tokens
    rw [hdeclarator]
    simp
  have hname : p.name? = if String.ofList w ∈ restrictWords then some w else none := by
    unfold name?
    rw [hdeclarator, List.getLast?_concat]
  rcases h.declarator w (by simp [hdeclarator]) with rfl | rfl | hw
  · refine ⟨['*'], [], htokens, by decide, ?_⟩
    rw [hname, if_neg (by decide)]
    rfl
  · refine ⟨['&'], [], htokens, by decide, ?_⟩
    rw [hname, if_neg (by decide)]
    rfl
  · rcases List.mem_append.1 hw with hw | hw
    · -- `const` and `volatile` are no names, but `restrict` and its like are.
      have htypes : ∀ s ∈ ["const", "volatile"], s ∈ typeWords ∧ s ∉ restrictWords := by decide
      obtain ⟨htype, hnot⟩ := htypes _ hw
      have hident := isIdentifier_of_mem (List.mem_append_left _ htype)
      refine ⟨[], w, htokens, trailingWord_of_isIdentifier hident, ?_⟩
      rw [hname, if_neg hnot, if_pos (by simp [htype])]
    · have hident := isIdentifier_of_mem (List.mem_append_right _ hw)
      refine ⟨[], w, htokens, trailingWord_of_isIdentifier hident, ?_⟩
      rw [hname, if_pos hw, if_neg (by simp [hident, not_mem_typeWords hw]),
        if_neg fun hnil => by simp at hnil]

theorem WellFormed.exists_endsWith (h : p.WellFormed) :
    ∃ ts rest name, p.EndsWith ts rest name := by
  rcases List.eq_nil_or_concat' p.declarator with hdeclarator | ⟨ws, w, hdeclarator⟩
  · rcases List.eq_nil_or_concat' p.behind with hbehind | ⟨ws, w, hbehind⟩
    · exact ⟨_, _, _, h.endsWith_base hbehind hdeclarator⟩
    · exact ⟨_, _, _, h.endsWith_behind hbehind hdeclarator⟩
  · exact ⟨_, h.endsWith_declarator hdeclarator⟩

end UnnamedType

theorem UnnamedType.WellFormed.words_ne_nil {p : UnnamedType} (hp : p.WellFormed)
    (hbody : TypeText.tokens body = p.tokens) : body.words ≠ [] := by
  intro hnil
  obtain ⟨ts, rest, name, htokens, -⟩ := hp.exists_endsWith
  rw [tokens_eq_flatMap_words, hnil, htokens] at hbody
  simp at hbody

/-- From a type without a name a parameter is read when one of its tokens is taken for a name,
whatever its spacing and its dimensions. -/
theorem UnnamedType.WellFormed.parse?_eq {p : UnnamedType} (hp : p.WellFormed)
    (hbody : TypeText.tokens body = p.tokens) (hdims : ∀ d ∈ dims, d.WellFormed) :
    ∃ type, Parameter.parse? (body ++ dims.flatMap Dimension.text) =
      p.name?.map fun w => ⟨type, String.ofList w⟩ := by
  have hchars : ∀ {c : Char}, isBlank c = false → c ∈ body →
      isIdentChar c ∨ c = ':' ∨ isMark c := by
    intro c hblank hc
    obtain ⟨w, hw, hcw⟩ := (mem_iff_exists_token hblank).1 hc
    rw [hbody] at hw
    exact hp.mem_tokens hw hcw
  have hslash : '/' ∉ body := fun hc => absurd (hchars (by decide) hc) (by decide)
  have hequals : '=' ∉ body := fun hc => absurd (hchars (by decide) hc) (by decide)
  have hbracket : ']' ∉ body := fun hc => absurd (hchars (by decide) hc) (by decide)
  obtain ⟨ts, rest, name, htokens, hname, hlooks⟩ := hp.exists_endsWith
  have hne : body.collapse ≠ [] :=
    (Text.SingleSpaced.unwords fun _ hw => Text.mem_words hw).2 (hp.words_ne_nil hbody)
  -- The last token stands at the end of the text, and the last word at the end of the token.
  obtain ⟨s, w, hsplit, hlast, -, hsolid, -, htrailing⟩ := exists_last_token hne
    (Text.singleSpaced_collapse body).last fun c hc hblank => by
      rw [Text.eq_space_of_mem_collapse hc hblank]
      decide
  rw [tokens_collapse, hbody, htokens] at hlast
  obtain ⟨rfl, hw⟩ := List.append_inj' hlast rfl
  obtain rfl : rest ++ name = w := List.singleton_inj.1 hw
  rw [hname] at htrailing
  rw [← List.append_assoc] at hsplit
  obtain ⟨dimensions, hparse⟩ := parse?_spaced hslash hequals hbracket hdims hsplit htrailing
  -- Something stands in front of the name unless the name is the only token.
  have hempty : (∀ c ∈ s ++ rest, isBlank c) ↔ TypeText.tokens s = [] ∧ rest = [] := by
    rw [List.forall_mem_append, tokens_eq_nil_iff]
    refine and_congr_right fun _ => ⟨fun hblank => ?_, fun hnil => by rw [hnil]; simp⟩
    refine List.eq_nil_iff_forall_not_mem.2 fun c hc => ?_
    have hnot := hsolid c (List.mem_append_left name hc)
    rw [hblank c hc] at hnot
    cases hnot
  simp only [List.all_eq_true, hempty] at hparse
  refine ⟨String.ofList (tidy (Text.trim (s ++ rest) ++ dimensions)), ?_⟩
  rw [hparse, hlooks]
  split_ifs <;> rfl

/-! ## Lists with a parameter without a name -/

/-- Where an element gives an error a list does. -/
theorem mapM_error {α β ε : Type} {f : α → Except ε β} {xs : List α} {x : α} {e : ε} (hx : x ∈ xs)
    (hf : f x = .error e) : ∃ e', xs.mapM f = .error e' := by
  induction xs with
  | nil => cases hx
  | cons y ys ih =>
    rw [List.mapM_cons]
    cases hy : f y with
    | error e' => exact ⟨e', rfl⟩
    | ok b =>
      rcases List.mem_cons.1 hx with rfl | hx
      · rw [hf] at hy
        cases hy
      · obtain ⟨e', he'⟩ := ih hx
        exact ⟨e', by rw [he']; rfl⟩

/-- Where a piece of a list declares no parameter, nothing is declared. -/
theorem finish_of_parse?_eq_none {c : Scanner.Candidate} {piece : Text}
    (hpiece : piece ∈ splitTopLevel c.params.toList) (hwords : piece.words ≠ [])
    (hvoid : Text.collapse c.params.toList ≠ "void".toList)
    (hnone : Parameter.parse? piece = none) (file : Path) (doc : Option Text) :
    ∃ d, Scanner.finish file c doc = .skipped c.line (.defect d) := by
  -- The list is not empty, for the piece has words.
  have hlist : Text.collapse c.params.toList ≠ [] := by
    intro hnil
    have hblank : ∀ ch ∈ c.params.toList, isBlank ch := by
      rw [← Text.words_eq_nil_iff, ← Text.words_collapse, hnil, Text.words_nil]
    have hpart : piece <:+: [','].intercalate (splitTopLevel c.params.toList) :=
      Text.infix_intercalate hpiece
    have hjoined : [','].intercalate (splitTopLevel c.params.toList) = c.params.toList :=
      intercalate_splitTopLevelAt 0 _
    rw [hjoined] at hpart
    exact hwords (Text.words_eq_nil_iff.2 fun ch hch => hblank ch (hpart.subset hch))
  cases hread : Declaration.read ⟨file, c.line⟩ c.head.toList c.params.toList doc with
  | error d => exact ⟨d, by unfold Scanner.finish; rw [hread]⟩
  | ok d =>
    obtain ⟨-, -, -, -, -, -, hparams⟩ := Declaration.read_ok hread
    obtain ⟨e, he⟩ : ∃ e, readWords d.name piece.words = .error e := by
      unfold readWords readParameter
      rw [show Text.unwords piece.words = piece.collapse from rfl,
        (Text.singleSpaced_collapse piece).trim_eq]
      dsimp only
      rw [Parameter.parse?_collapse, hnone]
      split
      · exact ⟨_, rfl⟩
      · exact ⟨_, rfl⟩
    obtain ⟨e', he'⟩ := mapM_error (List.mem_map_of_mem hpiece) he
    rw [readParameters_eq_words, if_neg (not_or.2 ⟨hlist, hvoid⟩), he'] at hparams
    cases hparams

/-- A type without a name is refused, whatever its spacing and its dimensions, unless one of its
tokens is taken for a name; and then a list with it declares no function. -/
theorem parse?_unnamed {p : UnnamedType} (hp : p.WellFormed) (hbody : tokens body = p.tokens)
    (hdims : ∀ d ∈ dims, d.WellFormed) :
    (Parameter.parse? (body ++ dims.flatMap Dimension.text) = none ↔ p.name? = none) ∧
      (∀ w ∈ p.name?, ∃ type, Parameter.parse? (body ++ dims.flatMap Dimension.text) =
        some ⟨type, String.ofList w⟩) ∧
      (p.name? = none → ∀ c : Scanner.Candidate,
        body ++ dims.flatMap Dimension.text ∈ splitTopLevel c.params.toList →
        Text.collapse c.params.toList ≠ "void".toList → ∀ (file : Path) (doc : Option Text),
        ∃ d, Scanner.finish file c doc = .skipped c.line (.defect d)) := by
  obtain ⟨type, hparse⟩ := hp.parse?_eq hbody hdims
  have hnone : Parameter.parse? (body ++ dims.flatMap Dimension.text) = none ↔
      p.name? = none := by
    rw [hparse, Option.map_eq_none_iff]
  refine ⟨hnone, fun w hw => ⟨type, ?_⟩, fun hno c hpiece hvoid => ?_⟩
  · rw [hparse, hw, Option.map_some]
  · refine finish_of_parse?_eq_none hpiece (fun hnil => hp.words_ne_nil hbody ?_) hvoid
      (hnone.2 hno)
    rw [Text.words_eq_nil_iff] at hnil ⊢
    exact fun ch hch => hnil ch (List.mem_append_left _ hch)

/-- Types without a name that are refused, in several spacings: an unsigned integer with a
dimension, and a constant pointer to a constant class, whose list declares no function. -/
theorem parse?_unnamed_pointer :
    let integer : UnnamedType := { front := ["unsigned".toList], base := "int".toList }
    let pointer : UnnamedType := { front := ["const".toList], base := "ON_Line".toList,
                                   declarator := [['*'], "const".toList] }
    let c : Scanner.Candidate :=
      { line := 4, head := " void F", params := "int a, const ON_Line*const" }
    Parameter.parse? "unsigned  int [ 3 ]".toList = none ∧ integer.name? = none ∧
      (∃ d, Scanner.finish ⟨"t.cpp"⟩ c none = .skipped 4 (.defect d)) ∧ pointer.name? = none := by
  intro integer pointer c
  have hinteger : integer.WellFormed := by decide
  have hpointer : pointer.WellFormed := by decide
  have hintegerTokens : tokens "unsigned  int ".toList = integer.tokens := by decide
  have hpointerTokens : tokens " const ON_Line*const".toList = pointer.tokens := by decide
  have hdims : ∀ d ∈ [Dimension.mk " 3 ".toList []], d.WellFormed := by decide
  have hrefused := (parse?_unnamed hinteger hintegerTokens hdims).1.2 (by decide)
  have hskipped := (parse?_unnamed hpointer hpointerTokens fun d hd =>
    absurd hd List.not_mem_nil).2.2 (by decide) c (by decide) (by decide) ⟨"t.cpp"⟩ none
  exact ⟨hrefused, by decide, hskipped, by decide⟩

/-- A class that is named behind a word of types is split: its own name is taken for the name of the
parameter. -/
theorem const_class_is_named :
    let p : UnnamedType := { front := ["const".toList], base := "Foo".toList }
    p.WellFormed ∧ tokens "const Foo".toList = p.tokens ∧
      Parameter.parse? "const Foo".toList = some ⟨"const", "Foo"⟩ := by
  intro p
  exact ⟨by decide, by decide, by decide +kernel⟩

end NativeBindings
