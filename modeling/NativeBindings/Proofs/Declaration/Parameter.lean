import NativeBindings.Proofs.Declaration.Level
import NativeBindings.Proofs.Declaration.TypeText

/-!
# Parameters as they are written

A formal parameter is a type in its normal spelling, a name and array dimensions. `Formal.text`
writes it, and `Parameter.parse?` reads it back (`Formal.parse?_text`): the dimensions are cut off
from the end, the last word of what is left is the name, and the normal spelling of the type with
the dimensions behind it is their plain sequence.
-/

namespace NativeBindings

/-! ## Types -/

/-- A type in its normal spelling, without tags. -/
structure IsType (t : Text) : Prop where
  /-- It starts with an identifier character. -/
  starts : ∃ c ∈ t.head?, isIdentChar c
  /-- Its spelling is normal. -/
  tidy : TypeText.tidy t = t
  /-- It is made of identifiers, marks, scope operators and argument lists. -/
  spelled : Spelled false t

namespace IsType

variable {t : Text}

/-- An identifier is a type. -/
theorem of_isIdentifier (h : isIdentifier t) : IsType t := by
  obtain ⟨hne, hident⟩ := allIdent_of_isIdentifier h
  obtain ⟨c, cs, rfl⟩ := List.exists_cons_of_ne_nil hne
  have htidy : TypeText.tidy (c :: cs) = c :: cs := by
    rw [TypeText.tidy_eq_tidyPlain (hident.not_mem (by decide))]
    unfold TypeText.tidyPlain
    rw [(Text.SingleSpaced.of_solid hident.solid).collapse_eq,
      Text.dropSpaces_of_not_mem (hident.not_mem (by decide)),
      TypeText.spaceAfterMarks_of_not_isMark fun x hx =>
        TypeText.not_isMark_of_isIdentChar (hident x hx)]
  have hspelled : ∀ s : Text, AllIdent s → Spelled false s := by
    intro s hs
    induction s with
    | nil => exact .nil false
    | cons a s ih => exact .ident (hs a (.head s)) (ih fun x hx => hs x (.tail a hx))
  exact ⟨⟨c, rfl, hident c (.head cs)⟩, htidy, hspelled _ hident⟩

theorem ne_nil (h : IsType t) : t ≠ [] := by
  obtain ⟨c, hc, -⟩ := h.starts
  rintro rfl
  cases hc

/-- A character that no type holds. -/
theorem not_mem (h : IsType t) {c : Char} (hident : isIdentChar c = false)
    (hmark : TypeText.isMark c = false) (hc : c ∉ [' ', ':', ',', '<', '>']) : c ∉ t :=
  h.spelled.not_mem hident hmark hc

theorem tidyPlain_eq (h : IsType t) : TypeText.tidyPlain t = t := by
  have hslash : '/' ∉ t := h.not_mem (by decide) (by decide) (by decide)
  rw [← TypeText.tidy_eq_tidyPlain hslash, h.tidy]

theorem singleSpaced (h : IsType t) : Text.SingleSpaced t := by
  rw [← h.tidyPlain_eq]
  exact TypeText.singleSpaced_tidyPlain t

/-- A space behind a type does not change its normal spelling. -/
theorem tidy_append_space (h : IsType t) : TypeText.tidy (t ++ [' ']) = t := by
  have hslash : '/' ∉ t ++ [' '] := by
    intro hmem
    rcases List.mem_append.1 hmem with hmem | hmem
    · exact h.not_mem (by decide) (by decide) (by decide) hmem
    · cases List.mem_singleton.1 hmem
  have hcollapse : Text.collapse (t ++ [' ']) = Text.collapse t := by
    unfold Text.collapse
    rw [Text.words_concat_blank (by decide)]
  have htidy : TypeText.tidyPlain (t ++ [' ']) = TypeText.tidyPlain t := by
    unfold TypeText.tidyPlain
    rw [hcollapse]
  calc TypeText.tidy (t ++ [' ']) = TypeText.tidyPlain (t ++ [' ']) :=
        TypeText.tidy_eq_tidyPlain hslash
    _ = TypeText.tidyPlain t := htidy
    _ = t := h.tidyPlain_eq

end IsType

/-! ## Names -/

/-- The run at the end of a text stops in front of a text that does not end with its characters. -/
theorem takeTrailing_append {α : Type} {p : α → Bool} {t : List α}
    (ht : ∀ x ∈ t.getLast?, p x = false) (s : List α) :
    takeTrailing p (t ++ s) = takeTrailing p s := by
  have hnone : t.reverse.takeWhile p = [] := by
    cases hr : t.reverse with
    | nil => rfl
    | cons x xs =>
      have hlast : x ∈ t.getLast? := by
        rw [List.getLast?_eq_head?_reverse, hr]
        rfl
      rw [List.takeWhile_cons_of_neg (by simp [ht x hlast])]
  unfold takeTrailing
  rw [List.reverse_append, List.takeWhile_append, hnone, List.append_nil]
  split
  · rename_i hall
    rw [(List.takeWhile_prefix p).eq_of_length hall]
  · rfl

/-- No character of a word stands at the end of a text. -/
def StartsWord (t : Text) : Prop := ∀ c ∈ t.getLast?, isIdentChar c = false ∧ c.toNat < 128

/-- The last character of a text that is not empty decides. -/
theorem StartsWord.append {s t : Text} (h : StartsWord t) (ht : t ≠ []) : StartsWord (s ++ t) := by
  intro c hc
  rw [List.getLast?_append_of_ne_nil s ht] at hc
  exact h c hc

/-- Where a word starts, the last word does not reach into the text in front. -/
theorem StartsWord.trailingWord_append {t s : Text} (h : StartsWord t) (hs : s.trimRight ≠ []) :
    trailingWord (t ++ s) = trailingWord s := by
  unfold trailingWord
  rw [Text.trimRight_append hs, takeTrailing_append]
  intro c hc
  obtain ⟨hident, hascii⟩ := h c hc
  rw [hident, Bool.false_or, decide_eq_false_iff_not]
  omega

/-- Behind the text in front of its last word a word starts. -/
theorem startsWord_of_trailingWord_eq {t s : Text}
    (hlast : ∀ c ∈ (t ++ s).getLast?, isBlank c = false) (h : trailingWord (t ++ s) = s) :
    StartsWord t := by
  let inWord : Char → Bool := fun c => isIdentChar c || 128 ≤ c.toNat
  have hsplit := dropTrailing_append_takeTrailing inWord (t ++ s)
  have hword : takeTrailing inWord (t ++ s) = s := by
    unfold trailingWord at h
    rwa [Text.trimRight_eq hlast] at h
  rw [hword] at hsplit
  intro c hc
  rw [← List.append_cancel_right hsplit] at hc
  have hnot := (takeTrailing_spec inWord (t ++ s)).2 c hc
  rw [Bool.or_eq_false_iff, decide_eq_false_iff_not] at hnot
  exact ⟨hnot.1, by omega⟩

/-- An identifier is a last word, with blanks behind it or not. -/
theorem AllIdent.trailingWord_append {name gap : Text} (hname : AllIdent name)
    (hgap : ∀ c ∈ gap, isBlank c) : trailingWord (name ++ gap) = name := by
  have htrim : Text.trimRight (name ++ gap) = name := by
    have hblank : Text.trimRight gap = [] := by
      unfold Text.trimRight dropTrailing
      rw [List.dropWhile_eq_nil_iff.2 fun c hc => hgap c (List.mem_reverse.1 hc), List.reverse_nil]
    rw [Text.trimRight_append_of_eq_nil hblank, Text.trimRight_eq hname.solid.trimmed.last]
  have hall : ∀ c ∈ name.reverse, (isIdentChar c || decide (128 ≤ c.toNat)) = true := by
    intro c hc
    rw [hname c (List.mem_reverse.1 hc), Bool.true_or]
  unfold trailingWord takeTrailing
  rw [htrim, List.takeWhile_eq_self_iff.2 hall, List.reverse_reverse]

/-- A text of identifier characters is its last word. -/
theorem AllIdent.trailingWord_eq {name : Text} (hname : AllIdent name) :
    trailingWord name = name := by
  have halone : trailingWord (name ++ []) = name :=
    hname.trailingWord_append fun c hc => absurd hc List.not_mem_nil
  rwa [List.append_nil] at halone

/-- The last word of a text stands behind a space. -/
theorem trailingWord_append {name : Text} (hne : name ≠ []) (hname : AllIdent name) (t : Text) :
    trailingWord (t ++ ' ' :: name) = name := by
  have hstarts : StartsWord (t ++ [' ']) := by
    intro c hc
    rw [List.getLast?_concat] at hc
    cases hc
    decide
  have htrim : Text.trimRight name ≠ [] := by
    rwa [Text.trimRight_eq hname.solid.trimmed.last]
  rw [List.append_cons, hstarts.trailingWord_append htrim, hname.trailingWord_eq]

/-- What stands in front of the last word. -/
theorem take_length_sub (t name : Text) :
    (t ++ ' ' :: name).take ((t ++ ' ' :: name).length - name.length) = t ++ [' '] := by
  have hsplit : t ++ ' ' :: name = (t ++ [' ']) ++ name := by simp
  rw [hsplit, List.length_append, Nat.add_sub_cancel, List.take_left]

/-! ## Dimensions -/

/-- The text of array dimensions. -/
def dimensionText (dimensions : List Text) : Text :=
  dimensions.flatMap fun d => '[' :: (d ++ [']'])

theorem dimensionText_concat (dimensions : List Text) (d : Text) :
    dimensionText (dimensions ++ [d]) = dimensionText dimensions ++ '[' :: d ++ [']'] := by
  unfold dimensionText
  rw [List.flatMap_append, List.flatMap_cons, List.flatMap_nil, List.append_nil, List.append_assoc]
  rfl

/-- The characters of array dimensions. -/
theorem mem_dimensionText {dimensions : List Text} (h : ∀ d ∈ dimensions, AllIdent d) {c : Char}
    (hc : c ∈ dimensionText dimensions) : isIdentChar c ∨ c = '[' ∨ c = ']' := by
  unfold dimensionText at hc
  obtain ⟨d, hd, hc⟩ := List.mem_flatMap.1 hc
  rcases List.mem_cons.1 hc with rfl | hc
  · exact .inr (.inl rfl)
  · rcases List.mem_append.1 hc with hc | hc
    · exact .inl (h d hd c hc)
    · exact .inr (.inr (List.mem_singleton.1 hc))

theorem solid_dimensionText {dimensions : List Text} (h : ∀ d ∈ dimensions, AllIdent d) :
    Text.Solid (dimensionText dimensions) := by
  intro c hc
  rcases mem_dimensionText h hc with hc | rfl | rfl
  · exact not_isBlank_of_isIdentChar hc
  · decide
  · decide

/-- Dimensions start with a bracket. -/
theorem endsIdent_dimensionText (dimensions : List Text) :
    EndsIdent (dimensionText dimensions) := by
  intro c hc
  unfold dimensionText at hc
  cases dimensions with
  | nil => cases hc
  | cons d ds =>
    obtain rfl : '[' = c := Option.some.inj hc
    decide

theorem level_dimensionText {dimensions : List Text} (h : ∀ d ∈ dimensions, AllIdent d)
    (depth : Int) : Level depth (dimensionText dimensions) := by
  unfold dimensionText
  induction dimensions with
  | nil => exact .nil depth
  | cons d ds ih =>
    have hd : Level (depth + 1) d := .of_allIdent (h d (.head ds))
    rw [List.flatMap_cons]
    exact (Level.brackets '[' ']' (by decide) (by decide) hd).append
      (ih fun x hx => h x (.tail d hx))

/-- The spelling of a type stays normal when dimensions are written behind it. -/
theorem IsType.tidy_append {t : Text} (ht : IsType t) {dimensions : List Text}
    (h : ∀ d ∈ dimensions, AllIdent d) :
    TypeText.tidy (t ++ dimensionText dimensions) = t ++ dimensionText dimensions := by
  have hslash : '/' ∉ t ++ dimensionText dimensions := by
    intro hmem
    rcases List.mem_append.1 hmem with hmem | hmem
    · exact ht.not_mem (by decide) (by decide) (by decide) hmem
    · rcases mem_dimensionText h hmem with hmem | hmem | hmem <;> cases hmem
  -- Neither a comment nor a mark comes from the dimensions.
  have hmarks : ∀ c ∈ dimensionText dimensions, TypeText.isMark c = false := by
    intro c hc
    rcases mem_dimensionText h hc with hc | rfl | rfl
    · exact TypeText.not_isMark_of_isIdentChar hc
    · decide
    · decide
  calc TypeText.tidy (t ++ dimensionText dimensions)
      = TypeText.tidyPlain (t ++ dimensionText dimensions) := TypeText.tidy_eq_tidyPlain hslash
    _ = TypeText.tidyPlain t ++ dimensionText dimensions :=
        TypeText.tidyPlain_append ht.singleSpaced hmarks (endsIdent_dimensionText dimensions)
          (solid_dimensionText h)
    _ = t ++ dimensionText dimensions := by rw [ht.tidyPlain_eq]

/-- Dimensions are cut off one by one, the last one at its opening bracket. -/
theorem splitDimensions?_eq (t : Text) :
    splitDimensions? t =
      if t.trimRight.getLast? = some ']' then
        (Text.splitLast? ['['] t.trimRight.dropLast).bind fun (before, inside) =>
          (splitDimensions? before).map fun (body, dimensions) =>
            (body, dimensions ++ '[' :: inside.trim ++ [']'])
      else some (t.trimRight, []) := by
  rw [splitDimensions?]
  split
  · split
    · rename_i hnone
      simp only [hnone, Option.bind_none]
    · rename_i hsome
      simp only [hsome, Option.bind_some]
  · rfl

/-- Blanks at the end do not matter to the dimensions. -/
theorem splitDimensions?_trimRight (t : Text) :
    splitDimensions? t.trimRight = splitDimensions? t := by
  have htwice : t.trimRight.trimRight = t.trimRight :=
    Text.trimRight_eq (takeTrailing_spec isBlank t).2
  rw [splitDimensions?_eq, splitDimensions?_eq t, htwice]

/-- A text without a closing bracket at its end has no dimensions. -/
theorem splitDimensions?_none {t : Text} (hlast : t.trimRight.getLast? ≠ some ']') :
    splitDimensions? t = some (t.trimRight, []) := by
  rw [splitDimensions?_eq, if_neg hlast]

/-- The last dimension is cut off at its opening bracket. -/
theorem splitDimensions?_some {t before inside : Text}
    (hlast : t.trimRight.getLast? = some ']')
    (hsplit : Text.splitLast? ['['] t.trimRight.dropLast = some (before, inside)) :
    splitDimensions? t = (splitDimensions? before).map fun (body, dimensions) =>
      (body, dimensions ++ '[' :: inside.trim ++ [']']) := by
  rw [splitDimensions?_eq, if_pos hlast, hsplit, Option.bind_some]

/-- Dimensions are cut off behind a text that ends with an identifier character. -/
theorem splitDimensions?_append {t : Text} {dimensions : List Text}
    (ht : ∃ c ∈ t.getLast?, isIdentChar c) (h : ∀ d ∈ dimensions, AllIdent d) :
    splitDimensions? (t ++ dimensionText dimensions) = some (t, dimensionText dimensions) := by
  obtain ⟨c, hc, hident⟩ := ht
  -- Dimensions are cut off from the end, so the induction takes the last one first.
  induction dimensions using List.reverseRecOn with
  | nil =>
    -- The text itself ends neither with a blank nor with a bracket.
    have hlast : ∀ a ∈ t.getLast?, isBlank a = false := by
      intro a ha
      rw [hc] at ha
      cases ha
      exact not_isBlank_of_isIdentChar hident
    have hbracket : t.getLast? ≠ some ']' := by
      intro hsome
      rw [hc] at hsome
      cases hsome
      cases hident
    have hnil : dimensionText [] = [] := rfl
    have htrim := Text.trimRight_eq hlast
    rw [hnil, List.append_nil, splitDimensions?_none (by rwa [htrim]), htrim]
  | append_singleton ds d ih =>
    have hd : AllIdent d := h d (by simp)
    -- The last bracket that opens is that of the last dimension.
    have hopen : '[' ∉ d := hd.not_mem (by decide)
    have hlast : (t ++ dimensionText (ds ++ [d])).getLast? = some ']' := by
      rw [dimensionText_concat, ← List.append_assoc, List.getLast?_concat]
    have hdrop : (t ++ dimensionText (ds ++ [d])).dropLast = t ++ dimensionText ds ++ '[' :: d := by
      rw [dimensionText_concat, ← List.append_assoc, ← List.append_assoc, List.dropLast_concat]
    have hsplit : Text.splitLast? ['['] (t ++ dimensionText (ds ++ [d])).dropLast =
        some (t ++ dimensionText ds, d) := by
      rw [hdrop, Text.splitLast?_singleton _ _ hopen]
    -- A closing bracket is not blank, so nothing is trimmed in front of the cut.
    have hblank : ∀ a ∈ (t ++ dimensionText (ds ++ [d])).getLast?, isBlank a = false := by
      intro a ha
      rw [hlast] at ha
      cases ha
      decide
    have hbefore := ih fun x hx => h x (List.mem_append_left _ hx)
    have htrim := Text.trimRight_eq hblank
    rw [splitDimensions?_some (by rwa [htrim]) (by rwa [htrim]), hbefore, hd.solid.trimmed.trim_eq,
      dimensionText_concat]
    rfl

/-! ## Formal parameters -/

/-- A formal parameter, before it is written. -/
structure Formal where
  /-- The type in front of the name. -/
  base : Text
  /-- The name. -/
  name : Text
  /-- The array dimensions behind the name, without their brackets. -/
  dimensions : List Text

namespace Formal

/-- The text of a formal parameter. -/
def text (p : Formal) : Text := p.base ++ ' ' :: (p.name ++ dimensionText p.dimensions)

/-- The parameter that is read from the text. -/
def parameter (p : Formal) : Parameter :=
  ⟨String.ofList (p.base ++ dimensionText p.dimensions), String.ofList p.name⟩

/-- What is asked of a formal parameter. -/
structure WellFormed (p : Formal) : Prop where
  /-- Its type is in its normal spelling. -/
  type : IsType p.base
  /-- Its name is an identifier. -/
  ident : isIdentifier p.name
  /-- Its name is no word of types. -/
  notType : String.ofList p.name ∉ typeWords
  /-- Its dimensions are literals. -/
  literals : ∀ d ∈ p.dimensions, AllIdent d

namespace WellFormed

variable {p : Formal}

theorem singleSpaced (h : p.WellFormed) : Text.SingleSpaced p.text := by
  obtain ⟨hne, hname⟩ := allIdent_of_isIdentifier h.ident
  -- Behind the space in front of the name there are no blanks.
  have hbehind : Text.Solid (p.name ++ dimensionText p.dimensions) := by
    intro c hc
    rcases List.mem_append.1 hc with hc | hc
    · exact hname.solid c hc
    · exact solid_dimensionText h.literals c hc
  unfold text
  exact h.type.singleSpaced.append_space (.of_solid hbehind) h.type.ne_nil (by simp [hne])

/-- A character that no formal parameter holds. -/
theorem not_mem (h : p.WellFormed) {c : Char} (hident : isIdentChar c = false)
    (hmark : TypeText.isMark c = false) (hc : c ∉ [' ', ':', ',', '<', '>', '[', ']']) :
    c ∉ p.text := by
  simp only [List.mem_cons, not_or] at hc
  unfold text
  simp only [List.mem_append, List.mem_cons, not_or]
  obtain ⟨-, hname⟩ := allIdent_of_isIdentifier h.ident
  refine ⟨h.type.not_mem hident hmark (by simp [hc]), hc.1, hname.not_mem hident, ?_⟩
  intro hmem
  rcases mem_dimensionText h.literals hmem with hmem | hmem | hmem
  · rw [hident] at hmem
    cases hmem
  · exact hc.2.2.2.2.2.1 hmem
  · exact hc.2.2.2.2.2.2.1 hmem

theorem level (h : p.WellFormed) : Level 0 p.text := by
  have hbase : Level 0 p.base := h.type.spelled.level (by decide) (by simp)
  have hname : Level 0 p.name := .of_allIdent (allIdent_of_isIdentifier h.ident).2
  have hbehind := hname.append (level_dimensionText h.literals 0)
  exact hbase.append (.cons (by decide) (by decide) hbehind)

end WellFormed

end Formal

/-- A text without an equals sign has no default value, at any depth. -/
theorem beforeDefaultAt?_eq_none {t : Text} (h : '=' ∉ t) (depth : Int) :
    beforeDefaultAt? depth t = none := by
  induction t generalizing depth with
  | nil => rfl
  | cons c cs ih =>
    have hc : c ≠ '=' := fun heq => h (heq ▸ .head cs)
    rw [beforeDefaultAt?, if_neg fun hand => hc hand.1, ih fun hmem => h (.tail c hmem)]
    rfl

/-- A parameter without a default value stays as it is. -/
theorem withoutDefault_eq {t : Text} (h : '=' ∉ t) : withoutDefault t = t := by
  unfold withoutDefault
  rw [beforeDefaultAt?_eq_none h]

/-- A text without slashes holds no comment to look behind. -/
theorem behindComments_eq {t : Text} (h : '/' ∉ t) : behindComments t = t := by
  unfold behindComments
  rw [Text.splitLast?_eq_none (by simp) h]

/-- A parameter is read from its declarator and its dimensions: the last word of the declarator is
its name, and its type is what stands in front. -/
theorem Parameter.parse?_of_split {t type name dimensions : Text}
    (hsplit : splitDimensions? (withoutDefault t.collapse) = some (type ++ name, dimensions))
    (hname : trailingWord (type ++ name) = name) :
    Parameter.parse? t =
      if !isIdentifier name || String.ofList name ∈ typeWords then none
      else if (behindComments type.trim).trim.isEmpty then none
      else some ⟨String.ofList (TypeText.tidy (type.trim ++ dimensions)), String.ofList name⟩ := by
  have htake : (type ++ name).take ((type ++ name).length - name.length) = type := by
    rw [List.length_append, Nat.add_sub_cancel, List.take_left]
  unfold Parameter.parse?
  rw [hsplit, Option.bind_eq_bind, Option.bind_some]
  dsimp only
  rw [hname, htake]

/-- A formal parameter is read back from its text. -/
theorem Formal.WellFormed.parse?_text {p : Formal} (h : p.WellFormed) :
    Parameter.parse? p.text = some p.parameter := by
  obtain ⟨hne, hname⟩ := allIdent_of_isIdentifier h.ident
  have hslash : '/' ∉ p.base := h.type.not_mem (by decide) (by decide) (by decide)
  -- There is no default value to cut off and no tag to look behind.
  have hequals : '=' ∉ p.text := h.not_mem (by decide) (by decide) (by decide)
  have htext : p.text = p.base ++ ' ' :: p.name ++ dimensionText p.dimensions := by
    unfold Formal.text
    rw [List.append_assoc, List.cons_append]
  -- The dimensions are cut off behind the name.
  have hlast : ∃ c ∈ (p.base ++ ' ' :: p.name).getLast?, isIdentChar c := by
    refine ⟨p.name.getLast hne, ?_, hname _ (List.getLast_mem hne)⟩
    rw [List.getLast?_append, List.getLast?_cons_of_ne_nil hne,
      List.getLast?_eq_getLast_of_ne_nil hne]
    rfl
  have hsplit : splitDimensions? (withoutDefault p.text.collapse) =
      some ((p.base ++ [' ']) ++ p.name, dimensionText p.dimensions) := by
    rw [h.singleSpaced.collapse_eq, withoutDefault_eq hequals, htext,
      splitDimensions?_append hlast h.literals, ← List.append_cons]
  have hlastword : trailingWord ((p.base ++ [' ']) ++ p.name) = p.name := by
    rw [← List.append_cons, trailingWord_append hne hname]
  -- What stands in front of the name is the type and a space.
  have htype : Text.trim (p.base ++ [' ']) = p.base :=
    Text.trim_append_blank (by decide) h.type.singleSpaced.toTrimmed h.type.ne_nil
  have hempty : p.base.trim.isEmpty = false := by
    rw [h.type.singleSpaced.trim_eq]
    simpa using h.type.ne_nil
  rw [Parameter.parse?_of_split hsplit hlastword, h.ident, if_neg (by simp [h.notType]), htype,
    behindComments_eq hslash, hempty, if_neg Bool.false_ne_true, h.type.tidy_append h.literals]
  rfl

end NativeBindings
