import NativeBindings.CType.Parser
import NativeBindings.Proofs.Text.Collapse
import NativeBindings.Proofs.Text.Natural
import NativeBindings.Proofs.Text.Word

/-!
# Qualifiers, pointers and arrays around a type

Reading a type depends on its words alone (`parse_congr`). A `*` behind a text makes a pointer to
what the text spells, constant when the text is (`parse_concat_star`), and a dimension behind it an
array (`parse_append_dimension`). In front of a type that is no pointer `const` changes nothing, as
far as there are pointers to the type (`parse_constPrefix`): it is a word that is left out, and
neither the qualifiers behind the last mark nor the name of a template are read differently behind
it.
-/

namespace NativeBindings.CType

/-- The type that a text spells, when its words are single-spaced and no qualifiers follow its last
mark. -/
def ofSpelling (s : Text) : CType :=
  match s.getLast? with
  | some ']' =>
    match Text.splitLast? ['['] s.dropLast with
    | none => .unparsed (String.ofList s)
    | some (before, inside) =>
      match Text.natural64? inside.trim with
      | some length => .array (parse before) length
      | none => .unparsed (String.ofList s)
  | some '*' => .pointer (isConstant (Text.trim s.dropLast)) (parse (Text.trim s.dropLast))
  | some '&' => .reference (isConstant (Text.trim s.dropLast)) (parse (Text.trim s.dropLast))
  | _ => ofBase s

/-- A text is read from its collapsed form. -/
theorem parse_eq (t : Text) : parse t = ofSpelling (dropOuterQualifiers t.collapse) := by
  rw [parse]
  unfold ofSpelling
  split
  · rename_i hlast
    simp only [hlast]
    split
    · rename_i h
      simp only [h]
    · rename_i before inside h
      cases hlength : Text.natural64? inside.trim <;> simp only [h, hlength]
  · rename_i hlast
    simp only [hlast]
  · rename_i hlast
    simp only [hlast]
  · rename_i hlast
    split <;> simp_all

/-- What a text spells depends on its words alone. -/
theorem parse_congr {t t' : Text} (h : Text.collapse t = Text.collapse t') :
    parse t = parse t' := by
  rw [parse_eq, parse_eq, h]

/-! ## Qualifiers at the end -/

/-- The text ends with the mark of a pointer or a reference. -/
def EndsMark (t : Text) : Prop := t.getLast? = some '*' ∨ t.getLast? = some '&'

theorem EndsMark.ne_nil {t : Text} (h : EndsMark t) : t ≠ [] := by
  rintro rfl
  rcases h with h | h <;> cases h

/-- Only the last part of a text decides whether it ends with a mark. -/
theorem endsMark_append {t s : Text} (hs : s ≠ []) : EndsMark (t ++ s) ↔ EndsMark s := by
  unfold EndsMark
  rw [List.getLast?_append_of_ne_nil _ hs]

/-- The qualifiers. -/
def qualifiers : List Text := ["const".toList, "volatile".toList]

/-- Qualifiers are words that end with no mark. -/
theorem qualifier_facts {q : Text} (hq : q ∈ qualifiers) :
    q ≠ [] ∧ ' ' ∉ q ∧ ¬ EndsMark q := by
  unfold qualifiers at hq
  unfold EndsMark
  revert q
  decide

/-- A text that ends with a qualifier, and what precedes it. -/
theorem beforeQualifier?_eq_some_iff {t rest : Text} :
    beforeQualifier? t = some rest ↔ ∃ q ∈ qualifiers, t = rest ++ q := by
  unfold beforeQualifier?
  constructor
  · intro h
    rcases Option.or_eq_some_iff.1 h with h | ⟨-, h⟩
    · exact ⟨_, .head _, Text.eq_append_of_isSuffixOf? h⟩
    · exact ⟨_, .tail _ (.head _), Text.eq_append_of_isSuffixOf? h⟩
  · rintro ⟨q, hq, rfl⟩
    rcases List.mem_cons.1 hq with rfl | hq
    · rw [Text.isSuffixOf?_append, Option.some_or]
    · obtain rfl := List.mem_singleton.1 hq
      -- The two qualifiers end differently, so at most one of them stands at the end.
      have hnone : "const".toList.isSuffixOf? (rest ++ "volatile".toList) = none := by
        cases h : "const".toList.isSuffixOf? (rest ++ "volatile".toList) with
        | none => rfl
        | some before =>
          have hlast := congrArg List.getLast? (Text.eq_append_of_isSuffixOf? h)
          rw [List.getLast?_append, List.getLast?_append] at hlast
          exact absurd hlast (by simp)
      rw [hnone, Option.none_or, Text.isSuffixOf?_append]

/-- A qualifier ends with a letter. -/
theorem exists_getLast?_qualifier {q : Text} (hq : q ∈ qualifiers) :
    ∃ c, q.getLast? = some c ∧ isIdentChar c := by
  rcases List.mem_cons.1 hq with rfl | hq
  · exact ⟨'t', rfl, by decide⟩
  · obtain rfl := List.mem_singleton.1 hq
    exact ⟨'e', rfl, by decide⟩

/-- A text that ends with punctuation ends with no qualifier. -/
theorem beforeQualifier?_eq_none {t : Text} {c : Char} (hlast : t.getLast? = some c)
    (hc : isIdentChar c = false) : beforeQualifier? t = none := by
  rw [Option.eq_none_iff_forall_ne_some]
  intro rest hrest
  obtain ⟨q, hq, rfl⟩ := beforeQualifier?_eq_some_iff.1 hrest
  obtain ⟨d, hd, hident⟩ := exists_getLast?_qualifier hq
  rw [List.getLast?_append_of_ne_nil _ (qualifier_facts hq).1, hd] at hlast
  rw [Option.some.inj hlast, hc] at hident
  cases hident

/-- Without a qualifier at the end there is nothing to drop. -/
theorem dropOuterQualifiers_of_none {t : Text} (h : beforeQualifier? t = none) :
    dropOuterQualifiers t = t := by
  rw [dropOuterQualifiers]
  split
  · rfl
  · rename_i hsome
    rw [h] at hsome
    cases hsome

/-- A qualifier at the end is dropped when a mark precedes it. -/
theorem dropOuterQualifiers_of_some {t rest : Text} (h : beforeQualifier? t = some rest) :
    (EndsMark rest.trimRight → dropOuterQualifiers t = dropOuterQualifiers rest.trimRight) ∧
      (¬ EndsMark rest.trimRight → dropOuterQualifiers t = t) := by
  rw [dropOuterQualifiers]
  split
  · rename_i hnone
    rw [h] at hnone
    cases hnone
  · rename_i before hbefore
    obtain rfl := Option.some.inj (h.symm.trans hbefore)
    exact ⟨fun hmark => if_pos hmark, fun hmark => if_neg hmark⟩

/-- A text that ends with a mark has no qualifiers behind it. -/
theorem dropOuterQualifiers_of_endsMark {t : Text} (h : EndsMark t) :
    dropOuterQualifiers t = t := by
  apply dropOuterQualifiers_of_none
  rcases h with h | h
  · exact beforeQualifier?_eq_none h (by decide)
  · exact beforeQualifier?_eq_none h (by decide)

/-! ## Pointers -/

/-- A `*` behind a text makes a pointer to what the text spells, constant when the text is. -/
theorem parse_concat_star (t : Text) :
    parse (t ++ ['*']) = .pointer (isConstant (Text.collapse t)) (parse t) := by
  obtain ⟨hlast, htrim⟩ := Text.collapse_concat t (x := '*') (by decide)
  rw [parse_eq, dropOuterQualifiers_of_endsMark (.inl hlast)]
  unfold ofSpelling
  rw [hlast]
  simp only [htrim]
  rw [parse_congr (Text.collapse_collapse t)]

/-! ## Arrays -/

/-- The dimension of an array of the given length. -/
def dimension (n : Nat) : Text := '[' :: (toString n).toList ++ [']']

theorem allIdent_toString (n : Nat) : AllIdent (toString n).toList := by
  intro c hc
  unfold isIdentChar Char.isAlphanum
  rw [Text.isDigit_of_mem_toString hc, Bool.or_true, Bool.true_or]

/-- Only brackets and digits are in a dimension. -/
theorem not_mem_dimension {c : Char} (hdigit : c.isDigit = false) (hopen : c ≠ '[')
    (hclose : c ≠ ']') (n : Nat) : c ∉ dimension n := by
  unfold dimension
  simp only [List.cons_append, List.mem_cons, List.mem_append, List.not_mem_nil, or_false, not_or]
  exact ⟨hopen, Text.not_mem_toString hdigit n, hclose⟩

theorem solid_dimension (n : Nat) : Text.Solid (dimension n) := by
  unfold dimension
  intro c hc
  rcases List.mem_append.1 hc with hc | hc
  · rcases List.mem_cons.1 hc with rfl | hc
    · decide
    · exact (allIdent_toString n).solid c hc
  · rw [List.mem_singleton.1 hc]
    decide

/-- A dimension behind a text makes an array of what the text spells. -/
theorem parse_append_dimension (t : Text) {n : Nat} (hn : n < Nat.pow 2 64) :
    parse (t ++ dimension n) = .array (parse t) n := by
  have hopen : '[' ∉ (toString n).toList := Text.not_mem_toString (by decide) n
  have hdigits := allIdent_toString n
  have hsolid : Text.Solid ((toString n).toList ++ [']']) :=
    fun c hc => solid_dimension n c (List.mem_cons_of_mem '[' hc)
  have hnumber := Text.natural64?_toString hn
  unfold dimension
  generalize (toString n).toList = ds at hopen hdigits hsolid hnumber
  -- Blanks in front of the bracket may stay, but what they follow is read without them.
  obtain ⟨hlast, htrim⟩ := Text.collapse_concat t (x := '[') (by decide)
  obtain ⟨before, hbefore⟩ := List.getLast?_eq_some_iff.1 hlast
  rw [hbefore, List.dropLast_concat] at htrim
  have hcollapse : Text.collapse (t ++ ('[' :: ds ++ [']'])) = before ++ '[' :: ds ++ [']'] := by
    have hword :=
      Text.collapse_append_word (t := t ++ ['[']) List.getLast?_concat (by decide) hsolid
    rw [hbefore] at hword
    simpa using hword
  have hnone : beforeQualifier? (before ++ '[' :: ds ++ [']']) = none :=
    beforeQualifier?_eq_none List.getLast?_concat (by decide)
  -- The dimension is parted off and read, and what is left is read like the text.
  rw [parse_eq, hcollapse, dropOuterQualifiers_of_none hnone]
  unfold ofSpelling
  rw [List.getLast?_concat]
  simp only
  rw [List.dropLast_concat, Text.splitLast?_singleton before ds hopen]
  dsimp only
  rw [hdigits.solid.trimmed.trim_eq, hnumber]
  dsimp only
  rw [← parse_congr (Text.collapse_trim before), htrim, parse_congr (Text.collapse_collapse t)]

/-! ## `const` in front -/

/-- The word with a space behind it. -/
def constPrefix : Text := "const ".toList

/-- In front of a text `const` is one more word. -/
theorem words_constPrefix (u : Text) :
    Text.words (constPrefix ++ u) = "const".toList :: Text.words u := by
  have hsolid : Text.Solid "const".toList :=
    (allIdent_of_isIdentifier (by decide)).2.solid
  rw [show constPrefix ++ u = "const".toList ++ ' ' :: u from rfl,
    Text.words_append_blank (by decide), Text.words_of_solid (by decide) hsolid,
    List.singleton_append]

theorem collapse_constPrefix {u : Text} (hu : Text.words u ≠ []) :
    Text.collapse (constPrefix ++ u) = constPrefix ++ Text.collapse u := by
  unfold Text.collapse
  rw [words_constPrefix, Text.unwords_cons hu]
  rfl

/-! ### What is constant -/

/-- A text without brackets lies outside template arguments. -/
theorem outsideTemplates_of_not_mem {t : Text} (hopen : '<' ∉ t) (hclose : '>' ∉ t) :
    outsideTemplates 0 t = t := by
  induction t with
  | nil => rfl
  | cons c t ih =>
    rw [List.mem_cons, not_or] at hopen hclose
    rw [outsideTemplates, if_neg (Ne.symm hopen.1), if_neg (Ne.symm hclose.1), if_pos rfl,
      ih hopen.2 hclose.2]

/-- The only word of identifier characters that is constant is `const` itself. -/
theorem isConstant_of_allIdent {t : Text} (ht : AllIdent t) (hne : t ≠ "const".toList) :
    isConstant t = false := by
  unfold isConstant
  rw [outsideTemplates_of_not_mem (ht.not_mem (by decide)) (ht.not_mem (by decide))]
  cases h : Text.findWord? "const".toList t with
  | none => rfl
  | some parts =>
    obtain ⟨before, after⟩ := parts
    obtain ⟨hsplit, halone⟩ := Text.standsAlone_of_findWord? h
    rw [hsplit] at ht
    obtain ⟨rfl, rfl⟩ := Text.eq_nil_of_standsAlone ht halone
    rw [List.nil_append, List.append_nil] at hsplit
    exact absurd hsplit hne

/-- What `const` stands in front of is constant. -/
theorem isConstant_constPrefix (u : Text) :
    isConstant (Text.collapse (constPrefix ++ u)) = true := by
  -- The word ends the text, or a space follows it.
  have hstart : ∃ rest : Text, EndsIdent (outsideTemplates 0 rest) ∧
      Text.collapse (constPrefix ++ u) = "const".toList ++ rest := by
    by_cases hu : Text.words u = []
    · refine ⟨[], nofun, ?_⟩
      unfold Text.collapse
      rw [words_constPrefix, hu, Text.unwords_singleton, List.append_nil]
    · refine ⟨' ' :: Text.collapse u, ?_, collapse_constPrefix hu⟩
      intro c hc
      obtain rfl : ' ' = c := Option.some.inj hc
      decide
  obtain ⟨rest, hends, hcollapse⟩ := hstart
  have houtside : outsideTemplates 0 ("const".toList ++ rest) =
      "const".toList ++ outsideTemplates 0 rest := rfl
  unfold isConstant
  rw [hcollapse, houtside, Text.findWord?_append hends, Option.isSome_some]

/-! ### Qualifiers behind the last mark -/

/-- A qualifier at the end of a text ends it behind `const` as well, and there is no other. -/
theorem beforeQualifier?_constPrefix (t : Text) :
    beforeQualifier? (constPrefix ++ t) = (beforeQualifier? t).map (constPrefix ++ ·) := by
  cases h : beforeQualifier? t with
  | some rest =>
    obtain ⟨q, hq, rfl⟩ := beforeQualifier?_eq_some_iff.1 h
    rw [Option.map_some, beforeQualifier?_eq_some_iff]
    exact ⟨q, hq, (List.append_assoc _ _ _).symm⟩
  | none =>
    have hnone : ∀ rest : Text, ∀ q ∈ qualifiers, t ≠ rest ++ q := by
      intro rest q hq ht
      rw [beforeQualifier?_eq_some_iff.2 ⟨q, hq, ht⟩] at h
      cases h
    rw [Option.map_none, Option.eq_none_iff_forall_ne_some]
    intro rest hrest
    obtain ⟨q, hq, happend⟩ := beforeQualifier?_eq_some_iff.1 hrest
    -- The qualifier lies in the text, or reaches into `const`.
    rcases List.append_eq_append_iff.1 happend with ⟨a, -, ht⟩ | ⟨a, hprefix, hqualifier⟩
    · exact hnone a q hq ht
    · -- A longer qualifier would hold the space behind `const`.
      have hblank : ' ' ∉ q := (qualifier_facts hq).2.1
      by_cases ha : a = []
      · rw [ha, List.nil_append] at hqualifier
        exact hnone [] q hq hqualifier.symm
      · have hlast := congrArg List.getLast? hprefix
        rw [List.getLast?_append_of_ne_nil _ ha] at hlast
        have hmem : ' ' ∈ a := List.mem_of_getLast? hlast.symm
        exact hblank (hqualifier ▸ List.mem_append_left t hmem)

/-- Whether what precedes a qualifier ends with a mark is the same behind `const`. -/
theorem endsMark_trimRight_constPrefix (t : Text) :
    EndsMark (Text.trimRight (constPrefix ++ t)) ↔ EndsMark (Text.trimRight t) := by
  by_cases ht : Text.trimRight t = []
  · rw [Text.trimRight_append_of_eq_nil ht, ht]
    unfold EndsMark
    decide
  · rw [Text.trimRight_append ht, endsMark_append ht]

/-- Behind `const` the same qualifiers are dropped. -/
theorem dropOuterQualifiers_constPrefix (t : Text) :
    dropOuterQualifiers (constPrefix ++ t) = constPrefix ++ dropOuterQualifiers t := by
  fun_induction dropOuterQualifiers t with
  | case1 t hnone =>
    apply dropOuterQualifiers_of_none
    rw [beforeQualifier?_constPrefix, hnone, Option.map_none]
  | case2 t rest hsome _ rest' hmark ih =>
    have hbefore : beforeQualifier? (constPrefix ++ t) = some (constPrefix ++ rest) := by
      rw [beforeQualifier?_constPrefix, hsome, Option.map_some]
    rw [(dropOuterQualifiers_of_some hbefore).1 ((endsMark_trimRight_constPrefix rest).2 hmark),
      Text.trimRight_append (EndsMark.ne_nil hmark), ih]
  | case3 t rest hsome _ rest' hmark =>
    have hbefore : beforeQualifier? (constPrefix ++ t) = some (constPrefix ++ rest) := by
      rw [beforeQualifier?_constPrefix, hsome, Option.map_some]
    exact (dropOuterQualifiers_of_some hbefore).2
      fun hconst => hmark ((endsMark_trimRight_constPrefix rest).1 hconst)

/-- Dropping qualifiers behind the last mark keeps the start of a text. -/
theorem head?_dropOuterQualifiers (t : Text) : (dropOuterQualifiers t).head? = t.head? := by
  fun_induction dropOuterQualifiers t with
  | case1 => rfl
  | case2 t rest hsome _ rest' hmark ih =>
    obtain ⟨q, -, rfl⟩ := beforeQualifier?_eq_some_iff.1 hsome
    have hne : rest' ≠ [] := EndsMark.ne_nil hmark
    have hrest : rest' ++ takeTrailing isBlank rest = rest := dropTrailing_append_takeTrailing _ _
    rw [ih, ← hrest, List.append_assoc, List.head?_append_of_ne_nil _ hne]
  | case3 => rfl

/-! ### The type -/

/-- Whether no rule knows a pointer to the type: it is a reference, an array or no type at all. -/
def isUnpointed : CType → Bool
  | .reference _ _ | .array _ _ | .unparsed _ => true
  | _ => false

theorem isUnpointed_iff {t : CType} :
    t.isUnpointed ↔ (∃ constant target, t = .reference constant target) ∨
      (∃ element length, t = .array element length) ∨ ∃ text, t = .unparsed text := by
  cases t <;> simp [isUnpointed]

/-- The words of a type that are no qualifiers. -/
def unqualifiedWords (t : Text) : List String :=
  ((Text.words t).map String.ofList).filter fun w => w != "const" && w != "volatile"

/-- Apart from qualifiers, the words decide which type they denote, when they denote one. -/
theorem ofWords_congr {t t' : Text} (h : unqualifiedWords t = unqualifiedWords t') :
    ofWords t = ofWords t' ∨ (ofWords t).isUnpointed ∧ (ofWords t').isUnpointed := by
  unfold unqualifiedWords at h
  unfold ofWords
  simp only [h]
  split
  · exact .inr ⟨rfl, rfl⟩
  · exact .inl rfl
  · exact .inl rfl
  · exact .inl rfl
  · exact .inl rfl
  · split
    · exact .inl rfl
    · exact .inl rfl
    · exact .inr ⟨rfl, rfl⟩

/-- The name of a template is the last word before its arguments, whether `const` is in front. -/
theorem ofTemplate_constPrefix {head : Text} (hhead : Text.trimRight head ≠ [])
    (arguments : Text) :
    ofTemplate (constPrefix ++ head) arguments = ofTemplate head arguments := by
  unfold ofTemplate
  rw [Text.trimRight_append hhead]
  cases h : Text.splitLast? [' '] (Text.trimRight head) with
  | none =>
    have hconst := Text.splitLast?_singleton "const".toList _ (Text.not_mem_of_splitLast? h)
    rw [show "const".toList ++ ' ' :: Text.trimRight head =
      constPrefix ++ Text.trimRight head from rfl] at hconst
    simp only [hconst, h]
  | some parts => simp only [Text.splitLast?_append_left constPrefix h, h]

/-- In front of a text without marks at its end `const` changes nothing about the type, when it is
one. -/
theorem ofBase_constPrefix {s : Text} (hblank : ∀ c ∈ s.head?, isBlank c = false)
    (hbracket : s.head? ≠ some '<') :
    ofBase (constPrefix ++ s) = ofBase s ∨
      (ofBase (constPrefix ++ s)).isUnpointed ∧ (ofBase s).isUnpointed := by
  unfold ofBase
  rw [Text.splitFirst?_append_left s (show '<' ∉ constPrefix by decide)]
  cases h : Text.splitFirst? ['<'] s with
  | some parts =>
    obtain ⟨head, arguments⟩ := parts
    have hs := Text.eq_of_splitFirst? h
    left
    apply ofTemplate_constPrefix
    -- The text starts with no bracket, so a word precedes the arguments.
    cases head with
    | nil =>
      rw [hs] at hbracket
      exact absurd rfl hbracket
    | cons c cs =>
      rw [hs] at hblank
      exact Text.trimRight_ne_nil (hblank c rfl)
  | none =>
    apply ofWords_congr
    unfold unqualifiedWords
    rw [words_constPrefix, List.map_cons, List.filter_cons_of_neg (by decide)]

/-- In front of a type that is no pointer `const` changes nothing, when there can be pointers to
it. -/
theorem parse_constPrefix {u : Text} (hpointer : (parse u).isPointer = false)
    (hbracket : (Text.collapse u).head? ≠ some '<') :
    parse (constPrefix ++ u) = parse u ∨
      (parse (constPrefix ++ u)).isUnpointed ∧ (parse u).isUnpointed := by
  by_cases hwords : Text.words u = []
  · -- The text is blank.
    right
    have hblank : Text.collapse u = [] := by
      unfold Text.collapse
      rw [hwords]
      rfl
    have hconst : Text.collapse (constPrefix ++ u) = Text.collapse "const".toList := by
      unfold Text.collapse
      rw [words_constPrefix, hwords]
      decide
    rw [parse_congr hconst, parse_congr (hblank.trans (by decide : [] = Text.collapse []))]
    constructor <;> decide +kernel
  · -- Both texts lose the same qualifiers at the end; `s` is what is left of the text.
    have hstart := head?_dropOuterQualifiers (Text.collapse u)
    have htrimmed := (Text.singleSpaced_collapse u).toTrimmed
    rw [parse_eq] at hpointer ⊢
    rw [parse_eq, collapse_constPrefix hwords, dropOuterQualifiers_constPrefix]
    generalize dropOuterQualifiers (Text.collapse u) = s at hstart hpointer ⊢
    rw [← hstart] at hbracket
    have hne : s ≠ [] := by
      rintro rfl
      have hcollapse : Text.collapse u ≠ [] :=
        (Text.SingleSpaced.unwords fun _ hw => Text.mem_words hw).2 hwords
      exact hcollapse (List.head?_eq_none_iff.1 hstart.symm)
    have hlast : (constPrefix ++ s).getLast? = s.getLast? := List.getLast?_append_of_ne_nil _ hne
    have hbase := ofBase_constPrefix (s := s) (fun c hc => htrimmed.head c (hstart ▸ hc)) hbracket
    -- Both end alike, so they are read in the same way.
    unfold ofSpelling at hpointer ⊢
    rw [hlast]
    split
    · -- Dimensions make an array or no type at all, whatever precedes them.
      right
      constructor
      · split
        · rfl
        · split <;> rfl
      · split
        · rfl
        · split <;> rfl
    · rename_i hstar
      rw [hstar] at hpointer
      cases hpointer
    · exact .inr ⟨rfl, rfl⟩
    · exact hbase

end NativeBindings.CType
