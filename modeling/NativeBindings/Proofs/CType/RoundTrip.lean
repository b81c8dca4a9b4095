import NativeBindings.Proofs.CType.SpelledType

/-!
# Reading, spelling and reading again

Main statement: a type that is read from a text, spelled and read again is the same type exactly
when its base is denoted by the spelling of the base (`BaseSpelled`) and the one place where the
spelling writes `const`, in front of everything, tells which pointers and references are constant
(`ConstantsSpelled`): `parse_text_parse_iff`. A type that is constant on the outside only does not
come back (`parse_text_outer_constant`).
-/

namespace NativeBindings.CType

/-! ## Types that are read -/

/-- What holds of the bases that texts spell, and goes on to pointers, references and arrays, holds
of every type that a text spells. -/
theorem parse_induction {motive : CType → Prop} (base : ∀ t, (parse t).isBase → motive (parse t))
    (pointer : ∀ c t, motive t → motive (.pointer c t))
    (reference : ∀ c t, motive t → motive (.reference c t))
    (array : ∀ t length, length < Nat.pow 2 64 → motive t → motive (.array t length)) (t : Text) :
    motive (parse t) := by
  induction t using parse.induct with
  | case1 t _ s hlast hsplit =>
    apply base
    -- A bracket that nothing opens.
    rw [parse_eq]
    unfold ofSpelling
    simp only [s, hlast, hsplit, isBase]
  | case2 t _ s hlast before inside hsplit length hlength _ ih =>
    have hparse : parse t = .array (parse before) length := by
      rw [parse_eq]
      unfold ofSpelling
      simp only [s, hlast, hsplit, hlength]
    rw [hparse]
    exact array _ _ (Text.lt_of_natural64? hlength) ih
  | case3 t _ s hlast before inside hsplit hlength =>
    apply base
    -- What stands in the brackets is no length.
    rw [parse_eq]
    unfold ofSpelling
    simp only [s, hlast, hsplit, hlength, isBase]
  | case4 t _ s hlast _ ih =>
    have hparse : parse t =
        .pointer (isConstant (Text.trim s.dropLast)) (parse (Text.trim s.dropLast)) := by
      rw [parse_eq]
      unfold ofSpelling
      simp only [s, hlast]
    rw [hparse]
    exact pointer _ _ ih
  | case5 t _ s hlast _ ih =>
    have hparse : parse t =
        .reference (isConstant (Text.trim s.dropLast)) (parse (Text.trim s.dropLast)) := by
      rw [parse_eq]
      unfold ofSpelling
      simp only [s, hlast]
    rw [hparse]
    exact reference _ _ ih
  | case6 t _ s hbracket hstar hand =>
    apply base
    -- Neither a bracket nor a mark ends the text.
    rw [parse_eq, ofSpelling_eq_ofBase hbracket (not_or.2 ⟨hstar, hand⟩)]
    exact isBase_ofBase _

/-- The arrays of a type that is read have lengths that fit. -/
theorem lengthsFit_parse (t : Text) : LengthsFit (parse t) := by
  apply parse_induction
  case base =>
    intro u h
    cases hparse : parse u <;> rw [hparse] at h <;> trivial
  case pointer => exact fun _ _ h => h
  case reference => exact fun _ _ h => h
  case array => exact fun _ _ hlength h => ⟨hlength, h⟩

/-- The base of a type that is read is read from a text. -/
theorem exists_base_parse (t : Text) : ∃ u, (parse t).base = parse u ∧ (parse u).isBase := by
  apply parse_induction (motive := fun T => ∃ u, T.base = parse u ∧ (parse u).isBase)
  case base => exact fun u h => ⟨u, base_of_isBase h, h⟩
  case pointer => exact fun _ _ h => h
  case reference => exact fun _ _ h => h
  case array => exact fun _ _ _ h => h

/-! ## Bases that are read -/

/-- A text and what is left of it without its blanks and outer qualifiers spell one type. -/
theorem parse_dropOuterQualifiers_collapse (t : Text) :
    parse (dropOuterQualifiers (Text.collapse t)) = parse t := by
  have hspaced := singleSpaced_dropOuterQualifiers (Text.singleSpaced_collapse t)
  rw [parse_eq, parse_eq, hspaced.collapse_eq, dropOuterQualifiers_dropOuterQualifiers]

/-- A text that spells a base is no type, or has neither a dimension nor a mark at its end. -/
theorem ofSpelling_of_isBase {s : Text} (h : (ofSpelling s).isBase) :
    ofSpelling s = .unparsed (String.ofList s) ∨ s.getLast? ≠ some ']' ∧ ¬ EndsMark s := by
  unfold ofSpelling at h ⊢
  split at h
  · split at h
    · exact .inl rfl
    · split at h
      · cases h
      · exact .inl rfl
  · cases h
  · cases h
  · rename_i hbracket hstar hand
    exact .inr ⟨hbracket, not_or.2 ⟨hstar, hand⟩⟩

/-- What is no type is kept as it is. -/
theorem ofBase_eq_unparsed {s : Text} {u : String} (h : ofBase s = .unparsed u) :
    u = String.ofList s := by
  unfold ofBase at h
  split at h
  · cases h
  · unfold ofWords at h
    dsimp only at h
    split at h
    any_goals cases h
    · rfl
    · split at h
      · rename_i hbuiltin
        rcases ofBuiltin?_cases hbuiltin with rfl | ⟨s, rfl⟩ <;> cases h
      · cases h
      · cases h
        rfl

/-- A base that is no type is what is left of its text. -/
theorem toList_of_parse_eq_unparsed {t : Text} {u : String} (h : parse t = .unparsed u) :
    u.toList = dropOuterQualifiers (Text.collapse t) := by
  have hbase : (parse t).isBase := by rw [h]; rfl
  rw [parse_eq] at h hbase
  have hu : u = String.ofList (dropOuterQualifiers (Text.collapse t)) := by
    rcases ofSpelling_of_isBase hbase with hkept | ⟨hbracket, hmark⟩
    · exact unparsed.inj (h.symm.trans hkept)
    · rw [ofSpelling_eq_ofBase hbracket hmark] at h
      exact ofBase_eq_unparsed h
  rw [hu, String.toList_ofList]

/-- A base that is a type is denoted by its spelling. -/
theorem spelled_parse {t : Text} (hbase : (parse t).isBase)
    (htype : (parse t).isUnpointed = false) : Spelled (parse t) := by
  have hspaced := singleSpaced_dropOuterQualifiers (Text.singleSpaced_collapse t)
  rw [parse_eq] at hbase htype ⊢
  rcases ofSpelling_of_isBase hbase with hkept | ⟨hbracket, hmark⟩
  · rw [hkept] at htype
    cases htype
  · rw [ofSpelling_eq_ofBase hbracket hmark] at htype ⊢
    rcases spelled_ofBase hspaced with ⟨u, hu⟩ | hspelled
    · rw [hu] at htype
      cases htype
    · exact hspelled

/-! ## Reading the spelling of a base -/

/-- A text has neither a dimension nor a mark at its end, whatever qualifiers follow. -/
def HasPlainEnd (y : Text) : Prop := y.getLast? ≠ some ']' ∧ ¬ EndsMark (dropOuterQualifiers y)

/-- In front of a text `const` stays where it is, any number of times. -/
theorem dropOuterQualifiers_collapse_constPrefixes {y : Text} (hy : Text.SingleSpaced y)
    (hne : y ≠ []) (k : Nat) :
    dropOuterQualifiers (Text.collapse (constPrefixes k ++ y)) =
      constPrefixes k ++ dropOuterQualifiers y := by
  induction k with
  | zero => exact congrArg dropOuterQualifiers hy.collapse_eq
  | succ k ih =>
    have hwords : Text.words (constPrefixes k ++ y) ≠ [] := by
      cases k with
      | zero => exact hy.words_ne_nil hne
      | succ k =>
        rw [constPrefixes_succ, words_constPrefix]
        exact List.cons_ne_nil _ _
    rw [constPrefixes_succ, collapse_constPrefix hwords, dropOuterQualifiers_constPrefix, ih,
      constPrefixes_succ]

/-- In front of a text that denotes a type `const` changes nothing, any number of times, when the
text starts with no template arguments. -/
theorem ofBase_constPrefixes {y : Text} (hy : Text.SingleSpaced y)
    (htype : (ofBase y).isUnpointed = false) (hopen : y.head? ≠ some '<') (k : Nat) :
    ofBase (constPrefixes k ++ y) = ofBase y := by
  induction k with
  | zero => rfl
  | succ k ih =>
    -- What stands behind the first `const` starts with a letter of the next one, or as the text
    -- does.
    have hstart : ∀ c ∈ (constPrefixes k ++ y).head?, isBlank c = false ∧ c ≠ '<' := by
      intro c hc
      cases k with
      | zero =>
        refine ⟨hy.head c hc, ?_⟩
        rintro rfl
        exact hopen hc
      | succ k =>
        rw [constPrefixes_succ] at hc
        obtain rfl : 'c' = c := Option.some.inj hc
        decide
    have hstep := ofBase_constPrefix (fun c hc => (hstart c hc).1) fun hc => (hstart _ hc).2 rfl
    rw [← constPrefixes_succ, ih] at hstep
    rcases hstep with hsame | ⟨-, hno⟩
    · exact hsame
    · rw [htype] at hno
      cases hno

/-- In front of template arguments `const` is the name of the instance. -/
theorem ofBase_constPrefixes_ne (k : Nat) (arguments : Text) :
    ofBase (constPrefixes (k + 1) ++ '<' :: arguments) ≠ ofBase ('<' :: arguments) := by
  intro hsame
  have hfront : '<' ∉ constPrefixes (k + 1) := by
    intro hmem
    obtain ⟨w, hw, hmem⟩ := List.mem_flatten.1 hmem
    rw [(List.mem_replicate.1 hw).2] at hmem
    exact absurd hmem (by decide)
  have hname : templateName (constPrefixes (k + 1)) ≠ [] := by
    apply templateName_ne_nil
    rw [← List.append_nil (constPrefixes (k + 1)), constPrefixes_succ]
    exact Text.trimRight_ne_nil (by decide)
  have hempty : templateName [] = [] := templateName_of_solid (List.forall_mem_nil _)
  have hnone := ofBase_of_arguments List.not_mem_nil arguments
  rw [List.nil_append, hempty] at hnone
  rw [ofBase_of_arguments hfront, hnone, named.injEq, String.ofList_inj,
    List.append_cancel_right_eq] at hsame
  exact hname hsame

/-- Of a text that denotes a type, only template arguments at its start keep it from denoting the
same with `const` in front. -/
theorem ofBase_constPrefixes_iff {y : Text} (hy : Text.SingleSpaced y)
    (htype : (ofBase y).isUnpointed = false) (k : Nat) :
    ofBase (constPrefixes k ++ y) = ofBase y ↔ k = 0 ∨ y.head? ≠ some '<' := by
  by_cases hopen : y.head? = some '<'
  · obtain ⟨arguments, rfl⟩ := List.head?_eq_some_iff.1 hopen
    cases k with
    | zero => exact iff_of_true rfl (.inl rfl)
    | succ k => exact iff_of_false (ofBase_constPrefixes_ne k arguments) (by simp)
  · exact iff_of_true (ofBase_constPrefixes hy htype hopen k) (.inr hopen)

/-- The spelling of a type around which nothing is put is read as the type exactly when its end is
plain and no template arguments start it where `const` stands in front. -/
theorem Spelled.parse_constPrefixes_iff {b : CType} (h : Spelled b) (htype : b.isUnpointed = false)
    (k : Nat) :
    parse (constPrefixes k ++ b.text.toList) = b ↔
      HasPlainEnd b.text.toList ∧ (k = 0 ∨ b.text.toList.head? ≠ some '<') := by
  rw [parse_eq, dropOuterQualifiers_collapse_constPrefixes h.singleSpaced h.ne_nil]
  have hbase : b.isBase := h.ofBase_text ▸ isBase_ofBase _
  have hne : dropOuterQualifiers b.text.toList ≠ [] := by
    intro hnil
    have hhead := head?_dropOuterQualifiers b.text.toList
    rw [hnil] at hhead
    exact h.ne_nil (List.head?_eq_none_iff.1 hhead.symm)
  have hlast : ∀ {c : Char}, (constPrefixes k ++ dropOuterQualifiers b.text.toList).getLast? =
      some c ↔ (dropOuterQualifiers b.text.toList).getLast? = some c := by
    intro c
    rw [List.getLast?_append_of_ne_nil _ hne]
  -- The end of the text is that of the spelling. If it is plain, nothing is dropped, and the whole
  -- is read as a base.
  have hmark := endsMark_append (t := constPrefixes k) hne
  by_cases hplain : HasPlainEnd b.text.toList
  · have hsame := (dropOuterQualifiers_cases b.text.toList).resolve_right hplain.2
    rw [ofSpelling_eq_ofBase (fun hb => hplain.1 (hsame ▸ hlast.1 hb)) (hplain.2 ∘ hmark.1), hsame,
      and_iff_right hplain, ← ofBase_constPrefixes_iff h.singleSpaced (h.ofBase_text.symm ▸ htype),
      h.ofBase_text]
  · refine iff_of_false (fun hsame => ?_) fun hb => hplain hb.1
    -- A text that does not end plainly is no base.
    rcases ofSpelling_of_isBase (hsame.symm ▸ hbase) with hkept | ⟨hbracket, hplainEnd⟩
    · rw [← hsame, hkept] at htype
      cases htype
    · have hkept := (dropOuterQualifiers_cases b.text.toList).resolve_right (hplainEnd ∘ hmark.2)
      exact hplain ⟨fun hb => hbracket (hlast.2 (hkept.symm ▸ hb)), hplainEnd ∘ hmark.2⟩

/-- A base that is no type is read as it is, but not with `const` in front. -/
theorem parse_constPrefixes_unparsed_iff {t : Text} {u : String} (h : parse t = .unparsed u)
    (k : Nat) : parse (constPrefixes k ++ u.toList) = .unparsed u ↔ k = 0 := by
  have hu := toList_of_parse_eq_unparsed h
  cases k with
  | zero =>
    refine iff_of_true ?_ rfl
    change parse u.toList = _
    rw [hu, parse_dropOuterQualifiers_collapse, h]
  | succ k =>
    refine iff_of_false (fun hsame => ?_) (Nat.succ_ne_zero k)
    have hspaced := singleSpaced_dropOuterQualifiers (Text.singleSpaced_collapse t)
    rw [← hu] at hspaced
    -- What is kept of the text would be all of `u`.
    have hkept := toList_of_parse_eq_unparsed hsame
    by_cases hne : u.toList = []
    · have hwords : Text.words (constPrefixes (k + 1) ++ u.toList) ≠ [] := by
        rw [constPrefixes_succ, words_constPrefix]
        exact List.cons_ne_nil _ _
      have hhead := head?_dropOuterQualifiers (Text.collapse (constPrefixes (k + 1) ++ u.toList))
      rw [← hkept, hne, List.append_nil] at hhead
      rw [hne, List.append_nil] at hwords
      exact (Text.SingleSpaced.unwords fun _ hw => Text.mem_words hw).2 hwords
        (List.head?_eq_none_iff.1 hhead.symm)
    · rw [dropOuterQualifiers_collapse_constPrefixes hspaced hne, hu,
        dropOuterQualifiers_dropOuterQualifiers, List.self_eq_append_left] at hkept
      cases hkept

section

variable {t : Text} (hbase : (parse t).isBase)

include hbase

/-- The spelling of a base that is read is single-spaced. -/
theorem singleSpaced_text_parse : Text.SingleSpaced (parse t).text.toList := by
  by_cases htype : (parse t).isUnpointed
  · obtain ⟨u, hu⟩ := exists_eq_unparsed hbase htype
    have hkept := toList_of_parse_eq_unparsed hu
    rw [hu]
    change Text.SingleSpaced u.toList
    rw [hkept]
    exact singleSpaced_dropOuterQualifiers (Text.singleSpaced_collapse t)
  · exact (spelled_parse hbase (Bool.eq_false_iff.2 htype)).singleSpaced

/-- The spelling of a base that is read denotes it when it is no type or has a plain end, and with
`const` in front when it is a type and no template arguments start the spelling. -/
theorem parse_constPrefixes_text_parse_iff (k : Nat) :
    parse (constPrefixes k ++ (parse t).text.toList) = parse t ↔
      ((parse t).isUnpointed ∨ HasPlainEnd (parse t).text.toList) ∧
        (k = 0 ∨ (parse t).isUnpointed = false ∧ (parse t).text.toList.head? ≠ some '<') := by
  by_cases htype : (parse t).isUnpointed
  · obtain ⟨u, hu⟩ := exists_eq_unparsed hbase htype
    rw [hu]
    change parse (constPrefixes k ++ u.toList) = .unparsed u ↔ _
    rw [parse_constPrefixes_unparsed_iff hu]
    simp [isUnpointed]
  · rw [(spelled_parse hbase (Bool.eq_false_iff.2 htype)).parse_constPrefixes_iff
      (Bool.eq_false_iff.2 htype)]
    simp [htype]

end

/-! ## The round trip -/

/-- The base of a type is no type, or its spelling has neither a dimension nor a mark at its end. -/
def BaseSpelled (t : CType) : Prop := t.base.isUnpointed ∨ HasPlainEnd t.base.text.toList

/-- One `const` in front of everything tells which pointers and references of a type are constant:
there are none; or none is constant, and no other `const` is in the spelling; or all are, and
`const` can stand in front of the base. -/
def ConstantsSpelled (t : CType) : Prop :=
  t.levels = [] ∨
  (∀ c ∈ t.levels, c = false) ∧ isConstant t.base.text.toList = false ∨
  (∀ c ∈ t.levels, c = true) ∧ t.base.isUnpointed = false ∧ t.base.text.toList.head? ≠ some '<'

/-- Levels are what the first constant one and the base make of them exactly when they are all
alike. -/
theorem forall_level_eq_iff {levels : List Bool} {constant : Bool} {p : Prop} :
    (∀ c ∈ levels, c = (decide (0 < levels.count true) || constant)) ∧
        (levels.count true = 0 ∨ p) ↔
      levels = [] ∨ (∀ c ∈ levels, c = false) ∧ constant = false ∨
        (∀ c ∈ levels, c = true) ∧ p := by
  by_cases htrue : true ∈ levels
  · -- With a constant level all have to be constant.
    have hcount : 0 < levels.count true := List.count_pos_iff.2 htrue
    have hnot : ¬ ((∀ c ∈ levels, c = false) ∧ constant = false) :=
      fun h => Bool.noConfusion (h.1 true htrue)
    rw [decide_eq_true hcount, Bool.true_or, or_iff_right hcount.ne',
      or_iff_right (List.ne_nil_of_mem htrue), or_iff_right hnot]
  · -- With none, the base has to be as the levels are, if there are any.
    have hcount : levels.count true = 0 := List.count_eq_zero.2 htrue
    have hfalse : ∀ c ∈ levels, c = false := by
      intro c hc
      by_contra h
      rw [Bool.not_eq_false] at h
      exact htrue (h ▸ hc)
    rw [hcount, decide_eq_false (Nat.lt_irrefl 0), Bool.false_or, and_iff_left (.inl rfl)]
    constructor
    · intro h
      rcases levels with _ | ⟨c, levels⟩
      · exact .inl rfl
      · refine .inr (.inl ⟨hfalse, ?_⟩)
        rw [← h c List.mem_cons_self, hfalse c List.mem_cons_self]
    · rintro (rfl | ⟨-, rfl⟩ | ⟨h, -⟩)
      · nofun
      · exact hfalse
      · exact fun c hc => absurd (h c hc ▸ hc) htrue

/-- Reading a type, spelling it and reading it again gives the type exactly when the spelling of its
base denotes the base and one `const` in front tells which pointers and references are constant. -/
theorem parse_text_parse_iff (t : Text) :
    parse (parse t).text.toList = parse t ↔ BaseSpelled (parse t) ∧ ConstantsSpelled (parse t) := by
  obtain ⟨u, hu, hbase⟩ := exists_base_parse t
  unfold BaseSpelled ConstantsSpelled
  rw [parse_text_eq_iff (lengthsFit_parse t), hu, parse_constPrefixes_text_parse_iff hbase,
    (singleSpaced_text_parse hbase).collapse_eq, and_left_comm, forall_level_eq_iff]

/-- The `const` of the outer pointer is written in front of everything, and there it is the inner
pointer's too. -/
theorem parse_text_outer_constant :
    parse "char* const*".toList = .pointer true (.pointer false (.scalar .char)) ∧
      (parse "char* const*".toList).text = "const char**" ∧
      parse (parse "char* const*".toList).text.toList ≠ parse "char* const*".toList := by
  have hparse : parse "char* const*".toList = .pointer true (.pointer false (.scalar .char)) := by
    decide +kernel
  rw [hparse]
  exact ⟨rfl, rfl, by decide +kernel⟩

end NativeBindings.CType
