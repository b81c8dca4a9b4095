import NativeBindings.Proofs.CType.Template

/-!
# The spelling of a base

A base that is read from a text is either no type, or its spelling is single-spaced and denotes the
same base again (`spelled_ofBase`): a builtin type has a spelling of its own, words are kept as they
are, and the name of a template instance is the name of that instance.
-/

namespace NativeBindings.CType

/-! ## Qualifiers -/

/-- What is left without the qualifiers behind the last mark is the whole text, or ends with that
mark. -/
theorem dropOuterQualifiers_cases (t : Text) :
    dropOuterQualifiers t = t ∨ EndsMark (dropOuterQualifiers t) := by
  fun_induction dropOuterQualifiers t with
  | case1 => exact .inl rfl
  | case2 t rest hsome _ rest' hmark ih =>
    right
    rcases ih with hsame | hends
    · rw [hsame]
      exact hmark
    · exact hends
  | case3 => exact .inl rfl

/-- No qualifiers are left behind the last mark. -/
theorem dropOuterQualifiers_dropOuterQualifiers (t : Text) :
    dropOuterQualifiers (dropOuterQualifiers t) = dropOuterQualifiers t := by
  rcases dropOuterQualifiers_cases t with hsame | hmark
  · rw [hsame, hsame]
  · exact dropOuterQualifiers_of_endsMark hmark

/-- Dropping qualifiers leaves a text single-spaced. -/
theorem singleSpaced_dropOuterQualifiers {t : Text} (h : Text.SingleSpaced t) :
    Text.SingleSpaced (dropOuterQualifiers t) := by
  -- Only an end of the text is dropped.
  have hprefix : dropOuterQualifiers t <+: t := by
    clear h
    fun_induction dropOuterQualifiers t with
    | case1 => exact List.prefix_rfl
    | case2 t rest hsome _ rest' hmark ih =>
      obtain ⟨q, -, rfl⟩ := beforeQualifier?_eq_some_iff.1 hsome
      have hrest : rest' ++ takeTrailing isBlank rest = rest := dropTrailing_append_takeTrailing _ _
      refine ih.trans ?_
      rw [← hrest, List.append_assoc]
      exact List.prefix_append _ _
    | case3 => exact List.prefix_rfl
  refine ⟨⟨fun c hc => ?_, fun c hc => ?_⟩, h.chain.infix hprefix.isInfix⟩
  · rw [head?_dropOuterQualifiers] at hc
    exact h.head c hc
  · -- The text is as it was, or it now ends with a mark.
    rcases dropOuterQualifiers_cases t with hsame | hmark
    · rw [hsame] at hc
      exact h.last c hc
    · rcases hmark with hlast | hlast
      · obtain rfl := Option.some.inj (hlast.symm.trans hc)
        decide
      · obtain rfl := Option.some.inj (hlast.symm.trans hc)
        decide

/-! ## Words -/

theorem ofBase_of_not_mem {s : Text} (h : '<' ∉ s) : ofBase s = ofWords s := by
  unfold ofBase
  rw [Text.splitFirst?_eq_none (List.mem_singleton_self '<') h]

/-- Words denote a builtin type whether or not a sign is given, but for the sign alone. -/
theorem ofBuiltin?_eq_none {isSigned isUnsigned : Bool} {word : String} (hword : word ≠ "")
    (h : ofBuiltin? isSigned isUnsigned word = none) : ofBuiltin? false false word = none := by
  unfold ofBuiltin? at h ⊢
  split at h
  any_goals cases h
  · exact absurd rfl hword
  · rfl

/-- A word that is no builtin type names a type by itself. -/
theorem ofWords_of_word {t : Text} {word : String} (h : unqualifiedWords t = [word])
    (hsigned : word ≠ "signed") (hunsigned : word ≠ "unsigned")
    (hbuiltin : ofBuiltin? false false word = none) : ofWords t = .named word := by
  have hcore : [word].filter (fun w => w != "unsigned" && w != "signed") = [word] := by
    simp [hsigned, hunsigned]
  have hin : ∀ w : String, w ≠ word → decide (w ∈ [word]) = false := fun w hw => by simpa using hw
  have hintercalate : " ".intercalate [word] = word := by simp
  unfold unqualifiedWords at h
  unfold ofWords
  simp only [h]
  rw [hcore, hin _ (Ne.symm hsigned), hin _ (Ne.symm hunsigned), hintercalate, hbuiltin]

/-! ## Spellings -/

/-- The spelling of a type denotes it as a base. -/
structure Spelled (t : CType) : Prop where
  /-- The spelling is single-spaced. -/
  singleSpaced : Text.SingleSpaced t.text.toList
  /-- The spelling is not empty. -/
  ne_nil : t.text.toList ≠ []
  /-- It denotes the type. -/
  ofBase_text : ofBase t.text.toList = t

theorem spelled_of_collapse {t : CType}
    (h : Text.collapse t.text.toList = t.text.toList ∧ t.text.toList ≠ [] ∧
      ofBase t.text.toList = t) : Spelled t :=
  ⟨h.1 ▸ Text.singleSpaced_collapse _, h.2.1, h.2.2⟩

theorem spelled_scalar (s : Scalar) : Spelled (.scalar s) := by
  apply spelled_of_collapse
  cases s <;> decide +kernel

theorem spelled_void : Spelled .void := by
  apply spelled_of_collapse
  decide +kernel

/-- A word of a text without arguments that is no qualifier. -/
structure IsNameWord (name : String) : Prop where
  /-- It is not empty. -/
  ne_nil : name.toList ≠ []
  /-- It holds no blanks. -/
  solid : Text.Solid name.toList
  /-- It has no template arguments. -/
  noArguments : '<' ∉ name.toList
  /-- It is no qualifier. -/
  notQualifier : (name != "const" && name != "volatile") = true

theorem isNameWord_of_mem {s : Text} (hs : '<' ∉ s) {name : String}
    (h : name ∈ unqualifiedWords s) : IsNameWord name := by
  obtain ⟨hmem, hname⟩ := List.mem_filter.1 h
  obtain ⟨w, hw, rfl⟩ := List.mem_map.1 hmem
  obtain ⟨hne, hsolid⟩ := Text.mem_words hw
  have hnot : '<' ∉ w := fun hin => hs ((Text.mem_iff_exists_word (by decide)).2 ⟨w, hw, hin⟩)
  rw [← String.toList_ofList (l := w)] at hne hsolid hnot
  exact ⟨hne, hsolid, hnot, hname⟩

theorem IsNameWord.words {name : String} (h : IsNameWord name) :
    Text.words name.toList = [name.toList] :=
  Text.words_of_solid h.ne_nil h.solid

/-- A kind of type and a name denote the type of that kind and name. -/
theorem spelled_of_keyword (keyword : String) {name : String} {t : CType} (h : IsNameWord name)
    (hkeyword : Text.Solid keyword.toList ∧ keyword.toList ≠ [] ∧ '<' ∉ keyword.toList ∧
      (keyword != "const" && keyword != "volatile") = true)
    (htext : t.text = keyword ++ " " ++ name)
    (ht : ∀ s : Text, unqualifiedWords s = [keyword, name] → ofWords s = t) : Spelled t := by
  obtain ⟨hsolid, hne, hnot, hkept⟩ := hkeyword
  have hlist : t.text.toList = keyword.toList ++ ' ' :: name.toList := by
    rw [htext]
    simp
  -- The spelling is single-spaced, has some text, and is read to the type by its two words.
  refine ⟨?_, ?_, ?_⟩
  · rw [hlist]
    exact (Text.SingleSpaced.of_solid hsolid).append_space (.of_solid h.solid) hne h.ne_nil
  · rw [hlist]
    simp
  · have hwords : unqualifiedWords t.text.toList = [keyword, name] := by
      unfold unqualifiedWords
      rw [hlist, Text.words_append_blank (by decide), Text.words_of_solid hne hsolid, h.words]
      simp only [List.singleton_append, List.map_cons, List.map_nil, String.ofList_toList]
      rw [List.filter_cons_of_pos (by exact hkept),
        List.filter_cons_of_pos (by exact h.notQualifier), List.filter_nil]
    have hopen : '<' ∉ t.text.toList := by
      rw [hlist, List.mem_append, List.mem_cons, not_or, not_or]
      exact ⟨hnot, by decide, h.noArguments⟩
    rw [ofBase_of_not_mem hopen, ht _ hwords]

theorem spelled_struct {name : String} (h : IsNameWord name) : Spelled (.struct name) := by
  apply spelled_of_keyword "struct" h
  · exact ⟨(allIdent_of_isIdentifier (by decide)).2.solid, by decide, by decide, by decide⟩
  · rfl
  · intro s hs
    unfold unqualifiedWords at hs
    unfold ofWords
    simp only [hs]

theorem spelled_enum {name : String} (h : IsNameWord name) : Spelled (.enum name) := by
  apply spelled_of_keyword "enum" h
  · exact ⟨(allIdent_of_isIdentifier (by decide)).2.solid, by decide, by decide, by decide⟩
  · rfl
  · intro s hs
    unfold unqualifiedWords at hs
    unfold ofWords
    simp only [hs]

/-- A word that is no builtin type is the name of a type. -/
theorem spelled_of_word {name : String} (h : IsNameWord name) (hsigned : name ≠ "signed")
    (hunsigned : name ≠ "unsigned") (hbuiltin : ofBuiltin? false false name = none) :
    Spelled (.named name) := by
  have hwords : unqualifiedWords name.toList = [name] := by
    unfold unqualifiedWords
    rw [h.words, List.map_singleton, String.ofList_toList,
      List.filter_cons_of_pos (by exact h.notQualifier), List.filter_nil]
  refine ⟨.of_solid h.solid, h.ne_nil, ?_⟩
  change ofBase name.toList = _
  rw [ofBase_of_not_mem h.noArguments, ofWords_of_word hwords hsigned hunsigned hbuiltin]

/-- The words of a text without arguments denote no type, or one that is spelled. -/
theorem spelled_ofWords {s : Text} (hs : '<' ∉ s) :
    (∃ u, ofWords s = .unparsed u) ∨ Spelled (ofWords s) := by
  have hname : ∀ {name : String}, name ∈ unqualifiedWords s → IsNameWord name :=
    isNameWord_of_mem hs
  unfold unqualifiedWords at hname
  unfold ofWords
  dsimp only
  -- No word, a keyword alone or with a name, or other words.
  split
  · exact .inl ⟨_, rfl⟩
  · rename_i name hwords
    exact .inr (spelled_struct (hname (by rw [hwords]; simp)))
  · rename_i name hwords
    exact .inr (spelled_struct (hname (by rw [hwords]; simp)))
  · rename_i name hwords
    exact .inr (spelled_struct (hname (by rw [hwords]; simp)))
  · rename_i name hwords
    exact .inr (spelled_enum (hname (by rw [hwords]; simp)))
  · split
    · rename_i hbuiltin
      rcases ofBuiltin?_cases hbuiltin with rfl | ⟨s, rfl⟩
      · exact .inr spelled_void
      · exact .inr (spelled_scalar s)
    · -- One word besides those of the sign, and there was none of these.
      rename_i name hbuiltin hcore
      right
      obtain ⟨hmem, hsign⟩ := List.mem_filter.1 (hcore ▸ List.mem_singleton_self name)
      have hword := hname hmem
      simp only [Bool.and_eq_true, bne_iff_ne] at hsign
      have hne : name ≠ "" := by
        rintro rfl
        exact hword.ne_nil rfl
      rw [hcore, show " ".intercalate [name] = name by simp] at hbuiltin
      exact spelled_of_word hword hsign.2 hsign.1 (ofBuiltin?_eq_none hne hbuiltin)
    · exact .inl ⟨_, rfl⟩

/-- The name of a template holds no blanks, since the only blanks in front of the arguments are
spaces. -/
theorem solid_templateName {head : Text} (h : ∀ c ∈ head, isBlank c → c = ' ') :
    Text.Solid (templateName head) := by
  obtain ⟨hsuffix, hspace⟩ := templateName_suffix head
  intro c hc
  by_contra hblank
  rw [Bool.not_eq_false] at hblank
  obtain rfl := h c (mem_of_mem_templateName hc) hblank
  exact hspace hc

/-- At the end of a single-spaced text, the arguments without the spaces that are glued are
single-spaced. -/
theorem singleSpaced_compact {head arguments : Text}
    (hs : Text.SingleSpaced (head ++ '<' :: arguments)) :
    Text.SingleSpaced (compact ('<' :: arguments)) := by
  have hchain := List.IsChain.infix hs.chain (List.suffix_append head ('<' :: arguments)).isInfix
  refine ⟨⟨fun c hc => ?_, fun c hc => ?_⟩, Text.isChain_dropSpaces hchain⟩
  · obtain rfl : '<' = c := Option.some.inj ((Text.head?_dropSpaces _).symm.trans hc)
    decide
  · unfold compact at hc
    rw [Text.getLast?_dropSpaces] at hc
    apply hs.last
    rw [List.getLast?_append_of_ne_nil _ (List.cons_ne_nil _ _)]
    exact hc

/-- The name of the instance of a template is the name of that instance. -/
theorem spelled_of_arguments {head arguments : Text} (hhead : '<' ∉ head)
    (hs : Text.SingleSpaced (head ++ '<' :: arguments)) :
    Spelled (.named (String.ofList (templateName head ++ compact ('<' :: arguments)))) := by
  -- The name in front of the arguments has no blank left, nor the arguments a space to drop.
  have hname : Text.Solid (templateName head) := by
    apply solid_templateName
    intro c hc hblank
    obtain ⟨before, behind, rfl⟩ := List.append_of_mem hc
    rw [List.append_assoc, List.cons_append] at hs
    exact (hs.of_append_blank hblank).1
  obtain ⟨rest, hrest⟩ : ∃ rest, compact ('<' :: arguments) = '<' :: rest :=
    List.head?_eq_some_iff.1 (Text.head?_dropSpaces ('<' :: arguments))
  have hchain := List.IsChain.infix hs.chain (List.suffix_append head ('<' :: arguments)).isInfix
  have hcompact : compact ('<' :: rest) = '<' :: rest := by
    rw [← hrest]
    exact Text.dropSpaces_dropSpaces hchain
  have hlist : ∀ name : Text, (named (String.ofList name)).text.toList = name :=
    fun _ => String.toList_ofList
  refine ⟨?_, ?_, ?_⟩
  · rw [hlist]
    exact (Text.SingleSpaced.of_solid hname).append (singleSpaced_compact hs)
  · rw [hlist, hrest]
    simp
  · rw [hlist, hrest, ofBase_of_arguments fun hin => hhead (mem_of_mem_templateName hin),
      templateName_of_solid hname, hcompact]

/-- A single-spaced text without marks at its end denotes no type, or one that is spelled. -/
theorem spelled_ofBase {s : Text} (hs : Text.SingleSpaced s) :
    (∃ u, ofBase s = .unparsed u) ∨ Spelled (ofBase s) := by
  by_cases hopen : '<' ∈ s
  · right
    obtain ⟨head, arguments, rfl, hhead⟩ := List.eq_append_cons_of_mem hopen
    rw [ofBase_of_arguments hhead]
    exact spelled_of_arguments hhead hs
  · rw [ofBase_of_not_mem hopen]
    exact spelled_ofWords hopen

end NativeBindings.CType
