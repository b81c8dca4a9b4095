import NativeBindings.Proofs.Declaration.DefaultValue

/-!
# The place of a tag

A tag that is written inside the type of a parameter, with blanks around it, moves to the front of
the type (`TypeText.withTag_spec`), and does not matter to the name. Behind the last tag a
part of the type has to stand: so the parameter is read from every place of the tag but the one
between the type and the name, and its type is spelled as without the tag where a blank would not
matter either (`Parameter.parse?_tagged`).
-/

namespace NativeBindings

open TypeText

/-! ## Parts of a parameter -/

section Parts

variable {t body dimensions before name type : Text} {p : Parameter}

/-- Cutting off dimensions changes blanks only. -/
theorem splitDimensions?_spec (h : splitDimensions? t = some (body, dimensions)) :
    (body ++ dimensions).filter (!isBlank ·) = t.filter (!isBlank ·) ∧
      (∀ c ∈ body.getLast?, isBlank c = false) ∧
      (dimensions = [] ∧ body = t.trimRight ∨ dimensions.getLast? = some ']') := by
  induction hn : t.length using Nat.strongRecOn generalizing t body dimensions with
  | ind n ih =>
    rw [splitDimensions?_eq] at h
    split at h
    · rename_i hbracket
      simp only [Option.bind_eq_some_iff, Option.map_eq_some_iff, Prod.exists, Prod.mk.injEq] at h
      obtain ⟨before, inside, hcut, body', dimensions', hbefore, rfl, rfl⟩ := h
      have hshorter : before.length < n := hn ▸ length_lt_of_dimension hcut
      obtain ⟨hfilter, hlast, -⟩ := ih before.length hshorter hbefore rfl
      -- The text ends with the dimension.
      obtain ⟨front, hfront⟩ := List.getLast?_eq_some_iff.1 hbracket
      have hwhole : t.trimRight = before ++ '[' :: (inside ++ [']']) := by
        have hinside := Text.eq_of_splitLast? hcut
        rw [hfront, List.dropLast_concat] at hinside
        rw [hfront, hinside]
        simp
      refine ⟨?_, hlast, .inr (by rw [List.getLast?_concat])⟩
      have hopening : ∀ u : Text, ('[' :: u).filter (!isBlank ·) = '[' :: u.filter (!isBlank ·) :=
        fun u => List.filter_cons_of_pos (by decide)
      rw [List.filter_append] at hfilter
      rw [← Text.filter_trimRight t, hwhole]
      simp only [List.filter_append, hopening, Text.filter_trim, ← hfilter]
      simp
    · simp only [Option.some.injEq, Prod.mk.injEq] at h
      obtain ⟨rfl, rfl⟩ := h
      exact ⟨by rw [List.append_nil, Text.filter_trimRight], (takeTrailing_spec isBlank t).2,
        .inl ⟨rfl, rfl⟩⟩

/-- A parameter is a type and a name in front of its dimensions. -/
theorem Parameter.exists_of_parse? (h : Parameter.parse? t = some p) :
    ∃ type name dimensions,
      splitDimensions? (withoutDefault t.collapse) = some (type ++ name, dimensions) ∧
      trailingWord (type ++ name) = name ∧ isIdentifier name ∧ String.ofList name ∉ typeWords ∧
      (behindComments type.trim).trim ≠ [] ∧
      p = ⟨String.ofList (tidy (type.trim ++ dimensions)), String.ofList name⟩ := by
  cases hsplit : splitDimensions? (withoutDefault t.collapse) with
  | none =>
    unfold Parameter.parse? at h
    rw [hsplit] at h
    cases h
  | some r =>
    obtain ⟨body, dimensions⟩ := r
    obtain ⟨-, hlast, -⟩ := splitDimensions?_spec hsplit
    -- The name is the last word of the body.
    obtain ⟨type, hbody⟩ : ∃ type, body = type ++ trailingWord body := by
      refine ⟨dropTrailing (fun c => isIdentChar c || 128 ≤ c.toNat) body, ?_⟩
      unfold trailingWord
      rw [Text.trimRight_eq hlast, dropTrailing_append_takeTrailing]
    have hname : trailingWord (type ++ trailingWord body) = trailingWord body := by rw [← hbody]
    have hread := hsplit
    rw [hbody] at hread
    rw [Parameter.parse?_of_split hread hname] at h
    split_ifs at h with hrefused hempty
    simp only [Bool.or_eq_true, Bool.not_eq_true', decide_eq_true_eq, not_or, Bool.not_eq_false]
      at hrefused
    rw [List.isEmpty_iff] at hempty
    exact ⟨type, _, dimensions, by rw [← hbody], hname, hrefused.1, hrefused.2, hempty,
      (Option.some.inj h).symm⟩

/-- In front of a default value stands the parameter, and behind it an equals sign. -/
theorem eq_of_beforeDefaultAt? {depth : Int} (h : beforeDefaultAt? depth t = some before) :
    ∃ value, t = before ++ '=' :: value := by
  induction t generalizing depth before with
  | nil => cases h
  | cons c t ih =>
    rw [beforeDefaultAt?] at h
    split at h
    · rename_i hc
      cases h
      exact ⟨t, by rw [hc.1, List.nil_append]⟩
    · obtain ⟨front, hfront, rfl⟩ := Option.map_eq_some_iff.1 h
      obtain ⟨value, rfl⟩ := ih hfront
      exact ⟨value, rfl⟩

/-- Two texts have no default value when the second has none at the depth behind the first. -/
theorem beforeDefaultAt?_append_eq_none_iff (depth : Int) (t u : Text) :
    beforeDefaultAt? depth (t ++ u) = none ↔
      beforeDefaultAt? depth t = none ∧ beforeDefaultAt? (depth + netNesting t) u = none := by
  rw [beforeDefaultAt?_append, Option.or_eq_none_iff, Option.map_eq_none_iff]

/-- Blanks do not matter to whether there is a default value. -/
theorem beforeDefaultAt?_filter_eq_none_iff (depth : Int) (t : Text) :
    beforeDefaultAt? depth (t.filter (!isBlank ·)) = none ↔ beforeDefaultAt? depth t = none := by
  induction t generalizing depth with
  | nil => rfl
  | cons c t ih =>
    by_cases hc : isBlank c = true
    · have hequals : c ≠ '=' := by
        rintro rfl
        exact absurd hc (by decide)
      rw [List.filter_cons_of_neg (by simp [hc]), ih, beforeDefaultAt?,
        if_neg fun hand => hequals hand.1, (nesting_of_isBlank hc).1, Int.add_zero,
        Option.map_eq_none_iff]
    · rw [List.filter_cons_of_pos (by simp [hc]), beforeDefaultAt?, beforeDefaultAt?]
      split
      · rfl
      · rw [Option.map_eq_none_iff, Option.map_eq_none_iff, ih]

/-- A default value that is cut off has characters. -/
theorem beforeDefaultAt?_eq_none_of_length
    (h : (t.filter (!isBlank ·)).length ≤ ((withoutDefault t).filter (!isBlank ·)).length) :
    beforeDefaultAt? 0 t = none := by
  cases hcut : beforeDefaultAt? 0 t with
  | none => rfl
  | some before =>
    obtain ⟨value, hvalue⟩ := eq_of_beforeDefaultAt? hcut
    have hbefore : withoutDefault t = before.trim := by
      unfold withoutDefault
      rw [hcut]
    rw [hbefore, Text.filter_trim, hvalue, List.filter_append,
      List.filter_cons_of_pos (by decide), List.length_append, List.length_cons] at h
    omega

end Parts

/-! ## A type and a name -/

section Name

variable {t name : Text}

/-- Where a word starts behind a text, a name behind it collapses to the last word. -/
theorem exists_collapse_name
    (ht : ∀ c ∈ t.getLast?, isBlank c ∨ isIdentChar c = false ∧ c.toNat < 128)
    (hname : isIdentifier name) :
    ∃ type, Text.collapse (t ++ name) = type ++ name ∧ type.trim = t.collapse ∧
      trailingWord (type ++ name) = name := by
  obtain ⟨hne, hident⟩ := allIdent_of_isIdentifier hname
  obtain ⟨x, rest, rfl⟩ := List.exists_cons_of_ne_nil hne
  have hx : isBlank x = false := hident.solid x (.head rest)
  have hrest : Text.Solid rest := fun c hc => hident.solid c (.tail x hc)
  obtain ⟨gap, hfirst, hgap⟩ := Text.exists_collapse_concat t hx
  have htrimmed := (Text.singleSpaced_collapse t).toTrimmed
  refine ⟨t.collapse ++ gap, ?_, ?_, ?_⟩
  · rw [List.append_cons, Text.collapse_append_word List.getLast?_concat hx hrest, hfirst,
      List.append_assoc, List.singleton_append]
  · -- Between the two stands nothing, or one space.
    rcases hgap with ⟨rfl, -⟩ | ⟨rfl, hnot⟩
    · rw [List.append_nil, htrimmed.trim_eq]
    · exact Text.trim_append_blank (by decide) htrimmed hnot
  · have hstarts : StartsWord (t.collapse ++ gap) := by
      rcases hgap with ⟨rfl, hnil | ⟨c, hc, hblank⟩⟩ | ⟨rfl, -⟩
      · rw [hnil]
        exact fun c hc => by cases hc
      · -- The text ends with the same character as before.
        obtain ⟨front, rfl⟩ := List.getLast?_eq_some_iff.1 hc
        rw [List.append_nil]
        intro d hd
        rw [(Text.collapse_concat front hblank).1] at hd
        cases hd
        exact (ht c hc).resolve_left (by simp [hblank])
      · intro c hc
        rw [List.getLast?_concat] at hc
        cases hc
        decide
    rw [hstarts.trailingWord_append (Text.trimRight_ne_nil hx), hident.trailingWord_eq]

/-- Where a name is the last word of a text, a word starts behind the text in front. -/
theorem starts_of_trailingWord {type : Text} (hname : isIdentifier name)
    (hcollapse : Text.collapse (t ++ name) = type ++ name)
    (hlast : trailingWord (type ++ name) = name) :
    ∀ c ∈ t.getLast?, isBlank c ∨ isIdentChar c = false ∧ c.toNat < 128 := by
  obtain ⟨-, hident⟩ := allIdent_of_isIdentifier hname
  intro c hc
  by_contra hword
  rw [not_or, Bool.not_eq_true] at hword
  obtain ⟨front, rfl⟩ := List.getLast?_eq_some_iff.1 hc
  have hends := (Text.singleSpaced_collapse (front ++ [c] ++ name)).last
  rw [hcollapse] at hends
  -- The name goes to the last word of the text, so it starts behind the same character.
  rw [Text.collapse_append_word hc hword.1 hident.solid] at hcollapse
  obtain rfl := List.append_cancel_right hcollapse
  exact hword.2 (startsWord_of_trailingWord_eq hends hlast c
    (Text.collapse_concat front hword.1).1)

/-- A parameter that is a type and a name. -/
structure TypeThenName (t name : Text) : Prop where
  /-- The name is an identifier. -/
  ident : isIdentifier name
  /-- The name is no word of types. -/
  notType : String.ofList name ∉ typeWords
  /-- A word starts behind the type. -/
  starts : ∀ c ∈ t.getLast?, isBlank c ∨ isIdentChar c = false ∧ c.toNat < 128
  /-- No default value is in it. -/
  noDefault : beforeDefaultAt? 0 (t ++ name) = none

/-- A type and a name are read. -/
theorem TypeThenName.parse?_eq (h : TypeThenName t name) :
    Parameter.parse? (t ++ name) =
      if (behindComments t.collapse).trim.isEmpty then none
      else some ⟨String.ofList (tidy t.collapse), String.ofList name⟩ := by
  obtain ⟨type, hcollapse, htype, hlast⟩ := exists_collapse_name h.starts h.ident
  obtain ⟨hne, hident⟩ := allIdent_of_isIdentifier h.ident
  -- No default value is cut off, and no dimension, for the text ends with the name.
  have hdefault : withoutDefault (Text.collapse (t ++ name)) = type ++ name := by
    have hnone : beforeDefaultAt? 0 (Text.collapse (t ++ name)) = none := by
      rw [← beforeDefaultAt?_filter_eq_none_iff, Text.filter_collapse,
        beforeDefaultAt?_filter_eq_none_iff]
      exact h.noDefault
    unfold withoutDefault
    rw [hnone, hcollapse]
  have hend : (type ++ name).getLast? = some (name.getLast hne) := by
    rw [List.getLast?_append_of_ne_nil _ hne, List.getLast?_eq_some_getLast hne]
  have hendIdent : isIdentChar (name.getLast hne) := hident _ (List.getLast_mem hne)
  have htrim : Text.trimRight (type ++ name) = type ++ name := Text.trimRight_eq fun c hc => by
    rw [hend] at hc
    cases hc
    exact not_isBlank_of_isIdentChar hendIdent
  have hbracket : (type ++ name).getLast? ≠ some ']' := by
    rw [hend]
    intro hsome
    rw [Option.some.inj hsome] at hendIdent
    cases hendIdent
  have hsplit : splitDimensions? (withoutDefault (Text.collapse (t ++ name))) =
      some (type ++ name, []) := by
    rw [hdefault, splitDimensions?_none (by rwa [htrim]), htrim]
  rw [Parameter.parse?_of_split hsplit hlast, h.ident, if_neg (by simp [h.notType]), htype,
    List.append_nil]

/-- A parameter without tags that is read as a text and a name is a type and a name. -/
theorem TypeThenName.of_parse? (hslash : '/' ∉ t)
    (h : Parameter.parse? (t ++ name) = some ⟨String.ofList (tidy t), String.ofList name⟩) :
    TypeThenName t name := by
  obtain ⟨type, name', dimensions, hsplit, hlast, hident, hnot, -, heq⟩ :=
    Parameter.exists_of_parse? h
  rw [Parameter.mk.injEq, String.ofList_inj, String.ofList_inj] at heq
  obtain ⟨htidy, rfl⟩ := heq
  obtain ⟨hne, hname⟩ := allIdent_of_isIdentifier hident
  obtain ⟨hfilter, -, hdimensions⟩ := splitDimensions?_spec hsplit
  -- The type has the characters of the text, so the rest has those of the name.
  have htype : (type ++ dimensions).filter (!isBlank ·) = t.filter (!isBlank ·) := by
    have hslash' : '/' ∉ type.trim ++ dimensions := by
      rwa [← mem_tidy (by decide), ← htidy, mem_tidy (by decide)]
    have hplain := congrArg (List.filter (!isBlank ·)) htidy
    rw [tidy_eq_tidyPlain hslash, tidy_eq_tidyPlain hslash', filter_tidyPlain, filter_tidyPlain,
      List.filter_append, Text.filter_trim, ← List.filter_append] at hplain
    exact hplain.symm
  have hkept := hname.solid.filter_eq
  have hcollapse : (Text.collapse (t ++ name)).filter (!isBlank ·) =
      t.filter (!isBlank ·) ++ name := by
    rw [Text.filter_collapse, List.filter_append, hkept]
  -- So no character is left for a default value.
  have hcount := congrArg List.length htype
  have hcount' := congrArg List.length hfilter
  rw [List.filter_append, List.length_append] at hcount
  rw [List.filter_append, List.filter_append, hkept, List.length_append, List.length_append]
    at hcount'
  have hdefault : beforeDefaultAt? 0 (Text.collapse (t ++ name)) = none :=
    beforeDefaultAt?_eq_none_of_length (by rw [hcollapse, List.length_append]; omega)
  have hwhole : withoutDefault (Text.collapse (t ++ name)) = Text.collapse (t ++ name) := by
    unfold withoutDefault
    rw [hdefault]
  rw [hwhole] at hfilter hdimensions
  -- The text ends with the name, and so with no dimension.
  have hend : dimensions.getLast? ≠ some ']' := by
    intro hsome
    obtain ⟨front, rfl⟩ := List.getLast?_eq_some_iff.1 hsome
    rw [hcollapse, ← List.append_assoc, List.filter_append,
      List.filter_cons_of_pos (by decide), List.filter_nil] at hfilter
    have hlast := congrArg List.getLast? hfilter
    rw [List.getLast?_concat, List.getLast?_append_of_ne_nil _ hne] at hlast
    exact hname.not_mem (by decide) (List.mem_of_getLast? hlast.symm)
  obtain ⟨rfl, hbody⟩ := hdimensions.resolve_right hend
  have htrim := Text.trimRight_eq (Text.singleSpaced_collapse (t ++ name)).last
  rw [htrim] at hbody
  refine ⟨hident, hnot, starts_of_trailingWord hident hbody.symm hlast, ?_⟩
  rw [← beforeDefaultAt?_filter_eq_none_iff, ← Text.filter_collapse,
    beforeDefaultAt?_filter_eq_none_iff]
  exact hdefault

end Name

/-! ## Tags -/

/-- The text of a tag. -/
def TypeText.tag (content : Text) : Text := ['/', '*'] ++ content ++ ['*', '/']

/-- Two texts with a tag between them, and blanks around it. -/
def TypeText.withTag (a content b : Text) : Text := a ++ ' ' :: (tag content ++ ' ' :: b)

section Tag

variable {a b content name : Text}

/-- No blank stands in a tag, and it does not start a word or a default value. -/
theorem TypeText.solid_tag (hcontent : isIdentifier content) : Text.Solid (tag content) := by
  obtain ⟨-, hident⟩ := allIdent_of_isIdentifier hcontent
  unfold tag
  intro c hc
  simp only [List.mem_append, List.mem_cons, List.not_mem_nil, or_false] at hc
  rcases hc with ((rfl | rfl) | hc) | rfl | rfl
  · decide
  · decide
  · exact hident.solid c hc
  · decide
  · decide

/-- A tag holds no default value, and leaves the depth as it is. -/
theorem TypeText.tag_noDefault (hcontent : isIdentifier content) :
    '=' ∉ tag content ∧ netNesting (tag content) = 0 := by
  obtain ⟨-, hident⟩ := allIdent_of_isIdentifier hcontent
  have hopening : netNesting ['/', '*'] = 0 := by decide
  have hclosing : netNesting ['*', '/'] = 0 := by decide
  have hlevel : netNesting content = 0 := (level_zero_iff.1 (.of_allIdent hident)).2
  unfold tag
  refine ⟨?_, by rw [netNesting_append, netNesting_append, hopening, hlevel, hclosing]; rfl⟩
  simp [hident.not_mem (c := '=') (by decide)]

/-- Without blanks around them, the parts of a text with a tag. -/
theorem TypeText.exists_collapse_withTag (hcontent : isIdentifier content) (a b : Text) :
    ∃ front behind, Text.collapse (withTag a content b) = front ++ tag content ++ behind ∧
      Text.words front = Text.words a ∧ Text.words behind = Text.words b := by
  have hne : tag content ≠ [] := List.cons_ne_nil _ _
  have hwords : Text.words (withTag a content b) =
      Text.words a ++ tag content :: Text.words b := by
    unfold withTag
    rw [Text.words_append_blank (by decide), Text.words_append_blank (by decide),
      Text.words_of_solid hne (solid_tag hcontent), List.singleton_append]
  obtain ⟨front, behind, hsplit, hfront, hbehind⟩ :=
    Text.exists_unwords_eq (Text.words a) (tag content) (Text.words b)
  refine ⟨front, behind, ?_, ?_, ?_⟩
  · unfold Text.collapse
    rw [hwords, hsplit]
  · -- Each part is empty, or has a space between it and the tag.
    rcases hfront with ⟨rfl, hnil⟩ | rfl
    · rw [hnil, Text.words_nil]
    · rw [Text.words_concat_blank (by decide)]
      exact Text.words_collapse a
  · rcases hbehind with ⟨rfl, hnil⟩ | rfl
    · rw [hnil, Text.words_nil]
    · rw [Text.words_cons_blank (by decide)]
      exact Text.words_collapse b

/-- A comment in a type moves to the front. -/
theorem TypeText.tidy_of_splitComment? {t before content after : Text}
    (h : splitComment? t.trim = some (before, content, after)) :
    tidy t = Text.unwords (tag content :: [tidy (before ++ ' ' :: after)].filter (!·.isEmpty)) := by
  rw [tidy]
  split
  · rename_i hnone
    rw [hnone] at h
    cases h
  · rename_i hsome
    rw [hsome] at h
    cases h
    split
    · rename_i hnil
      rw [hnil]
      exact (Text.unwords_singleton _).symm
    · rename_i hne
      rw [List.filter_cons_of_pos (by simpa using hne), List.filter_nil,
        Text.unwords_cons (List.cons_ne_nil _ []), Text.unwords_singleton]
      rfl

/-- The tag of a text is its first comment, and its last one. -/
theorem TypeText.comment_of_tag (hcontent : isIdentifier content) {front behind : Text}
    (hfront : '/' ∉ front) (hbehind : '/' ∉ behind) :
    splitComment? (front ++ tag content ++ behind) = some (front, content, behind) ∧
      behindComments (front ++ tag content ++ behind) = behind := by
  obtain ⟨-, hident⟩ := allIdent_of_isIdentifier hcontent
  -- The delimiters are those of the tag: the first one that opens, the first and the last one that
  -- close.
  have hopening : Text.splitFirst? ['/', '*'] (front ++ tag content ++ behind) =
      some (front, content ++ (['*', '/'] ++ behind)) := by
    have hfirst := Text.splitFirst?_pattern hfront ['*'] (content ++ (['*', '/'] ++ behind))
    unfold tag
    simpa using hfirst
  have hclosing : Text.splitFirst? ['*', '/'] (content ++ (['*', '/'] ++ behind)) =
      some (content, behind) :=
    Text.splitFirst?_pattern (hident.not_mem (by decide)) ['/'] behind
  have hlast : Text.splitLast? ['*', '/'] (front ++ tag content ++ behind) =
      some (front ++ ['/', '*'] ++ content, behind) := by
    have hpair := Text.splitLast?_pair (a := '*') (by decide) hbehind
      (front ++ ['/', '*'] ++ content)
    unfold tag
    simpa using hpair
  unfold splitComment? behindComments
  rw [hopening, hlast, Option.bind_eq_bind, Option.bind_some]
  dsimp only
  rw [hclosing]
  exact ⟨rfl, rfl⟩

/-- Behind a tag something has to stand; and a type with a tag is spelled with the tag in front. -/
theorem TypeText.withTag_spec (hslash : '/' ∉ a ++ b) (hcontent : isIdentifier content) :
    ((behindComments (withTag a content b).collapse).trim = [] ↔ ∀ c ∈ b, isBlank c) ∧
      ((¬ ∀ c ∈ b, isBlank c) → tidy (withTag a content b).collapse =
        tag content ++ ' ' :: tidyPlain (a ++ ' ' :: b)) := by
  obtain ⟨front, behind, hcollapse, hfront, hbehind⟩ := exists_collapse_withTag hcontent a b
  rw [List.mem_append, not_or] at hslash
  -- Around the tag there is no slash, as there is none in the parts.
  have hkept : ∀ {t s : Text}, Text.words t = Text.words s → '/' ∉ s → '/' ∉ t := by
    intro t s hwords hs
    rwa [Text.mem_iff_exists_word (by decide), hwords, ← Text.mem_iff_exists_word (by decide)]
  have hfrontSlash := hkept hfront hslash.1
  have hbehindSlash := hkept hbehind hslash.2
  obtain ⟨hcomment, hlast⟩ := comment_of_tag hcontent hfrontSlash hbehindSlash
  have htrim := (Text.singleSpaced_collapse (withTag a content b)).trim_eq
  rw [← hcollapse] at hcomment hlast
  rw [← htrim] at hcomment
  refine ⟨?_, fun hblank => ?_⟩
  · rw [hlast, Text.trim_eq_nil_iff, ← Text.words_eq_nil_iff, hbehind, Text.words_eq_nil_iff]
  · -- Without the tag the type is spelled like the two parts with a space between them.
    have hplain : tidy (front ++ ' ' :: behind) = tidyPlain (a ++ ' ' :: b) := by
      have hnone : '/' ∉ front ++ ' ' :: behind := by simp [hfrontSlash, hbehindSlash]
      rw [tidy_eq_tidyPlain hnone]
      refine tidyPlain_congr ?_
      rw [Text.words_append_blank (by decide), Text.words_append_blank (by decide), hfront,
        hbehind]
    have hne : tidyPlain (a ++ ' ' :: b) ≠ [] := by
      intro hnil
      have hfilter := filter_tidyPlain (a ++ ' ' :: b)
      rw [hnil, eq_comm, List.filter_nil, List.filter_eq_nil_iff] at hfilter
      exact hblank fun c hc => by simpa using hfilter c (by simp [hc])
    rw [tidy_of_splitComment? hcomment, hplain, List.filter_cons_of_pos (by simpa using hne),
      List.filter_nil, Text.unwords_cons (List.cons_ne_nil _ []), Text.unwords_singleton]

/-- A tag inside the type of a parameter does not matter to the name. -/
theorem TypeThenName.withTag (h : TypeThenName (a ++ b) name) (hcontent : isIdentifier content) :
    TypeThenName (TypeText.withTag a content b) name := by
  obtain ⟨hequals, hnet⟩ := tag_noDefault hcontent
  have hspace : netNesting [' '] = 0 := by decide
  have hparts : TypeText.withTag a content b = a ++ [' '] ++ tag content ++ [' '] ++ b := by
    unfold TypeText.withTag
    simp
  refine ⟨h.ident, h.notType, fun c hc => ?_, ?_⟩
  · -- Behind the tag there is a blank at least.
    rw [hparts, List.getLast?_append] at hc
    cases hb : b.getLast? with
    | none =>
      rw [hb, Option.none_or, List.getLast?_concat] at hc
      cases hc
      exact .inl (by decide)
    | some d =>
      rw [hb, Option.some_or] at hc
      exact h.starts c (by rw [List.getLast?_append, hb, Option.some_or]; exact hc)
  · -- Neither the tag nor the spaces have an equals sign, and their brackets balance.
    have hdefault := h.noDefault
    rw [List.append_assoc, beforeDefaultAt?_append_eq_none_iff, Int.zero_add] at hdefault
    have hnone : ∀ depth, beforeDefaultAt? depth [' '] = none :=
      beforeDefaultAt?_eq_none (by decide)
    rw [hparts]
    simp only [List.append_assoc, beforeDefaultAt?_append_eq_none_iff, hnone,
      beforeDefaultAt?_eq_none hequals, hspace, hnet, Int.add_zero, Int.zero_add, true_and]
    rwa [← beforeDefaultAt?_append_eq_none_iff (netNesting a)]

/-- Wherever a tag stands in the type of a parameter, the parameter is read with its name and with
the tag in front of its type, unless nothing but blanks stands between the tag and the name; and the
type is spelled as without the tag exactly where a blank does not matter. -/
theorem Parameter.parse?_tagged (hslash : '/' ∉ a ++ b) (hcontent : isIdentifier content)
    (h : Parameter.parse? (a ++ b ++ name) =
      some ⟨String.ofList (tidy (a ++ b)), String.ofList name⟩) :
    ((∀ c ∈ b, isBlank c) → Parameter.parse? (withTag a content b ++ name) = none) ∧
      ((¬ ∀ c ∈ b, isBlank c) → Parameter.parse? (withTag a content b ++ name) =
        some ⟨String.ofList (tag content ++ ' ' :: tidy (a ++ ' ' :: b)), String.ofList name⟩) ∧
      (Parameter.parse? (withTag a content b ++ name) =
          some ⟨String.ofList (tag content ++ ' ' :: tidy (a ++ b)), String.ofList name⟩ ↔
        (¬ ∀ c ∈ b, isBlank c) ∧
          ∀ x ∈ a.getLast?, ∀ y ∈ b.head?, isBlank x ∨ isBlank y ∨ glued x y) := by
  have hread := ((TypeThenName.of_parse? hslash h).withTag hcontent).parse?_eq
  obtain ⟨hbehind, hspelled⟩ := withTag_spec hslash hcontent
  have hspaced : '/' ∉ a ++ ' ' :: b := by
    rw [List.mem_append, not_or] at hslash
    simp [hslash]
  have hspace := tidyPlain_blank_iff (c := ' ') (by decide) a b
  rw [tidy_eq_tidyPlain hspaced, tidy_eq_tidyPlain hslash, ← hspace, hread]
  simp only [List.isEmpty_iff, hbehind]
  -- With nothing but blanks behind the tag there is no parameter.
  by_cases hb : ∀ c ∈ b, isBlank c
  · rw [if_pos hb]
    exact ⟨fun _ => rfl, fun hnot => absurd hb hnot, iff_of_false (by simp) fun hand => hand.1 hb⟩
  · rw [if_neg hb, hspelled hb]
    refine ⟨fun hblank => absurd hblank hb, fun _ => rfl, ?_⟩
    rw [and_iff_right hb, Option.some.injEq, Parameter.mk.injEq, String.ofList_inj,
      List.append_cancel_left_eq, List.cons.injEq]
    simp

/-- A tag in front of a type, and one between its marks, move to the front. -/
theorem Parameter.parse?_tagged_pointer :
    Parameter.parse? "const int* * x".toList = some ⟨"const int**", "x"⟩ ∧
      Parameter.parse? " /*ARRAY*/ const int* * x".toList =
        some ⟨"/*ARRAY*/ const int**", "x"⟩ ∧
      Parameter.parse? "const int* /*ARRAY*/  * x".toList =
        some ⟨"/*ARRAY*/ const int**", "x"⟩ := by
  have hplain : Parameter.parse? "const int* * x".toList = some ⟨"const int**", "x"⟩ := by
    decide +kernel
  have htype : String.ofList (tidy "const int* * ".toList) = "const int**" := by decide +kernel
  have htagged : String.ofList (tag "ARRAY".toList ++ ' ' :: tidy "const int* * ".toList) =
      "/*ARRAY*/ const int**" := by decide +kernel
  have hname : String.ofList ['x'] = "x" := by decide
  have hread : Parameter.parse? ("const int* * ".toList ++ ['x']) =
      some ⟨String.ofList (tidy "const int* * ".toList), String.ofList ['x']⟩ := by
    rw [htype, hname]
    exact hplain
  have hcontent : isIdentifier "ARRAY".toList := by decide
  have hstar : ∀ {b : Text}, '*' ∈ b → ¬ ∀ c ∈ b, isBlank c := fun hb hblank =>
    absurd (hblank '*' hb) (by decide)
  -- Each place splits the type into what stands in front of the tag and what stands behind it.
  have hfront := (Parameter.parse?_tagged (a := []) (b := "const int* * ".toList) (by decide)
    hcontent hread).2.2.2 ⟨hstar (by decide), fun x hx => by cases hx⟩
  have hinside := (Parameter.parse?_tagged (a := "const int*".toList) (b := " * ".toList)
    (by decide) hcontent hread).2.2.2 ⟨hstar (by decide), fun x _ y hy => by
      cases hy
      exact .inr (.inl rfl)⟩
  have hfrontText : withTag [] "ARRAY".toList "const int* * ".toList ++ ['x'] =
      " /*ARRAY*/ const int* * x".toList := by decide
  have hinsideText : withTag "const int*".toList "ARRAY".toList " * ".toList ++ ['x'] =
      "const int* /*ARRAY*/  * x".toList := by decide
  rw [hfrontText, List.nil_append, htagged, hname] at hfront
  have hsame : "const int*".toList ++ " * ".toList = "const int* * ".toList := by decide
  rw [hinsideText, hsame, htagged, hname] at hinside
  exact ⟨hplain, hfront, hinside⟩

/-- Between a type and a name a tag is not read. -/
theorem Parameter.tag_at_name :
    Parameter.parse? "int* x".toList = some ⟨"int*", "x"⟩ ∧
      Parameter.parse? "int* /*ARRAY*/ x".toList = none := by
  decide +kernel

end Tag

end NativeBindings
