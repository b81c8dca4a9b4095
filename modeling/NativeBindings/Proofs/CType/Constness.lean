import NativeBindings.Proofs.CType.Qualifier
import NativeBindings.Proofs.Text.WordSearch

/-!
# Which pointers lead to constants

A pointer is read from its last star, and it counts as constant when `const` stands anywhere in
front of the star, not only where it qualifies what the pointer leads to
(`Star.WellFormed.parse_append`). So from the first `const` on every further pointer is read as
constant (`Star.parse_stars`), and the pointers are read as they are declared exactly when from
there on each level is constant (`PointerSpelling.parse_pointers`).
-/

namespace NativeBindings.CType

/-! ## Pointers around a type -/

/-- Pointers around a type, each constant or not, the innermost one first. -/
def pointers (t : CType) (constants : List Bool) : CType :=
  constants.foldl (fun target constant => .pointer constant target) t

theorem pointers_concat (t : CType) (cs : List Bool) (c : Bool) :
    pointers t (cs ++ [c]) = .pointer c (pointers t cs) := by
  unfold pointers
  rw [List.foldl_append, List.foldl_cons, List.foldl_nil]

/-- As many pointers around a type are the same only when the same ones are constant. -/
theorem pointers_inj {t : CType} {cs ds : List Bool} (hlength : cs.length = ds.length) :
    pointers t cs = pointers t ds ↔ cs = ds := by
  induction cs using List.reverseRecOn generalizing ds with
  | nil =>
    obtain rfl := List.length_eq_zero_iff.1 hlength.symm
    exact iff_of_true rfl rfl
  | append_singleton cs c ih =>
    rcases List.eq_nil_or_concat' ds with rfl | ⟨ds, d, rfl⟩
    · simp at hlength
    · have hshorter : cs.length = ds.length := by simpa using hlength
      rw [pointers_concat, pointers_concat, pointer.injEq, ih hshorter, List.append_singleton_inj,
        and_comm]

/-- Whether one of the values up to each place is true, or one before them. -/
def anySoFar (seen : Bool) : List Bool → List Bool
  | [] => []
  | c :: cs => (seen || c) :: anySoFar (seen || c) cs

theorem anySoFar_concat (seen : Bool) (cs : List Bool) (c : Bool) :
    anySoFar seen (cs ++ [c]) = anySoFar seen cs ++ [seen || (cs ++ [c]).any id] := by
  induction cs generalizing seen with
  | nil => simp [anySoFar]
  | cons d cs ih => simp [anySoFar, ih, Bool.or_assoc]

theorem length_anySoFar (seen : Bool) (cs : List Bool) :
    (anySoFar seen cs).length = cs.length := by
  induction cs generalizing seen with
  | nil => rfl
  | cons c cs ih => rw [anySoFar, List.length_cons, List.length_cons, ih]

/-- What is true is carried along to no place exactly when nothing false follows it. -/
theorem anySoFar_eq_iff (seen : Bool) (cs : List Bool) :
    anySoFar seen cs = cs ↔ (seen :: cs).IsChain (· ≤ ·) := by
  induction cs generalizing seen with
  | nil => exact iff_of_true rfl (.singleton seen)
  | cons c cs ih =>
    have hseen : (seen || c) = c ↔ seen ≤ c := by cases seen <;> cases c <;> decide
    rw [anySoFar, List.cons.injEq, List.isChain_cons_cons, ← hseen, ← ih c]
    constructor
    · rintro ⟨hc, hrest⟩
      rw [hc] at hrest
      exact ⟨hc, hrest⟩
    · rintro ⟨hc, hrest⟩
      rw [hc]
      exact ⟨rfl, hrest⟩

/-! ## The search for `const` -/

theorem allIdent_const : "const".toList ≠ [] ∧ AllIdent "const".toList :=
  allIdent_of_isIdentifier (by decide)

theorem findWord?_const : Text.findWord? "const".toList "const".toList ≠ none := by
  have hfound : Text.findWord? "const".toList ("const".toList ++ []) = some ([], []) :=
    Text.findWord?_append nofun
  rw [List.append_nil] at hfound
  rw [hfound]
  exact Option.some_ne_none _

/-- Without template arguments a text is constant when `const` stands in it, whatever blanks there
are. -/
theorem isConstant_collapse {t : Text} (hopen : '<' ∉ t) (hclose : '>' ∉ t) :
    isConstant (Text.collapse t) = (Text.findWord? "const".toList t).isSome := by
  have hnone := Text.findWord?_collapse_eq_none allIdent_const.1 allIdent_const.2 t
  unfold isConstant
  rw [outsideTemplates_of_not_mem (mt (Text.mem_collapse (by decide)).1 hopen)
    (mt (Text.mem_collapse (by decide)).1 hclose), Bool.eq_iff_iff, Option.isSome_iff_ne_none,
    Option.isSome_iff_ne_none, Ne, Ne, hnone]

/-! ## A star and its qualifier -/

/-- `const` behind the last mark of a text is dropped. -/
theorem parse_append_qualifier (t : Text) {gap : Text} (hgap : ∀ c ∈ gap, isBlank c) :
    parse (t ++ '*' :: (gap ++ "const".toList)) = parse (t ++ ['*']) := by
  have hmark : EndsMark (Text.collapse (t ++ ['*'])) :=
    .inl (Text.collapse_concat t (x := '*') (by decide)).1
  have hsolid : Text.Solid "const".toList := allIdent_const.2.solid
  -- The qualifier follows the mark right away, or one space behind it.
  obtain ⟨between, hbetween, hcollapse⟩ : ∃ between : Text, Text.trimRight between = [] ∧
      Text.collapse (t ++ '*' :: (gap ++ "const".toList)) =
        Text.collapse (t ++ ['*']) ++ between ++ "const".toList := by
    cases gap with
    | nil =>
      refine ⟨[], rfl, ?_⟩
      rw [List.append_nil, List.nil_append, List.append_cons,
        Text.collapse_append_word List.getLast?_concat (by decide) hsolid]
    | cons b gap =>
      obtain ⟨hb, hgap⟩ := List.forall_mem_cons.1 hgap
      refine ⟨[' '], rfl, ?_⟩
      have hwords : Text.words (t ++ ['*']) ≠ [] := by
        intro hnil
        refine hmark.ne_nil ?_
        unfold Text.collapse
        rw [hnil, Text.unwords_nil]
      have hconst : Text.words (gap ++ "const".toList) = ["const".toList] := by
        rw [Text.words_append_of_blank hgap, Text.words_of_solid allIdent_const.1 hsolid]
      rw [List.append_cons, List.cons_append]
      unfold Text.collapse
      rw [Text.words_append_blank hb, hconst, Text.unwords_concat hwords, List.append_assoc,
        List.singleton_append]
  -- So it is dropped together with what is between the mark and it.
  have hbefore : beforeQualifier? (Text.collapse (t ++ '*' :: (gap ++ "const".toList))) =
      some (Text.collapse (t ++ ['*']) ++ between) := by
    rw [beforeQualifier?_eq_some_iff]
    exact ⟨_, .head _, hcollapse⟩
  have htrim : Text.trimRight (Text.collapse (t ++ ['*']) ++ between) =
      Text.collapse (t ++ ['*']) := by
    rw [Text.trimRight_append_of_eq_nil hbetween,
      Text.trimRight_eq (Text.singleSpaced_collapse _).last]
  have hdrop := (dropOuterQualifiers_of_some hbefore).1
  rw [htrim] at hdrop
  rw [parse_eq, hdrop hmark, ← parse_eq]

/-- A star behind a type, with `const` behind it or without. -/
structure Star where
  /-- The blanks in front of the star. -/
  gap : Text := []
  /-- The blanks in front of `const`, where it follows. -/
  qualifier : Option Text := none
  deriving DecidableEq, Repr

namespace Star

/-- What is written behind the star. -/
def behind (s : Star) : Text := s.qualifier.elim [] (· ++ "const".toList)

/-- The text of a star. -/
def text (s : Star) : Text := s.gap ++ '*' :: s.behind

/-- Whether the pointer is qualified. -/
def constant (s : Star) : Bool := s.qualifier.isSome

/-- Only blanks stand around the star. -/
structure WellFormed (s : Star) : Prop where
  /-- Blanks stand in front of the star. -/
  gap : ∀ c ∈ s.gap, isBlank c
  /-- Blanks stand in front of `const`. -/
  qualifier : ∀ gap ∈ s.qualifier, ∀ c ∈ gap, isBlank c

instance (s : Star) : Decidable s.WellFormed :=
  have : DecidablePred fun gap : Text => ∀ c ∈ gap, isBlank c := fun gap => List.decidableBAll _ gap
  decidable_of_iff ((∀ c ∈ s.gap, isBlank c) ∧ ∀ gap ∈ s.qualifier, ∀ c ∈ gap, isBlank c)
    ⟨fun ⟨hgap, hqualifier⟩ => ⟨hgap, hqualifier⟩, fun h => ⟨h.gap, h.qualifier⟩⟩

variable {s : Star}

/-- Stars hold no brackets. -/
theorem WellFormed.not_mem (h : s.WellFormed) {c : Char} (hblank : isBlank c = false)
    (hc : c ∉ '*' :: "const".toList) : c ∉ s.text := by
  have hgap : ∀ gap : Text, (∀ x ∈ gap, isBlank x) → c ∉ gap := by
    intro gap hgap hmem
    rw [hgap c hmem] at hblank
    cases hblank
  rw [List.mem_cons, not_or] at hc
  unfold text behind
  rw [List.mem_append, List.mem_cons, not_or, not_or]
  refine ⟨hgap _ h.gap, hc.1, ?_⟩
  cases hq : s.qualifier with
  | none => exact List.not_mem_nil
  | some gap =>
    change c ∉ gap ++ "const".toList
    rw [List.mem_append, not_or]
    exact ⟨hgap gap (h.qualifier gap hq), hc.2⟩

/-- Behind a star `const` is found when it was found in front, or belongs to the star. -/
theorem WellFormed.findWord?_append (h : s.WellFormed) (t : Text) :
    Text.findWord? "const".toList (t ++ s.text) = none ↔
      Text.findWord? "const".toList t = none ∧ s.constant = false := by
  -- A star and the blanks around it part the words.
  have hstar : ∀ gap : Text, (∀ c ∈ gap, isBlank c) → ∀ c ∈ s.gap ++ '*' :: gap,
      isIdentChar c = false := by
    intro gap hgap c hc
    rcases List.mem_append.1 hc with hc | hc
    · exact isIdentChar_of_isBlank (h.gap c hc)
    · rcases List.mem_cons.1 hc with rfl | hc
      · decide
      · exact isIdentChar_of_isBlank (hgap c hc)
  unfold text behind constant
  cases hq : s.qualifier with
  | none =>
    have hsplit := Text.findWord?_append_gap_eq_none (t := t) (u := []) allIdent_const.2
      allIdent_const.1 (by simp) (hstar [] (by simp))
    rw [List.append_nil] at hsplit
    change Text.findWord? "const".toList (t ++ (s.gap ++ ['*'])) = none ↔ _
    rw [hsplit]
    exact and_congr_right fun _ =>
      iff_of_true (Text.findWord?_nil allIdent_const.2 allIdent_const.1) rfl
  | some gap =>
    have hsplit := Text.findWord?_append_gap_eq_none (t := t) (u := "const".toList)
      allIdent_const.2 allIdent_const.1 (by simp) (hstar gap (h.qualifier gap hq))
    rw [List.append_assoc, List.cons_append] at hsplit
    change Text.findWord? "const".toList (t ++ (s.gap ++ '*' :: (gap ++ "const".toList))) = none ↔ _
    rw [hsplit]
    exact and_congr_right fun _ => iff_of_false findWord?_const (by simp)

/-- A star makes a pointer, which is constant when what precedes it is. Whether the pointer is
qualified does not matter to it. -/
theorem WellFormed.parse_append (h : s.WellFormed) (t : Text) :
    parse (t ++ s.text) = .pointer (isConstant (Text.collapse t)) (parse t) := by
  have hdropped : parse (t ++ s.text) = parse ((t ++ s.gap) ++ ['*']) := by
    unfold text behind
    rw [← List.append_assoc]
    cases hq : s.qualifier with
    | none => rfl
    | some gap => exact parse_append_qualifier _ (h.qualifier gap hq)
  have hgap : Text.collapse (t ++ s.gap) = Text.collapse t := by
    unfold Text.collapse
    rw [Text.words_append_blanks h.gap]
  rw [hdropped, parse_concat_star, hgap, parse_congr hgap]

variable {t : Text} {ss : List Star}

/-- Behind stars `const` is found when it was found in front, or belongs to one of them. -/
theorem findWord?_stars (hss : ∀ s ∈ ss, s.WellFormed) :
    (Text.findWord? "const".toList (t ++ ss.flatMap text)).isSome =
      (((Text.findWord? "const".toList t).isSome) :: ss.map constant).any id := by
  induction ss generalizing t with
  | nil => simp
  | cons s ss ih =>
    obtain ⟨hs, hss⟩ := List.forall_mem_cons.1 hss
    have hone : (Text.findWord? "const".toList (t ++ s.text)).isSome =
        ((Text.findWord? "const".toList t).isSome || s.constant) := by
      rw [Bool.eq_iff_iff, Bool.or_eq_true, ← not_iff_not, not_or, Bool.not_eq_true,
        Bool.not_eq_true, Bool.not_eq_true, Option.isSome_eq_false_iff, Option.isSome_eq_false_iff,
        Option.isNone_iff_eq_none, Option.isNone_iff_eq_none, hs.findWord?_append]
    rw [List.flatMap_cons, ← List.append_assoc, ih hss, hone]
    simp [Bool.or_assoc]

/-- Stars make pointers, and each counts as constant when `const` stands in front of it. -/
theorem parse_stars (hopen : '<' ∉ t) (hclose : '>' ∉ t) (hss : ∀ s ∈ ss, s.WellFormed) :
    parse (t ++ ss.flatMap text) =
      pointers (parse t) (anySoFar false
        ((Text.findWord? "const".toList t).isSome :: ss.map constant).dropLast) := by
  -- A type is read from its last star, so the induction takes that one first.
  induction ss using List.reverseRecOn with
  | nil => rw [List.flatMap_nil, List.append_nil]; rfl
  | append_singleton ss s ih =>
    obtain ⟨hss, hs⟩ := List.forall_mem_append.1 hss
    -- No star brings a bracket with it, so `const` is looked for in all that stands in front.
    have hno : ∀ c, isBlank c = false → c ∉ '*' :: "const".toList → c ∉ t →
        c ∉ t ++ ss.flatMap text := by
      intro c hblank hc ht
      rw [List.mem_append, not_or]
      refine ⟨ht, fun hmem => ?_⟩
      obtain ⟨s', hs', hmem⟩ := List.mem_flatMap.1 hmem
      exact (hss s' hs').not_mem hblank hc hmem
    have hconstant := isConstant_collapse (hno '<' (by decide) (by decide) hopen)
      (hno '>' (by decide) (by decide) hclose)
    rw [findWord?_stars hss] at hconstant
    -- The last star does not count for itself, but those in front of it all do.
    have hlast : ((Text.findWord? "const".toList t).isSome ::
        (ss ++ [s]).map constant).dropLast =
          (Text.findWord? "const".toList t).isSome :: ss.map constant := by
      rw [List.map_append, List.map_singleton, ← List.cons_append, List.dropLast_concat]
    rw [List.flatMap_append, List.flatMap_singleton, ← List.append_assoc,
      (hs s (List.mem_singleton_self s)).parse_append, hconstant, ih hss, hlast]
    obtain ⟨cs, c, hcs⟩ := (List.eq_nil_or_concat' ((Text.findWord? "const".toList t).isSome ::
      ss.map constant)).resolve_left (List.cons_ne_nil _ _)
    rw [hcs, List.dropLast_concat, anySoFar_concat, pointers_concat, Bool.false_or]

end Star

/-! ## The base -/

/-- A word that names a type by itself: an identifier, with the scopes in front of it. -/
structure IsBaseWord (w : Text) : Prop where
  /-- It is not empty. -/
  ne_nil : w ≠ []
  /-- It holds identifiers and scope operators. -/
  chars : ∀ c ∈ w, isIdentChar c ∨ c = ':'
  /-- No identifier in it is `const`. -/
  notConst : Text.findWord? "const".toList w = none
  /-- It is not `volatile`. -/
  notVolatile : w ≠ "volatile".toList

instance (w : Text) : Decidable (IsBaseWord w) :=
  have : Decidable (∀ c ∈ w, isIdentChar c ∨ c = ':') := List.decidableBAll _ w
  decidable_of_iff (w ≠ [] ∧ (∀ c ∈ w, isIdentChar c ∨ c = ':') ∧
      Text.findWord? "const".toList w = none ∧ w ≠ "volatile".toList)
    ⟨fun ⟨hne, hchars, hconst, hvolatile⟩ => ⟨hne, hchars, hconst, hvolatile⟩,
      fun h => ⟨h.ne_nil, h.chars, h.notConst, h.notVolatile⟩⟩

theorem IsBaseWord.solid {w : Text} (h : IsBaseWord w) : Text.Solid w := by
  intro c hc
  rcases h.chars c hc with hc | rfl
  · exact not_isBlank_of_isIdentChar hc
  · decide

/-- It is no qualifier. -/
theorem IsBaseWord.not_qualifier {w : Text} (h : IsBaseWord w) :
    (String.ofList w != "const" && String.ofList w != "volatile") = true := by
  have hconst : w ≠ "const".toList := by
    rintro rfl
    exact findWord?_const h.notConst
  simpa [← String.toList_inj] using ⟨hconst, h.notVolatile⟩

/-- A builtin type is no value or a scalar. -/
theorem ofBuiltin?_cases {isSigned isUnsigned : Bool} {words : String} {t : CType}
    (h : ofBuiltin? isSigned isUnsigned words = some t) : t = .void ∨ ∃ s, t = .scalar s := by
  unfold ofBuiltin? at h
  split at h <;> (try split at h) <;> (try split at h) <;> cases h <;> simp

/-- A word by itself, qualifiers apart, is read as a type, and not as a pointer. -/
theorem ofWords_of_unqualifiedWords {t : Text} {w : String} (h : unqualifiedWords t = [w]) :
    (ofWords t).isPointer = false ∧ (ofWords t).isUnpointed = false := by
  have hbuiltin : ∀ {isSigned isUnsigned : Bool} {words : String} {t : CType},
      ofBuiltin? isSigned isUnsigned words = some t →
        t.isPointer = false ∧ t.isUnpointed = false := by
    intro isSigned isUnsigned words t ht
    rcases ofBuiltin?_cases ht with rfl | ⟨s, rfl⟩ <;> exact ⟨rfl, rfl⟩
  unfold unqualifiedWords at h
  unfold ofWords
  simp only [h]
  -- A sign alone is an integer. Any other word is a builtin type or a name.
  by_cases hw : w = "unsigned" ∨ w = "signed"
  · rcases hw with rfl | rfl <;> exact ⟨rfl, rfl⟩
  · rw [not_or] at hw
    have hcore : [w].filter (fun w => w != "unsigned" && w != "signed") = [w] := by simp [hw]
    rw [hcore]
    split
    · rename_i hsome
      exact hbuiltin hsome
    · exact ⟨rfl, rfl⟩
    · rename_i hne
      exact absurd rfl (hne w)

/-- Without marks no qualifiers are dropped. -/
theorem dropOuterQualifiers_eq {t : Text} (hstar : '*' ∉ t) (hand : '&' ∉ t) :
    dropOuterQualifiers t = t := by
  cases h : beforeQualifier? t with
  | none => exact dropOuterQualifiers_of_none h
  | some rest =>
    obtain ⟨q, -, rfl⟩ := beforeQualifier?_eq_some_iff.1 h
    refine (dropOuterQualifiers_of_some h).2 fun hmark => ?_
    have hrest : rest.trimRight ++ takeTrailing isBlank rest = rest :=
      dropTrailing_append_takeTrailing _ _
    rw [← hrest, List.append_assoc] at hstar hand
    rcases hmark with hlast | hlast
    · exact hstar (List.mem_append_left _ (List.mem_of_getLast? hlast))
    · exact hand (List.mem_append_left _ (List.mem_of_getLast? hlast))

/-- What a text of identifiers and scope operators does not hold. -/
theorem not_mem_of_chars {t : Text} (ht : ∀ c ∈ t, isBlank c ∨ isIdentChar c ∨ c = ':') {c : Char}
    (hblank : isBlank c = false) (hident : isIdentChar c = false) (hcolon : c ≠ ':') : c ∉ t := by
  intro hc
  rcases ht c hc with h | h | h
  · rw [hblank] at h
    cases h
  · rw [hident] at h
    cases h
  · exact hcolon h

/-- A text of identifiers and scope operators is read by its words. -/
theorem parse_eq_ofWords {t : Text} (ht : ∀ c ∈ t, isBlank c ∨ isIdentChar c ∨ c = ':') :
    parse t = ofWords (Text.collapse t) := by
  have hnot : ∀ {c : Char}, isBlank c = false → isIdentChar c = false → c ≠ ':' →
      c ∉ Text.collapse t := fun hblank hident hcolon hc =>
    not_mem_of_chars ht hblank hident hcolon ((Text.mem_collapse hblank).1 hc)
  have hstar : '*' ∉ Text.collapse t := hnot (by decide) (by decide) (by decide)
  have hand : '&' ∉ Text.collapse t := hnot (by decide) (by decide) (by decide)
  have hclose : ']' ∉ Text.collapse t := hnot (by decide) (by decide) (by decide)
  have hopen : '<' ∉ Text.collapse t := hnot (by decide) (by decide) (by decide)
  rw [parse_eq, dropOuterQualifiers_eq hstar hand]
  -- So there are no dimensions, no marks and no arguments to be read.
  unfold ofSpelling
  split
  · rename_i hlast
    exact absurd (List.mem_of_getLast? hlast) hclose
  · rename_i hlast
    exact absurd (List.mem_of_getLast? hlast) hstar
  · rename_i hlast
    exact absurd (List.mem_of_getLast? hlast) hand
  · unfold ofBase
    rw [Text.splitFirst?_eq_none (List.mem_singleton_self '<') hopen]

/-! ## Declared pointers -/

/-- A declared type: a base, with `const` in front of it or behind it, and stars. -/
structure PointerSpelling where
  /-- The blanks behind `const` in front of the base, where it stands there. -/
  front : Option Text := none
  /-- The base. -/
  base : Text
  /-- The blanks in front of `const` behind the base, where it stands there. -/
  behind : Option Text := none
  /-- The stars. -/
  stars : List Star
  deriving DecidableEq, Repr

namespace PointerSpelling

/-- The base with its qualifiers. -/
def qualifiedBase (p : PointerSpelling) : Text :=
  p.front.elim [] ("const".toList ++ ·) ++ (p.base ++ p.behind.elim [] (· ++ "const".toList))

/-- The text of a declared type. -/
def text (p : PointerSpelling) : Text := p.qualifiedBase ++ p.stars.flatMap Star.text

/-- Whether the base and each pointer is qualified, from the base on. -/
def constants (p : PointerSpelling) : List Bool :=
  (p.front.isSome || p.behind.isSome) :: p.stars.map Star.constant

/-- Whether each pointer leads directly to something that is qualified, from the innermost on: the
innermost leads to the base, and nothing leads to the outermost. -/
def direct (p : PointerSpelling) : List Bool := p.constants.dropLast

/-- What is asked of a declared type. -/
structure WellFormed (p : PointerSpelling) : Prop where
  /-- Its base is a word. -/
  base : IsBaseWord p.base
  /-- Blanks part `const` in front from the base. -/
  front : ∀ gap ∈ p.front, gap ≠ [] ∧ ∀ c ∈ gap, isBlank c
  /-- Blanks part `const` behind from the base. -/
  behind : ∀ gap ∈ p.behind, gap ≠ [] ∧ ∀ c ∈ gap, isBlank c
  /-- Its stars are well-formed. -/
  stars : ∀ s ∈ p.stars, s.WellFormed

instance (p : PointerSpelling) : Decidable p.WellFormed :=
  have : DecidablePred fun gap : Text => gap ≠ [] ∧ ∀ c ∈ gap, isBlank c := fun gap =>
    have : Decidable (∀ c ∈ gap, isBlank c) := List.decidableBAll _ gap
    inferInstance
  decidable_of_iff (IsBaseWord p.base ∧ (∀ gap ∈ p.front, gap ≠ [] ∧ ∀ c ∈ gap, isBlank c) ∧
      (∀ gap ∈ p.behind, gap ≠ [] ∧ ∀ c ∈ gap, isBlank c) ∧ ∀ s ∈ p.stars, s.WellFormed)
    ⟨fun ⟨hbase, hfront, hbehind, hstars⟩ => ⟨hbase, hfront, hbehind, hstars⟩,
      fun h => ⟨h.base, h.front, h.behind, h.stars⟩⟩

variable {p : PointerSpelling}

/-- The words of the base are the base and the qualifiers around it. -/
theorem WellFormed.words_qualifiedBase (h : p.WellFormed) :
    Text.words p.qualifiedBase =
      p.front.elim [] (fun _ => ["const".toList]) ++
        p.base :: p.behind.elim [] (fun _ => ["const".toList]) := by
  have hconst : Text.words "const".toList = ["const".toList] :=
    Text.words_of_solid allIdent_const.1 allIdent_const.2.solid
  have hbase : Text.words p.base = [p.base] := Text.words_of_solid h.base.ne_nil h.base.solid
  have hbehind : Text.words (p.base ++ p.behind.elim [] (· ++ "const".toList)) =
      p.base :: p.behind.elim [] (fun _ => ["const".toList]) := by
    cases hq : p.behind with
    | none => rw [Option.elim_none, Option.elim_none, List.append_nil, hbase]
    | some gap =>
      obtain ⟨hne, hgap⟩ := h.behind gap hq
      rw [Option.elim_some, Option.elim_some, Text.words_append_gap hne hgap, hbase, hconst]
      rfl
  -- Behind `const` in front come the base and the qualifier behind it.
  unfold qualifiedBase
  cases hq : p.front with
  | none => rw [Option.elim_none, Option.elim_none, List.nil_append, hbehind, List.nil_append]
  | some gap =>
    obtain ⟨hne, hgap⟩ := h.front gap hq
    rw [Option.elim_some, Option.elim_some, List.append_assoc, Text.words_append_gap hne hgap,
      hconst, hbehind]

/-- The base holds identifiers, scope operators and blanks. -/
theorem WellFormed.chars_qualifiedBase (h : p.WellFormed) :
    ∀ c ∈ p.qualifiedBase, isBlank c ∨ isIdentChar c ∨ c = ':' := by
  have hblank : ∀ {gap : Text}, (gap ≠ [] ∧ ∀ c ∈ gap, isBlank c) →
      ∀ c ∈ gap, isBlank c ∨ isIdentChar c ∨ c = ':' := fun hgap c hc => .inl (hgap.2 c hc)
  have hconst : ∀ c ∈ "const".toList, isBlank c ∨ isIdentChar c ∨ c = ':' := fun c hc =>
    .inr (.inl (allIdent_const.2 c hc))
  unfold qualifiedBase
  simp only [List.forall_mem_append]
  refine ⟨?_, fun c hc => .inr (h.base.chars c hc), ?_⟩
  · cases hq : p.front with
    | none => exact fun c hc => absurd hc List.not_mem_nil
    | some gap => exact List.forall_mem_append.2 ⟨hconst, hblank (h.front gap hq)⟩
  · cases hq : p.behind with
    | none => exact fun c hc => absurd hc List.not_mem_nil
    | some gap => exact List.forall_mem_append.2 ⟨hblank (h.behind gap hq), hconst⟩

/-- The base is read like its word, and not as a pointer. -/
theorem WellFormed.parse_qualifiedBase (h : p.WellFormed) :
    parse p.qualifiedBase = parse p.base ∧ (parse p.base).isPointer = false := by
  -- Apart from qualifiers the base is one word.
  have hkept := h.base.not_qualifier
  have hbase : unqualifiedWords (Text.collapse p.base) = [String.ofList p.base] := by
    unfold unqualifiedWords
    rw [Text.words_collapse, Text.words_of_solid h.base.ne_nil h.base.solid, List.map_singleton,
      List.filter_cons_of_pos (by exact hkept), List.filter_nil]
  have hqualified : unqualifiedWords (Text.collapse p.qualifiedBase) = [String.ofList p.base] := by
    unfold unqualifiedWords
    rw [Text.words_collapse, h.words_qualifiedBase, List.map_append, List.map_cons,
      List.filter_append, List.filter_cons_of_pos (by exact hkept)]
    cases p.front <;> cases p.behind <;> rfl
  rw [parse_eq_ofWords h.chars_qualifiedBase,
    parse_eq_ofWords fun c hc => .inr (h.base.chars c hc)]
  obtain ⟨hpointer, hunpointed⟩ := ofWords_of_unqualifiedWords hbase
  refine ⟨?_, hpointer⟩
  rcases ofWords_congr (hqualified.trans hbase.symm) with hsame | ⟨-, hno⟩
  · exact hsame
  · rw [hno] at hunpointed
    cases hunpointed

/-- `const` is found in the base with its qualifiers when the base is qualified. -/
theorem WellFormed.findWord?_qualifiedBase (h : p.WellFormed) :
    (Text.findWord? "const".toList p.qualifiedBase).isSome =
      (p.front.isSome || p.behind.isSome) := by
  have hnot : ∀ gap : Text, (gap ≠ [] ∧ ∀ c ∈ gap, isBlank c) → ∀ c ∈ gap, isIdentChar c = false :=
    fun gap hgap c hc => isIdentChar_of_isBlank (hgap.2 c hc)
  -- The base is no `const` itself, so only the qualifier behind it can be found.
  have hbehind : Text.findWord? "const".toList (p.base ++ p.behind.elim [] (· ++ "const".toList)) =
      none ↔ p.behind = none := by
    cases hq : p.behind with
    | none =>
      rw [Option.elim_none, List.append_nil]
      exact iff_of_true h.base.notConst rfl
    | some gap =>
      have hgap := h.behind gap hq
      rw [Option.elim_some, Text.findWord?_append_gap_eq_none allIdent_const.2 allIdent_const.1
        hgap.1 (hnot gap hgap)]
      exact iff_of_false (fun hnone => findWord?_const hnone.2) (Option.some_ne_none gap)
  -- The one in front is found, or none is in front.
  have hnone : Text.findWord? "const".toList p.qualifiedBase = none ↔
      p.front = none ∧ p.behind = none := by
    unfold qualifiedBase
    cases hq : p.front with
    | none => rw [Option.elim_none, List.nil_append, hbehind, and_iff_right rfl]
    | some gap =>
      have hgap := h.front gap hq
      rw [Option.elim_some, List.append_assoc, Text.findWord?_append_gap_eq_none allIdent_const.2
        allIdent_const.1 hgap.1 (hnot gap hgap)]
      exact iff_of_false (fun hnone => findWord?_const hnone.1)
        fun hnone => Option.some_ne_none gap hnone.1
  rw [Bool.eq_iff_iff, ← not_iff_not, Bool.not_eq_true, Bool.not_eq_true,
    Option.isSome_eq_false_iff, Option.isNone_iff_eq_none, hnone, Bool.or_eq_false_iff]
  simp

/-- A declared type is read as a pointer for each star, around its base. A pointer is constant when
the base or any pointer inside it is qualified, so the pointers are those that are declared
exactly when behind the first level that is qualified each further level is, but for the
outermost. -/
theorem parse_pointers (h : p.WellFormed) :
    (parse p.base).isPointer = false ∧
      parse p.text = pointers (parse p.base) (anySoFar false p.direct) ∧
      (parse p.text = pointers (parse p.base) p.direct ↔ p.direct.IsChain (· ≤ ·)) := by
  obtain ⟨hbase, hpointer⟩ := h.parse_qualifiedBase
  have hopen : '<' ∉ p.qualifiedBase :=
    not_mem_of_chars h.chars_qualifiedBase (by decide) (by decide) (by decide)
  have hclose : '>' ∉ p.qualifiedBase :=
    not_mem_of_chars h.chars_qualifiedBase (by decide) (by decide) (by decide)
  have htext : parse p.text = pointers (parse p.base) (anySoFar false p.direct) := by
    unfold text direct constants
    rw [Star.parse_stars hopen hclose h.stars, h.findWord?_qualifiedBase, hbase]
  have hfalse : (false :: p.direct).IsChain (· ≤ ·) ↔ p.direct.IsChain (· ≤ ·) := by
    rw [List.isChain_cons]
    exact and_iff_right fun c _ => Bool.false_le c
  refine ⟨hpointer, htext, ?_⟩
  rw [htext, pointers_inj (length_anySoFar _ _), anySoFar_eq_iff, hfalse]

/-- A type with `const` behind the base and behind its first star, which both further pointers lead
to: all is read as it is declared. -/
theorem parse_pointers_mesh :
    let p : PointerSpelling :=
      { base := "ON_Mesh".toList, behind := some [' '],
        stars := [{ qualifier := some [] }, { gap := [' '] }] }
    p.WellFormed ∧ p.text = "ON_Mesh const*const *".toList ∧
      parse p.text = .pointer true (.pointer true (.named "ON_Mesh")) := by
  intro p
  have hp : p.WellFormed := by decide +kernel
  refine ⟨hp, by decide, ?_⟩
  have hdirect : p.direct.IsChain (· ≤ ·) := by decide
  rw [(parse_pointers hp).2.2.2 hdirect]
  decide +kernel

/-- A pointer to a pointer to constant characters: the outer pointer leads to one that may be
changed, and is read as a pointer to a constant. -/
theorem parse_pointers_string :
    let p : PointerSpelling := { front := some [' '], base := "char".toList, stars := [{}, {}] }
    p.WellFormed ∧ p.text = "const char**".toList ∧ p.direct = [true, false] ∧
      parse p.text = .pointer true (.pointer true (.scalar .char)) ∧
      parse p.text ≠ pointers (parse p.base) p.direct := by
  intro p
  exact ⟨by decide +kernel, by decide, by decide, by decide +kernel, by decide +kernel⟩

end PointerSpelling

end NativeBindings.CType
