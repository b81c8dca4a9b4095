import NativeBindings.Proofs.Declaration.Division
import NativeBindings.Proofs.Declaration.Parameter

/-!
# Default values

A default value is cut off at the first equals sign outside brackets. But before that the list is
divided at its commas, with the default values in it, and there `<` and `>` count as brackets
wherever they stand. So the parameters of a list are the same with default values and without them
(`readParameters_fullList`) as long as the values are level; and this is exactly when the list is
divided between the same parameters (`divided_iff`).
-/

namespace NativeBindings

/-! ## Cutting off a default value -/

variable {depth : Int} {t u : Text}

/-- The search for an equals sign goes on behind a text without one. -/
theorem beforeDefaultAt?_append (depth : Int) (t u : Text) :
    beforeDefaultAt? depth (t ++ u) = (beforeDefaultAt? depth t).or
      ((beforeDefaultAt? (depth + netNesting t) u).map (t ++ ·)) := by
  induction t generalizing depth with
  | nil =>
    rw [List.nil_append, netNesting_nil, Int.add_zero]
    exact Option.map_id'.symm
  | cons c t ih =>
    rw [List.cons_append]
    by_cases hc : c = '=' ∧ depth = 0
    · rw [beforeDefaultAt?, if_pos hc, beforeDefaultAt?, if_pos hc]
      rfl
    · rw [beforeDefaultAt?, if_neg hc, beforeDefaultAt?, if_neg hc, ih, netNesting_cons,
        Int.add_assoc, Option.map_or, Option.map_map]
      rfl

/-- A default value behind a text with balanced brackets is cut off. -/
theorem withoutDefault_append (ht : Text.Trimmed t) (hne : t ≠ []) (hnet : netNesting t = 0)
    (u : Text) : withoutDefault (t ++ ' ' :: '=' :: u) = withoutDefault t := by
  have hequals : beforeDefaultAt? 0 (' ' :: '=' :: u) = some [' '] := by
    have hspace : nesting ' ' = 0 := by decide
    rw [beforeDefaultAt?, if_neg (by decide), hspace, Int.add_zero, beforeDefaultAt?,
      if_pos ⟨rfl, rfl⟩]
    rfl
  unfold withoutDefault
  rw [beforeDefaultAt?_append, hnet, Int.add_zero, hequals]
  cases beforeDefaultAt? 0 t with
  | some before => rfl
  | none => exact Text.trim_append_blank (by decide) ht hne

/-- Further blanks do not matter to a parameter. -/
theorem Parameter.parse?_collapse (t : Text) :
    Parameter.parse? t.collapse = Parameter.parse? t := by
  unfold Parameter.parse?
  rw [Text.collapse_collapse]

/-- A text without dimensions whose last word is no name declares no parameter. -/
theorem Parameter.parse?_eq_none (hlast : (withoutDefault t.collapse).trimRight.getLast? ≠ some ']')
    (hname : isIdentifier (trailingWord (withoutDefault t.collapse).trimRight) →
      String.ofList (trailingWord (withoutDefault t.collapse).trimRight) ∈ typeWords) :
    Parameter.parse? t = none := by
  have hrefused : (!isIdentifier (trailingWord (withoutDefault t.collapse).trimRight) ||
      decide (String.ofList (trailingWord (withoutDefault t.collapse).trimRight) ∈ typeWords)) := by
    rw [Bool.or_eq_true, Bool.not_eq_true', decide_eq_true_eq]
    exact (Bool.eq_false_or_eq_true _).symm.imp_right hname
  unfold Parameter.parse?
  rw [splitDimensions?_none hlast, Option.bind_eq_bind, Option.bind_some]
  dsimp only
  rw [if_pos hrefused]

/-- A parameter has words. -/
theorem Parameter.words_ne_nil (h : (Parameter.parse? t).isSome) : t.words ≠ [] := by
  intro hnil
  have hcollapse : t.collapse = [] := by
    unfold Text.collapse
    rw [hnil, Text.unwords_nil]
  have hnone : Parameter.parse? [] = none := Parameter.parse?_eq_none (by decide) (by decide)
  rw [← parse?_collapse, hcollapse, hnone] at h
  cases h

/-- A parameter with a default value is read like the parameter, when its brackets balance. -/
theorem Parameter.parse?_append (h : (Parameter.parse? t).isSome) (hnet : netNesting t = 0)
    (e : Text) : Parameter.parse? (t ++ ' ' :: '=' :: ' ' :: e) = Parameter.parse? t := by
  have hwords := Parameter.words_ne_nil h
  have hequals : Text.words ['='] = [['=']] :=
    Text.words_of_solid (by simp) fun c hc => by
      rw [List.mem_singleton.1 hc]
      decide
  have hvalue : Text.words ('=' :: ' ' :: e) = ['='] :: Text.words e := by
    have hsplit := Text.words_append_blank (c := ' ') (by decide) ['='] e
    rw [hequals] at hsplit
    exact hsplit
  obtain ⟨tail, htail⟩ : ∃ tail, Text.unwords (['='] :: Text.words e) = '=' :: tail := by
    cases Text.words e with
    | nil => exact ⟨[], Text.unwords_singleton ['=']⟩
    | cons v vs => exact ⟨' ' :: Text.unwords (v :: vs), Text.unwords_cons (by simp) ['=']⟩
  -- The sign stands behind the collapsed parameter, with one space in front of it.
  have hcollapse : Text.collapse (t ++ ' ' :: '=' :: ' ' :: e) =
      t.collapse ++ ' ' :: '=' :: tail := by
    unfold Text.collapse
    rw [Text.words_append_blank (by decide), hvalue, Text.unwords_append hwords (by simp), htail]
  have hne : t.collapse ≠ [] := (Text.SingleSpaced.unwords fun _ hw => Text.mem_words hw).2 hwords
  unfold Parameter.parse?
  rw [hcollapse, withoutDefault_append (Text.singleSpaced_collapse t).toTrimmed hne
    (by rw [netNesting_collapse, hnet])]

/-- The words of a parameter are read to the parameter. -/
theorem readWords_of_parse? {p : Parameter} (h : Parameter.parse? t = some p)
    (function : String) : readWords function t.words = .ok p := by
  have hcollapse : Parameter.parse? t.collapse = some p := by rw [Parameter.parse?_collapse, h]
  have hdots : t.collapse ≠ ['.', '.', '.'] := by
    intro heq
    have hnone : Parameter.parse? ['.', '.', '.'] = none :=
      Parameter.parse?_eq_none (by decide) (by decide)
    rw [heq, hnone] at hcollapse
    cases hcollapse
  unfold readWords readParameter
  rw [show Text.unwords t.words = t.collapse from rfl, (Text.singleSpaced_collapse t).trim_eq,
    if_neg hdots, hcollapse]

/-! ## Lists with default values -/

/-- A parameter of a list and, where it has one, its default value. -/
structure Defaulted where
  /-- What declares the parameter. -/
  declared : Text
  /-- The text of the default value. -/
  value : Option Text
  deriving DecidableEq, Repr

/-- The text of a parameter with its default value. -/
def Defaulted.text (p : Defaulted) : Text :=
  match p.value with
  | some e => p.declared ++ ' ' :: '=' :: ' ' :: e
  | none => p.declared

namespace Defaulted

variable {p : Defaulted}

theorem level_equals (h : Level 0 t) : Level 0 (t ++ [' ', '=', ' ']) :=
  h.append (.cons (by decide) (by decide) (.cons (by decide) (by decide)
    (.cons (by decide) (by decide) (.nil 0))))

/-- Behind a level parameter it is the value that matters. -/
theorem level_text_iff (h : Level 0 p.declared) : Level 0 p.text ↔ ∀ e ∈ p.value, Level 0 e := by
  obtain ⟨declared, value⟩ := p
  cases value with
  | none => simpa [text] using h
  | some e =>
    have hvalue := (level_equals h).level_append_iff (u := e)
    simpa [text] using hvalue

/-- Behind a parameter with balanced brackets the value alone can be divided. -/
theorem undivided_text_iff (h : splitTopLevel p.declared = [p.declared])
    (hclosed : p.value.isSome → netNesting p.declared = 0) :
    splitTopLevel p.text = [p.text] ↔ ∀ e ∈ p.value, splitTopLevel e = [e] := by
  obtain ⟨declared, value⟩ := p
  cases value with
  | none => simpa [text] using h
  | some e =>
    have hdeclared : Level 0 declared := level_zero_iff.2 ⟨h, hclosed rfl⟩
    have hvalue := (level_equals hdeclared).undivided_append_iff (u := e)
    simpa [text] using hvalue

end Defaulted

/-- The parameters without their default values. -/
def plainList (ps : List Defaulted) : Text := [','].intercalate (ps.map (·.declared))

/-- The parameters with their default values. -/
def fullList (ps : List Defaulted) : Text := [','].intercalate (ps.map (·.text))

/-- The parameters of a list to which default values are added: the list is divided between them,
and those that get a value are read and have their brackets balanced. -/
structure Accepted (ps : List Defaulted) : Prop where
  /-- The list is divided between the parameters. -/
  divided : splitTopLevel (plainList ps) = ps.map (·.declared)
  /-- A parameter with a value is read. -/
  parsed : ∀ p ∈ ps, p.value.isSome → (Parameter.parse? p.declared).isSome
  /-- Its brackets balance. -/
  closed : ∀ p ∈ ps, p.value.isSome → netNesting p.declared = 0

/-- The default values are level, and the last one at least is not divided. -/
structure LevelValues (ps : List Defaulted) : Prop where
  /-- A value in front of a further parameter is level. -/
  front : ∀ p ∈ ps.dropLast, ∀ e ∈ p.value, Level 0 e
  /-- A value at the end of the list is not divided. -/
  last : ∀ p ∈ ps.getLast?, ∀ e ∈ p.value, splitTopLevel e = [e]

namespace Accepted

variable {ps : List Defaulted}

theorem ne_nil (h : Accepted ps) : ps ≠ [] := by
  rintro rfl
  have hdivided := h.divided
  cases hdivided

/-- The parameters in front of a comma are level, and the last one is not divided. -/
theorem levels (h : Accepted ps) :
    (∀ p ∈ ps.dropLast, Level 0 p.declared) ∧
      ∀ p ∈ ps.getLast?, splitTopLevel p.declared = [p.declared] := by
  have hne : ps.map (·.declared) ≠ [] := by simpa using h.ne_nil
  obtain ⟨hfront, hlast⟩ := (splitTopLevel_intercalate_iff hne).1 h.divided
  rw [← List.map_dropLast] at hfront
  rw [List.getLast?_map] at hlast
  exact ⟨fun p hp => hfront _ (List.mem_map_of_mem hp),
    fun p hp => hlast _ (Option.mem_map_of_mem _ hp)⟩

/-- With its default values the list is divided between the same parameters exactly when the values
are level, but that the last one may leave brackets open. -/
theorem divided_iff (h : Accepted ps) :
    splitTopLevel (fullList ps) = ps.map (·.text) ↔ LevelValues ps := by
  obtain ⟨hfront, hlast⟩ := h.levels
  -- Whether a parameter is level, or whole at the end, is decided by its value.
  have hfronts : ∀ p ∈ ps.dropLast, (Level 0 p.text ↔ ∀ e ∈ p.value, Level 0 e) :=
    fun p hp => Defaulted.level_text_iff (hfront p hp)
  have hlasts : ∀ p ∈ ps.getLast?,
      (splitTopLevel p.text = [p.text] ↔ ∀ e ∈ p.value, splitTopLevel e = [e]) :=
    fun p hp => Defaulted.undivided_text_iff (hlast p hp) (h.closed p (List.mem_of_getLast? hp))
  have hne : ps.map (·.text) ≠ [] := by simpa using h.ne_nil
  unfold fullList
  rw [splitTopLevel_intercalate_iff hne, ← List.map_dropLast, List.getLast?_map,
    List.forall_mem_map]
  constructor
  · rintro ⟨hlevel, hwhole⟩
    exact ⟨fun p hp => (hfronts p hp).1 (hlevel p hp),
      fun p hp => (hlasts p hp).1 (hwhole _ (Option.mem_map_of_mem _ hp))⟩
  · rintro ⟨hlevel, hwhole⟩
    refine ⟨fun p hp => (hfronts p hp).2 (hlevel p hp), fun t ht => ?_⟩
    obtain ⟨p, hp, rfl⟩ := Option.map_eq_some_iff.1 ht
    exact (hlasts p hp).2 (hwhole p hp)

/-- A parameter is read from its words with the value as from those without it. -/
theorem readWords_text (h : Accepted ps) {p : Defaulted} (hp : p ∈ ps) (function : String) :
    readWords function p.text.words = readWords function p.declared.words := by
  have hparsed := h.parsed p hp
  have hclosed := h.closed p hp
  obtain ⟨declared, value⟩ := p
  cases value with
  | none => rfl
  | some e =>
    obtain ⟨q, hq⟩ := Option.isSome_iff_exists.1 (hparsed rfl)
    have hvalue := Parameter.parse?_append (hparsed rfl) (hclosed rfl) e
    rw [readWords_of_parse? hq]
    exact readWords_of_parse? (hvalue.trans hq) function

/-- Where a parameter gets a value, the list is neither empty nor `void`. -/
theorem collapse_plainList_ne (h : Accepted ps) {p : Defaulted} (hp : p ∈ ps)
    (hvalue : p.value.isSome) : ¬((plainList ps).collapse = [] ∨
      (plainList ps).collapse = "void".toList) := by
  have hmem : p.declared.words ∈ (splitTopLevel (plainList ps).collapse).map Text.words := by
    unfold splitTopLevel
    rw [map_words_collapse]
    have hdivided := h.divided
    unfold splitTopLevel at hdivided
    rw [hdivided, List.map_map]
    exact List.mem_map_of_mem hp
  have hparsed := h.parsed p hp hvalue
  -- Of either list no parameter would be read.
  rintro (hempty | hvoid)
  · rw [hempty] at hmem
    exact Parameter.words_ne_nil hparsed (List.mem_singleton.1 hmem)
  · have hone : (splitTopLevel "void".toList).map Text.words = [["void".toList]] := by decide
    have hnone : Parameter.parse? "void".toList = none :=
      Parameter.parse?_eq_none (by decide) (by decide)
    rw [hvoid, hone, List.mem_singleton] at hmem
    have hcollapse : p.declared.collapse = "void".toList := by
      unfold Text.collapse
      rw [hmem, Text.unwords_singleton]
    rw [← Parameter.parse?_collapse, hcollapse, hnone] at hparsed
    cases hparsed

/-- An equals sign stays in the list. -/
theorem collapse_fullList_ne {p : Defaulted} (hp : p ∈ ps) (hvalue : p.value.isSome) :
    ¬((fullList ps).collapse = [] ∨ (fullList ps).collapse = "void".toList) := by
  have hmem : '=' ∈ (fullList ps).collapse := by
    refine (Text.mem_collapse (by decide)).2 ?_
    refine (Text.infix_intercalate (List.mem_map_of_mem hp)).subset ?_
    obtain ⟨declared, value⟩ := p
    cases value with
    | none => cases hvalue
    | some e => simp [Defaulted.text]
  rintro (hempty | hvoid)
  · rw [hempty] at hmem
    cases hmem
  · rw [hvoid] at hmem
    revert hmem
    decide

/-- Level default values do not change the parameters of a list. -/
theorem readParameters_fullList (h : Accepted ps) (hlevel : LevelValues ps) (function : String) :
    readParameters function (fullList ps) = readParameters function (plainList ps) := by
  by_cases hvalues : ∃ p ∈ ps, p.value.isSome
  · obtain ⟨p, hp, hvalue⟩ := hvalues
    rw [readParameters_eq_words, readParameters_eq_words, if_neg (collapse_fullList_ne hp hvalue),
      if_neg (h.collapse_plainList_ne hp hvalue), h.divided_iff.2 hlevel, h.divided, List.map_map,
      List.map_map, List.mapM_map, List.mapM_map]
    exact mapM_congr fun q hq => h.readWords_text hq function
  · -- Without default values the two lists are one.
    have htexts : ps.map (·.text) = ps.map (·.declared) := by
      refine List.map_congr_left fun p hp => ?_
      obtain ⟨declared, value⟩ := p
      cases value with
      | none => rfl
      | some e => exact absurd ⟨_, hp, rfl⟩ hvalues
    unfold fullList plainList
    rw [htexts]

end Accepted

end NativeBindings
