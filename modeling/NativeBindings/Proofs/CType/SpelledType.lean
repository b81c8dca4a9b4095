import NativeBindings.Proofs.CType.BaseSpelling

/-!
# Reading a spelled type again

The spelling of a type writes `const` in front of everything, also where it belongs to a pointer or
reference in the middle. Reading the spelling again gives the same shape, with all pointers and
references constant as soon as one of them was (`parse_text`).
-/

namespace NativeBindings

namespace CType

/-! ## `const` in front, several times -/

/-- The word with a space behind it, the given number of times. -/
def constPrefixes (k : Nat) : Text := (List.replicate k constPrefix).flatten

theorem constPrefixes_succ (k : Nat) (u : Text) :
    constPrefixes (k + 1) ++ u = constPrefix ++ (constPrefixes k ++ u) := by
  unfold constPrefixes
  rw [List.replicate_succ, List.flatten_cons, List.append_assoc]

theorem constPrefixes_append (k l : Nat) (u : Text) :
    constPrefixes k ++ (constPrefixes l ++ u) = constPrefixes (k + l) ++ u := by
  unfold constPrefixes
  rw [← List.append_assoc, ← List.flatten_append, List.replicate_append_replicate]

/-! ## What is constant -/

/-- A text in front is outside template arguments where it was, and leaves some depth. -/
theorem exists_outsideTemplates_append (depth : Nat) (t : Text) :
    ∃ depth', ∀ s, outsideTemplates depth (t ++ s) =
      outsideTemplates depth t ++ outsideTemplates depth' s := by
  induction t generalizing depth with
  | nil => exact ⟨depth, fun s => rfl⟩
  | cons c t ih =>
    simp only [List.cons_append, outsideTemplates]
    split
    · exact ih (depth + 1)
    · split
      · exact ih (depth - 1)
      · split
        · obtain ⟨depth', ih⟩ := ih depth
          exact ⟨depth', fun s => by rw [ih, List.cons_append]⟩
        · exact ih depth

/-- Template arguments go on through a text without brackets. -/
theorem outsideTemplates_inside {depth : Nat} (hdepth : depth ≠ 0) {s : Text} (hopen : '<' ∉ s)
    (hclose : '>' ∉ s) : outsideTemplates depth s = [] := by
  induction s with
  | nil => rfl
  | cons c s ih =>
    rw [List.mem_cons, not_or] at hopen hclose
    rw [outsideTemplates, if_neg (Ne.symm hopen.1), if_neg (Ne.symm hclose.1), if_neg hdepth,
      ih hopen.2 hclose.2]

/-- A text that is put around a type: it starts with no identifier, and holds neither brackets of
templates nor the word `const`. -/
structure IsAround (s : Text) : Prop where
  /-- It holds no blanks. -/
  solid : Text.Solid s
  /-- It starts with no identifier. -/
  head : ∃ c rest, s = c :: rest ∧ isIdentChar c = false
  /-- It opens no template arguments. -/
  noOpen : '<' ∉ s
  /-- It closes no template arguments. -/
  noClose : '>' ∉ s
  /-- It does not hold the first letter of `const`. -/
  noConst : 'c' ∉ s

/-- With one more text at its end a collapsed text goes on, behind a space or none. -/
theorem exists_collapse_append_solid (t : Text) {s : Text} (hs : Text.Solid s) (hne : s ≠ []) :
    ∃ gap, (gap = [] ∨ gap = [' ']) ∧ Text.collapse (t ++ s) = Text.collapse t ++ (gap ++ s) := by
  obtain ⟨x, rest, rfl⟩ := List.exists_cons_of_ne_nil hne
  obtain ⟨hx, hrest⟩ := List.forall_mem_cons.1 hs
  obtain ⟨gap, hcollapse, hgap⟩ := Text.exists_collapse_concat t hx
  refine ⟨gap, hgap.imp (·.1) (·.1), ?_⟩
  rw [List.append_cons, Text.collapse_append_word List.getLast?_concat hx hrest, hcollapse]
  simp

/-- What is put around a type does not matter to whether its text is constant. -/
theorem IsAround.isConstant_append {s : Text} (h : IsAround s) (t : Text) :
    isConstant (Text.collapse (t ++ s)) = isConstant (Text.collapse t) := by
  obtain ⟨c, rest, rfl, hc⟩ := h.head
  -- It stands right behind the type or one space behind it, and in the templates that are open
  -- there.
  obtain ⟨gap, hgap, hcollapse⟩ := exists_collapse_append_solid t h.solid (List.cons_ne_nil c rest)
  have hblank : ∀ x ∈ gap, x = ' ' := by
    rcases hgap with rfl | rfl <;> simp
  obtain ⟨depth, houtside⟩ := exists_outsideTemplates_append 0 (Text.collapse t)
  have hnot : ∀ {x : Char}, x ≠ ' ' → x ∉ c :: rest → x ∉ gap ++ c :: rest := by
    intro x hx hin hmem
    rcases List.mem_append.1 hmem with hmem | hmem
    · exact hx (hblank x hmem)
    · exact hin hmem
  have hnone : ∀ u : Text, 'c' ∉ u → Text.findWord? "const".toList u = none := by
    intro u hu
    rw [Text.findWord?_eq_none_iff allIdent_const.2 allIdent_const.1]
    rintro before after rfl
    exact absurd (List.mem_append_left _ (List.mem_append_right _ (by decide))) hu
  rw [hcollapse]
  unfold isConstant
  rw [houtside]
  by_cases hdepth : depth = 0
  · -- Outside of templates it parts the words in front of it, and has no `const` itself.
    rw [hdepth, outsideTemplates_of_not_mem (hnot (by decide) h.noOpen)
      (hnot (by decide) h.noClose), Bool.eq_iff_iff, Option.isSome_iff_ne_none,
      Option.isSome_iff_ne_none, not_iff_not]
    have hbreak : ∃ x u, gap ++ c :: rest = x :: u ∧ isIdentChar x = false ∧ 'c' ∉ u := by
      rcases hgap with rfl | rfl
      · exact ⟨c, rest, rfl, hc, fun hin => h.noConst (List.mem_cons_of_mem c hin)⟩
      · exact ⟨' ', c :: rest, rfl, by decide, h.noConst⟩
    obtain ⟨x, u, hsplit, hx, hu⟩ := hbreak
    rw [hsplit, Text.findWord?_break_eq_none allIdent_const.2 hx allIdent_const.1,
      and_iff_left (hnone u hu)]
  · rw [outsideTemplates_inside hdepth (hnot (by decide) h.noOpen) (hnot (by decide) h.noClose),
      List.append_nil]

theorem isAround_mark {c : Char} (hc : IsMark c) : IsAround [c] := by
  rcases hc with rfl | rfl
  · exact ⟨by decide, ⟨_, _, rfl, by decide⟩, by decide, by decide, by decide⟩
  · exact ⟨by decide, ⟨_, _, rfl, by decide⟩, by decide, by decide, by decide⟩

theorem isAround_dimension (n : Nat) : IsAround (dimension n) :=
  ⟨solid_dimension n, ⟨'[', _, rfl, by decide⟩,
    not_mem_dimension (by decide) (by decide) (by decide) n,
    not_mem_dimension (by decide) (by decide) (by decide) n,
    not_mem_dimension (by decide) (by decide) (by decide) n⟩

/-! ## A spelled type -/

/-- The lengths of all arrays in a type fit into sixty-four bits. -/
def LengthsFit : CType → Prop
  | .pointer _ t | .reference _ t => LengthsFit t
  | .array t length => length < Nat.pow 2 64 ∧ LengthsFit t
  | _ => True

/-- The pointers, references and arrays of a type around another base, with all pointers and
references constant or none. -/
def recast (constant : Bool) (b : CType) : CType → CType
  | .pointer _ t => .pointer constant (recast constant b t)
  | .reference _ t => .reference constant (recast constant b t)
  | .array t length => .array (recast constant b t) length
  | _ => b

/-- A type is the same with another base and other constants exactly when they are its own. -/
theorem recast_eq_iff {constant : Bool} {b t : CType} :
    recast constant b t = t ↔ (∀ c ∈ t.levels, c = constant) ∧ b = t.base := by
  induction t with
  | pointer c t ih =>
    rw [recast, pointer.injEq, ih, levels, List.forall_mem_append, List.forall_mem_singleton, base,
      eq_comm (a := constant)]
    tauto
  | reference c t ih =>
    rw [recast, reference.injEq, ih, levels, List.forall_mem_append, List.forall_mem_singleton,
      base, eq_comm (a := constant)]
    tauto
  | array t length ih => rw [recast, array.injEq, ih, levels, base, and_iff_left rfl]
  | _ => exact (and_iff_right fun c hc => absurd hc List.not_mem_nil).symm

theorem toList_text_pointer (c : Bool) (t : CType) :
    (pointer c t).text.toList = constPrefixes c.toNat ++ (t.text.toList ++ ['*']) := by
  cases c with
  | false => exact String.toList_append
  | true =>
    change ("const " ++ t.text ++ "*").toList = _
    rw [String.toList_append, String.toList_append, List.append_assoc]
    rfl

theorem toList_text_reference (c : Bool) (t : CType) :
    (reference c t).text.toList = constPrefixes c.toNat ++ (t.text.toList ++ ['&']) := by
  cases c with
  | false => exact String.toList_append
  | true =>
    change ("const " ++ t.text ++ "&").toList = _
    rw [String.toList_append, String.toList_append, List.append_assoc]
    rfl

theorem toList_text_array (t : CType) (length : Nat) :
    (array t length).text.toList = t.text.toList ++ dimension length := by
  change (t.text ++ "[" ++ toString length ++ "]").toList = _
  rw [String.toList_append, String.toList_append, String.toList_append, List.append_assoc,
    List.append_assoc]
  rfl

/-- What `const` stands in front of is constant. -/
theorem isConstant_constPrefixes (k : Nat) (u : Text) :
    isConstant (Text.collapse (constPrefixes k ++ u)) =
      (decide (0 < k) || isConstant (Text.collapse u)) := by
  cases k with
  | zero => rfl
  | succ k =>
    rw [constPrefixes_succ, isConstant_constPrefix]
    simp

/-- What stands in front of a level stands in front of what is inside it, together with its own
constant. -/
theorem add_count_levels (k : Nat) (c : Bool) (t : CType) :
    k + (t.levels ++ [c]).count true = k + c.toNat + t.levels.count true := by
  rw [List.count_append, ← Nat.add_assoc, Nat.add_right_comm]
  cases c <;> rfl

/-- The spelling of a type is constant when `const` stands in front of it, when it has a constant
pointer or reference, or when the spelling of its base is. -/
theorem isConstant_text (k : Nat) (t : CType) :
    isConstant (Text.collapse (constPrefixes k ++ t.text.toList)) =
      (decide (0 < k + t.levels.count true) || isConstant (Text.collapse t.base.text.toList)) := by
  induction t generalizing k with
  | pointer c t ih =>
    rw [toList_text_pointer, constPrefixes_append, ← List.append_assoc,
      (isAround_mark (.inl rfl)).isConstant_append, ih, levels, add_count_levels, base]
  | reference c t ih =>
    rw [toList_text_reference, constPrefixes_append, ← List.append_assoc,
      (isAround_mark (.inr rfl)).isConstant_append, ih, levels, add_count_levels, base]
  | array t length ih =>
    rw [toList_text_array, ← List.append_assoc, (isAround_dimension length).isConstant_append, ih,
      levels, base]
  | _ => exact isConstant_constPrefixes k _

/-- The spelling of a type is read as a type of the same shape. Its pointers and references are all
constant, or none is. -/
theorem parse_text {t : CType} (hfit : LengthsFit t) (k : Nat) :
    parse (constPrefixes k ++ t.text.toList) =
      recast (decide (0 < k + t.levels.count true) || isConstant (Text.collapse t.base.text.toList))
        (parse (constPrefixes (k + t.levels.count true) ++ t.base.text.toList)) t := by
  induction t generalizing k with
  | pointer c t ih =>
    rw [toList_text_pointer, constPrefixes_append, ← List.append_assoc, parse_concat_star,
      isConstant_text, ih hfit, recast, levels, add_count_levels, base]
  | reference c t ih =>
    rw [toList_text_reference, constPrefixes_append, ← List.append_assoc, parse_concat_and,
      isConstant_text, ih hfit, recast, levels, add_count_levels, base]
  | array t length ih =>
    rw [toList_text_array, ← List.append_assoc, parse_append_dimension _ hfit.1, ih hfit.2, recast,
      levels, base]
  | _ => rfl

/-- A spelled type is read as itself exactly when its pointers and references are all constant or
none is, and its base is read as itself with as many times `const` in front of it. -/
theorem parse_text_eq_iff {t : CType} (hfit : LengthsFit t) :
    parse t.text.toList = t ↔
      (∀ c ∈ t.levels, c = (decide (0 < t.levels.count true) ||
        isConstant (Text.collapse t.base.text.toList))) ∧
      parse (constPrefixes (t.levels.count true) ++ t.base.text.toList) = t.base := by
  have hparse := parse_text hfit 0
  rw [Nat.zero_add] at hparse
  rw [← recast_eq_iff, ← hparse]
  rfl

end CType

end NativeBindings
