import NativeBindings.Text.Blank

/-!
# Finding one text in another

The first and the last occurrence of a pattern, each given by the text around it, and the removal
of single spaces by what stands on their two sides.
-/

namespace NativeBindings.Text

/-- The text before and the text after the first occurrence of `pattern`. -/
def splitFirst? (pattern : Text) : Text → Option (Text × Text)
  | [] => if pattern.isEmpty then some ([], []) else none
  | c :: cs =>
    match pattern.isPrefixOf? (c :: cs) with
    | some after => some ([], after)
    | none => (splitFirst? pattern cs).map fun (before, after) => (c :: before, after)

/-- The text before and the text after the last occurrence of `pattern`. -/
def splitLast? (pattern : Text) : Text → Option (Text × Text)
  | [] => if pattern.isEmpty then some ([], []) else none
  | c :: cs =>
    match splitLast? pattern cs with
    | some (before, after) => some (c :: before, after)
    | none => (pattern.isPrefixOf? (c :: cs)).map fun after => ([], after)

/-- A start is matched character by character. -/
theorem isPrefixOf?_cons_cons (p c : Char) (ps cs : Text) :
    List.isPrefixOf? (p :: ps) (c :: cs) = if p == c then ps.isPrefixOf? cs else none := rfl

/-- A matched start is followed by what the match leaves. -/
theorem eq_append_of_isPrefixOf? {pattern text rest : Text}
    (h : pattern.isPrefixOf? text = some rest) : text = pattern ++ rest := by
  induction pattern generalizing text with
  | nil => exact Option.some.inj h
  | cons p ps ih =>
    cases text with
    | nil => cases (show none = some rest from h)
    | cons c cs =>
      rw [isPrefixOf?_cons_cons] at h
      by_cases hpc : p = c
      · subst hpc
        rw [if_pos (beq_self_eq_true p)] at h
        simp [ih h]
      · simp [hpc] at h

/-- A matched end is preceded by what the match leaves. -/
theorem eq_append_of_isSuffixOf? {pattern text rest : Text}
    (h : pattern.isSuffixOf? text = some rest) : text = rest ++ pattern := by
  obtain ⟨r, hr, rfl⟩ := Option.map_eq_some_iff.1 h
  simpa using congrArg List.reverse (eq_append_of_isPrefixOf? hr)

/-- The first occurrence parts the text into what precedes it, the pattern and what follows. -/
theorem eq_of_splitFirst? {pattern text before after : Text}
    (h : splitFirst? pattern text = some (before, after)) :
    text = before ++ pattern ++ after := by
  induction text generalizing before with
  | nil =>
    simp only [splitFirst?, List.isEmpty_iff] at h
    split at h <;> simp_all
  | cons c cs ih =>
    simp only [splitFirst?] at h
    split at h
    · rename_i rest hp
      simp only [Option.some.injEq, Prod.mk.injEq] at h
      obtain ⟨rfl, rfl⟩ := h
      simpa using eq_append_of_isPrefixOf? hp
    · obtain ⟨⟨b, a⟩, hs, heq⟩ := Option.map_eq_some_iff.1 h
      simp only [Prod.mk.injEq] at heq
      obtain ⟨rfl, rfl⟩ := heq
      simp [ih hs]

/-- The last occurrence parts the text into what precedes it, the pattern and what follows. -/
theorem eq_of_splitLast? {pattern text before after : Text}
    (h : splitLast? pattern text = some (before, after)) :
    text = before ++ pattern ++ after := by
  induction text generalizing before with
  | nil =>
    simp only [splitLast?, List.isEmpty_iff] at h
    split at h <;> simp_all
  | cons c cs ih =>
    simp only [splitLast?] at h
    split at h
    · rename_i b a hs
      simp only [Option.some.injEq, Prod.mk.injEq] at h
      obtain ⟨rfl, rfl⟩ := h
      simp [ih hs]
    · obtain ⟨a, hp, heq⟩ := Option.map_eq_some_iff.1 h
      simp only [Prod.mk.injEq] at heq
      obtain ⟨rfl, rfl⟩ := heq
      simpa using eq_append_of_isPrefixOf? hp

/-- What follows the first occurrence of a pattern that is not empty is shorter than the text. -/
theorem length_lt_of_splitFirst? {pattern text before after : Text} (hp : pattern ≠ [])
    (h : splitFirst? pattern text = some (before, after)) : after.length < text.length := by
  have := List.length_pos_iff.2 hp
  have heq := congrArg List.length (eq_of_splitFirst? h)
  simp only [List.length_append] at heq
  omega

/-- The text without each space whose two neighbours `glued` accepts. -/
def dropSpaces (glued : Char → Char → Bool) : Text → Text
  | a :: ' ' :: b :: cs =>
    if glued a b then a :: dropSpaces glued (b :: cs)
    else a :: ' ' :: dropSpaces glued (b :: cs)
  | a :: cs => a :: dropSpaces glued cs
  | [] => []

/-- Only spaces are dropped. -/
theorem filter_dropSpaces {glued : Char → Char → Bool} (t : Text) :
    (dropSpaces glued t).filter (!isBlank ·) = t.filter (!isBlank ·) := by
  have hspace : isBlank ' ' = true := by decide
  fun_induction dropSpaces glued t with
  | case1 a b cs _ ih => simp [List.filter_cons, ih, hspace]
  | case2 a b cs _ ih => simp [List.filter_cons, ih, hspace]
  | case3 a cs _ ih => rw [List.filter_cons, ih, List.filter_cons]
  | case4 => rfl

end NativeBindings.Text
