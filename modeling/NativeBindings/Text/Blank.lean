/-!
# Blank characters and words

A text is a list of characters. This module holds the characters that separate words, trimming,
and the words of a text.
-/

namespace NativeBindings

/-- A text is worked on as the list of its characters; records hold it as a `String`. -/
abbrev Text := List Char

/-- A character is blank when it has the Unicode property White_Space. -/
def isBlank (c : Char) : Bool :=
  let n := c.toNat
  (9 ≤ n && n ≤ 13) || n == 0x20 || n == 0x85 || n == 0xA0 || n == 0x1680 ||
    (0x2000 ≤ n && n ≤ 0x200A) || n == 0x2028 || n == 0x2029 || n == 0x202F || n == 0x205F ||
    n == 0x3000

/-- The elements of a list without the longest run at its end that satisfies `p`. -/
def dropTrailing {α : Type} (p : α → Bool) (xs : List α) : List α :=
  (xs.reverse.dropWhile p).reverse

/-- The longest run at the end of a list that satisfies `p`. -/
def takeTrailing {α : Type} (p : α → Bool) (xs : List α) : List α :=
  (xs.reverse.takeWhile p).reverse

/-- A list is its part before the trailing run followed by that run. -/
theorem dropTrailing_append_takeTrailing {α : Type} (p : α → Bool) (xs : List α) :
    dropTrailing p xs ++ takeTrailing p xs = xs := by
  rw [dropTrailing, takeTrailing, ← List.reverse_append, List.takeWhile_append_dropWhile,
    List.reverse_reverse]

/-- Dropping a leading run never lengthens a list. -/
theorem length_dropWhile_le {α : Type} (p : α → Bool) (xs : List α) :
    (xs.dropWhile p).length ≤ xs.length :=
  (List.dropWhile_sublist p).length_le

/-- Dropping the trailing run never lengthens a list. -/
theorem length_dropTrailing_le {α : Type} (p : α → Bool) (xs : List α) :
    (dropTrailing p xs).length ≤ xs.length := by
  simpa [dropTrailing] using length_dropWhile_le p xs.reverse

namespace Text

/-- The text without its leading blanks. -/
def trimLeft (t : Text) : Text := t.dropWhile isBlank

/-- The text without its trailing blanks. -/
def trimRight (t : Text) : Text := dropTrailing isBlank t

/-- The text without blanks at either end. -/
def trim (t : Text) : Text := trimRight (trimLeft t)

/-- Trimming never lengthens a text. -/
theorem length_trim_le (t : Text) : (trim t).length ≤ t.length :=
  Nat.le_trans (length_dropTrailing_le _ _) (length_dropWhile_le _ _)

/-- The words of a text: its longest runs of characters that are not blank. -/
def words (t : Text) : List Text := (t.splitOnP isBlank).filter (!·.isEmpty)

/-- The words of a list, one space between neighbours. -/
def unwords (ws : List Text) : Text := [' '].intercalate ws

/-- The text with every run of blanks written as one space and none at either end. -/
def collapse (t : Text) : Text := unwords (words t)

/-- The length of some texts together with one separator each. -/
def separatedLength : List Text → Nat
  | [] => 0
  | w :: ws => w.length + 1 + separatedLength ws

/-- Together with one separator each, the pieces of a text are one character longer than it. -/
theorem separatedLength_splitOnP (p : Char → Bool) (t : Text) :
    separatedLength (t.splitOnP p) = t.length + 1 := by
  induction t with
  | nil => rfl
  | cons c cs ih =>
    rw [List.splitOnP_cons_eq_if_modifyHead]
    split
    · simp only [separatedLength, List.length_nil, ih, List.length_cons]
      omega
    · match hp : cs.splitOnP p with
      | [] => exact absurd hp (List.splitOnP_ne_nil p cs)
      | w :: ws =>
        rw [hp] at ih
        simp only [List.modifyHead_cons, separatedLength, List.length_cons] at ih ⊢
        omega

/-- Joining words puts one space between neighbours. -/
theorem length_unwords_le (ws : List Text) :
    (unwords ws).length ≤ separatedLength ws - 1 := by
  induction ws with
  | nil => exact Nat.zero_le _
  | cons w ws ih =>
    cases ws with
    | nil => simp [unwords, separatedLength]
    | cons v vs =>
      simp only [unwords, List.intercalate_cons_cons, List.length_append, List.length_cons,
        List.length_nil, separatedLength] at ih ⊢
      omega

/-- Leaving out some of the texts does not raise their length. -/
theorem separatedLength_filter_le (p : Text → Bool) (ws : List Text) :
    separatedLength (ws.filter p) ≤ separatedLength ws := by
  induction ws with
  | nil => exact Nat.le_refl _
  | cons w ws ih =>
    rw [List.filter_cons]
    split <;> simp only [separatedLength] <;> omega

/-- Collapsing never lengthens a text. -/
theorem length_collapse_le (t : Text) : (collapse t).length ≤ t.length := by
  have hwords := separatedLength_filter_le (!·.isEmpty) (t.splitOnP isBlank)
  have hpieces := separatedLength_splitOnP isBlank t
  calc (collapse t).length ≤ separatedLength (words t) - 1 := length_unwords_le (words t)
    _ ≤ separatedLength (t.splitOnP isBlank) - 1 := Nat.sub_le_sub_right hwords 1
    _ = t.length := by omega

end Text

end NativeBindings
