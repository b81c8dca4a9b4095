import NativeBindings.Text.Word

/-!
# The normal spelling of a type

In the normal spelling of a type its tag comments stand in front, words are one space apart,
no space stands next to `*`, `&` or a bracket, and one space parts a `*` or `&` from an identifier
behind it.
-/

namespace NativeBindings.TypeText

/-- The two marks of indirection. -/
def isMark (c : Char) : Bool := c == '*' || c == '&'

/-- A space between `a` and `b` goes when either is a mark or a bracket that holds on to its
neighbour; a closing bracket does not hold on to what follows it. -/
def glued (a b : Char) : Bool := isMark a || a == '[' || isMark b || b == '[' || b == ']'

/-- The text with one space between a mark and an identifier character behind it. -/
def spaceAfterMarks : Text → Text
  | a :: b :: cs =>
    if isMark a && isIdentChar b then a :: ' ' :: spaceAfterMarks (b :: cs)
    else a :: spaceAfterMarks (b :: cs)
  | cs => cs

/-- Only spaces are added behind marks. -/
theorem filter_spaceAfterMarks (t : Text) :
    (spaceAfterMarks t).filter (!isBlank ·) = t.filter (!isBlank ·) := by
  have hspace : isBlank ' ' = true := by decide
  fun_induction spaceAfterMarks t with
  | case1 a b cs _ ih => simp [List.filter_cons, ih, hspace]
  | case2 a b cs _ ih => simp [List.filter_cons, ih]
  | case3 => rfl

/-- The normal spelling of a type without tags. -/
def tidyPlain (t : Text) : Text := spaceAfterMarks (Text.dropSpaces glued t.collapse)

/-- A text with a comment in it: the text before the first comment, the text of the comment, and
the text behind it. -/
def splitComment? (t : Text) : Option (Text × Text × Text) := do
  let (before, rest) ← Text.splitFirst? ['/', '*'] t
  let (content, after) ← Text.splitFirst? ['*', '/'] rest
  return (before, content, after)

/-- A text is its parts around the first comment with the delimiters between them. -/
theorem eq_of_splitComment? {t before content after : Text}
    (h : splitComment? t = some (before, content, after)) :
    t = before ++ ['/', '*'] ++ (content ++ ['*', '/'] ++ after) := by
  simp only [splitComment?, Option.bind_eq_bind, Option.bind_eq_some_iff, Option.pure_def,
    Option.some.injEq, Prod.mk.injEq] at h
  obtain ⟨⟨b, r⟩, h1, ⟨c, a⟩, h2, rfl, rfl, rfl⟩ := h
  rw [Text.eq_of_splitFirst? h1]
  exact congrArg _ (Text.eq_of_splitFirst? h2)

/-- With a space in place of its first comment a text is shorter. -/
theorem length_lt_of_splitComment? {t before content after : Text}
    (h : splitComment? t.trim = some (before, content, after)) :
    (before ++ ' ' :: after).length < t.length := by
  have h1 := Text.length_trim_le t
  have h2 := congrArg List.length (eq_of_splitComment? h)
  simp only [List.length_append, List.length_cons, List.length_nil] at h2 ⊢
  omega

/-- The normal spelling of a type. -/
def tidy (t : Text) : Text :=
  match h : splitComment? t.trim with
  | none => tidyPlain t
  | some (before, content, after) =>
    have : (before ++ ' ' :: after).length < t.length := length_lt_of_splitComment? h
    let tag := ['/', '*'] ++ content ++ ['*', '/']
    match tidy (before ++ ' ' :: after) with
    | [] => tag
    | rest => tag ++ ' ' :: rest
termination_by t.length
decreasing_by exact this

end NativeBindings.TypeText
