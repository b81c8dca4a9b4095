import NativeBindings.Text.Search

/-!
# Tags

A tag is a block comment that holds a given word and, around it, blanks at most.
-/

namespace NativeBindings.Tag

/-- The text behind a tag, given the text behind its opening delimiter. The word may itself
start with blanks, so it is looked for behind each leading blank. -/
def afterWord? (word : Text) (t : Text) : Option Text :=
  match (word.isPrefixOf? t).bind fun rest => ['*', '/'].isPrefixOf? (Text.trimLeft rest) with
  | some rest => some rest
  | none =>
    match t with
    | c :: cs => if isBlank c then afterWord? word cs else none
    | [] => none

/-- The text behind the tag that a text starts with. -/
def after? (word : Text) (t : Text) : Option Text :=
  (['/', '*'].isPrefixOf? t).bind (afterWord? word)

/-- Behind the word lies no more text than there was. -/
theorem length_le_of_afterWord? {word t rest : Text} (h : afterWord? word t = some rest) :
    rest.length ≤ t.length := by
  fun_induction afterWord? word t with
  | case1 t rest' hm =>
    cases h
    obtain ⟨r, hr, hc⟩ := Option.bind_eq_some_iff.1 hm
    have h1 := congrArg List.length (Text.eq_append_of_isPrefixOf? hr)
    have h2 : (Text.trimLeft r).length ≤ r.length := length_dropWhile_le _ _
    have h3 := congrArg List.length (Text.eq_append_of_isPrefixOf? hc)
    simp only [List.length_append, List.length_cons, List.length_nil] at h1 h3
    omega
  | case2 c cs _ _ ih => have := ih h; simp only [List.length_cons]; omega
  | case3 => simp at h
  | case4 => simp at h

/-- Behind a tag lies less text than there was. -/
theorem length_lt_of_after? {word t rest : Text} (h : after? word t = some rest) :
    rest.length < t.length := by
  obtain ⟨r, hr, ha⟩ := Option.bind_eq_some_iff.1 h
  have h1 := congrArg List.length (Text.eq_append_of_isPrefixOf? hr)
  have h2 := length_le_of_afterWord? ha
  simp only [List.length_append, List.length_cons, List.length_nil] at h1
  omega

/-- The text with every tag replaced by a space. -/
def replaceAll (word : Text) (t : Text) : Text :=
  match h : after? word t with
  | some rest =>
    have := length_lt_of_after? h
    ' ' :: replaceAll word rest
  | none =>
    match t with
    | [] => []
    | c :: cs => c :: replaceAll word cs
termination_by t.length

/-- Whether a tag stands in a text. -/
def occurs (word : Text) : Text → Bool
  | [] => (after? word []).isSome
  | c :: cs => (after? word (c :: cs)).isSome || occurs word cs

end NativeBindings.Tag
