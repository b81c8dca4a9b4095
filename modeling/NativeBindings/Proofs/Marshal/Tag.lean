import Mathlib.Data.List.Infix
import Mathlib.Data.List.TakeWhile
import NativeBindings.Marshal.Tag
import NativeBindings.Proofs.Text.Word

/-!
# Where tags stand

The search for a tag tries the word behind each leading blank, since the word may itself start with
blanks. `occurs_iff` says what it comes to: somewhere in the text is a comment of the word with
blanks around it. Such a comment starts and ends with a slash, so neither text without slashes in
front nor a character behind completes one, and both stay as they are when tags are replaced
(`replaceAll_append_left`, `replaceAll_append`).
-/

namespace NativeBindings.Tag

variable {word t : Text}

/-- A tag is a comment of the word with blanks around it. -/
def IsTag (word tag : Text) : Prop :=
  ∃ left right : Text, (∀ c ∈ left, isBlank c) ∧ (∀ c ∈ right, isBlank c) ∧
    tag = ['/', '*'] ++ left ++ word ++ right ++ ['*', '/']

/-- A tag starts with a slash. -/
theorem IsTag.head {tag : Text} (h : IsTag word tag) : tag.head? = some '/' := by
  obtain ⟨left, right, -, -, rfl⟩ := h
  rfl

/-- A tag ends with a slash. -/
theorem IsTag.last {tag : Text} (h : IsTag word tag) : tag.getLast? = some '/' := by
  obtain ⟨left, right, -, -, rfl⟩ := h
  exact List.getLast?_append_of_ne_nil _ (by simp)

/-- Behind blanks and a delimiter the rest is found. -/
theorem trimLeft_append {right : Text} (hright : ∀ c ∈ right, isBlank c) (rest : Text) :
    Text.trimLeft (right ++ ['*', '/'] ++ rest) = ['*', '/'] ++ rest := by
  unfold Text.trimLeft
  rw [List.append_assoc, List.dropWhile_append_of_pos hright]
  exact List.dropWhile_cons_of_neg (by decide)

/-- At a text that starts with the word the search finds what is behind blanks and the delimiter. -/
theorem afterDelimiter?_eq_some_iff {rest : Text} :
    ((word.isPrefixOf? t).bind fun behind => ['*', '/'].isPrefixOf? (Text.trimLeft behind)) =
        some rest ↔
      ∃ right : Text, (∀ c ∈ right, isBlank c) ∧ t = word ++ right ++ ['*', '/'] ++ rest := by
  rw [Option.bind_eq_some_iff]
  constructor
  · rintro ⟨behind, hword, hdelimiter⟩
    refine ⟨behind.takeWhile isBlank, fun c hc => List.mem_takeWhile_imp hc, ?_⟩
    have hbehind : behind.takeWhile isBlank ++ Text.trimLeft behind = behind :=
      List.takeWhile_append_dropWhile
    rw [Text.eq_append_of_isPrefixOf? hdelimiter] at hbehind
    rw [Text.eq_append_of_isPrefixOf? hword, List.append_assoc, List.append_assoc, hbehind]
  · rintro ⟨right, hright, rfl⟩
    refine ⟨right ++ ['*', '/'] ++ rest, ?_, ?_⟩
    · rw [List.append_assoc, List.append_assoc, Text.isPrefixOf?_append, List.append_assoc]
    · rw [trimLeft_append hright, Text.isPrefixOf?_append]

theorem afterWord?_word {right : Text} (hright : ∀ c ∈ right, isBlank c) (rest : Text) :
    afterWord? word (word ++ right ++ ['*', '/'] ++ rest) = some rest := by
  rw [afterWord?.eq_def, afterDelimiter?_eq_some_iff.2 ⟨right, hright, rfl⟩]

/-- The search for the word succeeds when blanks, the word, blanks and the delimiter follow. -/
theorem isSome_afterWord?_iff : (afterWord? word t).isSome ↔
    ∃ left right rest : Text, (∀ c ∈ left, isBlank c) ∧ (∀ c ∈ right, isBlank c) ∧
      t = left ++ word ++ right ++ ['*', '/'] ++ rest := by
  constructor
  · intro h
    fun_induction afterWord? word t with
    | case1 t rest hrest =>
      obtain ⟨right, hright, rfl⟩ := afterDelimiter?_eq_some_iff.1 hrest
      exact ⟨[], right, rest, fun c hc => absurd hc List.not_mem_nil, hright, rfl⟩
    | case2 c cs hc _ ih =>
      obtain ⟨left, right, rest, hleft, hright, rfl⟩ := ih h
      exact ⟨c :: left, right, rest, List.forall_mem_cons.2 ⟨hc, hleft⟩, hright, rfl⟩
    | case3 => cases h
    | case4 => cases h
  · rintro ⟨left, right, rest, hleft, hright, rfl⟩
    induction left with
    | nil =>
      rw [List.nil_append, afterWord?_word hright, Option.isSome_some]
    | cons c left ih =>
      rw [List.forall_mem_cons] at hleft
      rw [afterWord?.eq_def]
      -- A word that starts with a blank may be found in front of all of them.
      split
      · rfl
      · simp only [List.cons_append, hleft.1, if_pos]
        exact ih hleft.2

/-- The search for a tag succeeds where a text starts with one. -/
theorem isSome_after?_iff : (after? word t).isSome ↔ ∃ tag, IsTag word tag ∧ tag <+: t := by
  unfold after?
  constructor
  · intro h
    obtain ⟨rest, hrest⟩ := Option.isSome_iff_exists.1 h
    obtain ⟨inside, hopen, hword⟩ := Option.bind_eq_some_iff.1 hrest
    obtain ⟨left, right, behind, hleft, hright, rfl⟩ :=
      isSome_afterWord?_iff.1 (Option.isSome_of_eq_some hword)
    refine ⟨_, ⟨left, right, hleft, hright, rfl⟩, behind, ?_⟩
    rw [Text.eq_append_of_isPrefixOf? hopen]
    simp
  · rintro ⟨tag, ⟨left, right, hleft, hright, rfl⟩, rest, rfl⟩
    have hassoc : ['/', '*'] ++ left ++ word ++ right ++ ['*', '/'] ++ rest =
        ['/', '*'] ++ (left ++ word ++ right ++ ['*', '/'] ++ rest) := by simp
    rw [hassoc, Text.isPrefixOf?_append, Option.bind_some]
    exact isSome_afterWord?_iff.2 ⟨left, right, rest, hleft, hright, rfl⟩

/-- A tag occurs in a text when part of it is one. -/
theorem occurs_iff : occurs word t ↔ ∃ tag, IsTag word tag ∧ tag <:+: t := by
  induction t with
  | nil =>
    rw [occurs, isSome_after?_iff]
    simp only [List.infix_nil, List.prefix_nil]
  | cons c cs ih =>
    rw [occurs, Bool.or_eq_true, isSome_after?_iff, ih, ← exists_or]
    simp only [List.infix_cons_iff, and_or_left]

/-- No tag starts with another character. -/
theorem after?_cons_eq_none {c : Char} (hc : c ≠ '/') (t : Text) : after? word (c :: t) = none := by
  rw [← Option.not_isSome_iff_eq_none, isSome_after?_iff]
  rintro ⟨tag, htag, rest, happend⟩
  have hhead := congrArg List.head? happend
  rw [List.head?_append, htag.head] at hhead
  exact hc (Option.some.inj hhead).symm

/-- Text without slashes in front of a text has no part in a tag. -/
theorem occurs_append_left {s : Text} (hs : '/' ∉ s) (t : Text) :
    occurs word (s ++ t) = occurs word t := by
  induction s with
  | nil => rfl
  | cons c s ih =>
    rw [List.mem_cons, not_or] at hs
    rw [List.cons_append, occurs, after?_cons_eq_none (Ne.symm hs.1), Option.isSome_none,
      Bool.false_or, ih hs.2]

/-- A text without slashes holds no tag. -/
theorem occurs_of_not_mem (ht : '/' ∉ t) : occurs word t = false := by
  have hnil : occurs word [] = false := by
    rw [Bool.eq_false_iff, Ne, occurs_iff]
    rintro ⟨tag, htag, hinfix⟩
    rw [List.infix_nil.1 hinfix] at htag
    cases htag.head
  have happend : occurs word (t ++ []) = occurs word [] := occurs_append_left ht []
  rwa [List.append_nil, hnil] at happend

/-- A character that is no slash completes no tag. -/
theorem occurs_concat {c : Char} (hc : c ≠ '/') (t : Text) :
    occurs word (t ++ [c]) = occurs word t := by
  rw [Bool.eq_iff_iff, occurs_iff, occurs_iff]
  apply exists_congr
  intro tag
  apply and_congr_right
  intro htag
  rw [List.infix_concat_iff, or_iff_right]
  rintro ⟨before, happend⟩
  have hlast := congrArg List.getLast? happend
  rw [List.getLast?_append, htag.last, List.getLast?_concat] at hlast
  exact hc (Option.some.inj hlast).symm

/-- A text without tags stays as it is. -/
theorem replaceAll_eq (h : occurs word t = false) : replaceAll word t = t := by
  fun_induction replaceAll word t with
  | case1 t rest hrest =>
    have hnone : (after? word t).isSome = false := by
      cases t with
      | nil => exact h
      | cons c cs =>
        rw [occurs, Bool.or_eq_false_iff] at h
        exact h.1
    rw [hrest] at hnone
    cases hnone
  | case2 => rfl
  | case3 c cs hnone ih =>
    rw [occurs, Bool.or_eq_false_iff] at h
    rw [ih h.2]

/-! ## Text around tags -/

/-- A slash is not in the text behind it. -/
theorem append_eq_append_slash_iff {s a rest : Text} (hs : '/' ∉ s) :
    t ++ s = a ++ '/' :: rest ↔ ∃ t', t = a ++ '/' :: t' ∧ rest = t' ++ s := by
  constructor
  · intro h
    rcases List.append_eq_append_iff.1 h with ⟨b, -, rfl⟩ | ⟨b, rfl, hrest⟩
    · exact absurd (by simp) hs
    · cases b with
      | nil => exact absurd (by rw [← List.nil_append s, ← hrest]; simp) hs
      | cons c b =>
        obtain ⟨rfl, rfl⟩ := List.cons.inj hrest
        exact ⟨b, rfl, rfl⟩
  · rintro ⟨t', rfl, rfl⟩
    simp

/-- Behind its opening delimiter a tag has a slash. -/
theorem afterWord?_eq_none (ht : '/' ∉ t) : afterWord? word t = none := by
  rw [← Option.not_isSome_iff_eq_none, isSome_afterWord?_iff]
  rintro ⟨left, right, rest, -, -, rfl⟩
  exact ht (by simp)

theorem after?_eq_none (ht : '/' ∉ t.tail) : after? word t = none := by
  unfold after?
  rw [Option.bind_eq_none_iff]
  intro rest hrest
  rw [Text.eq_append_of_isPrefixOf? hrest] at ht
  exact afterWord?_eq_none fun hmem => ht (List.mem_cons_of_mem _ hmem)

/-- Text without slashes behind a text has no part in a tag, so it is left over. -/
theorem afterWord?_append {s : Text} (hs : '/' ∉ s) (t : Text) :
    afterWord? word (t ++ s) = (afterWord? word t).map (· ++ s) := by
  -- The delimiter ends with a slash, so it lies in the first text.
  have hdelimiter : ∀ t : Text,
      ((word.isPrefixOf? (t ++ s)).bind fun behind =>
        ['*', '/'].isPrefixOf? (Text.trimLeft behind)) =
      ((word.isPrefixOf? t).bind fun behind =>
        ['*', '/'].isPrefixOf? (Text.trimLeft behind)).map (· ++ s) := by
    intro t
    ext rest
    rw [afterDelimiter?_eq_some_iff, Option.map_eq_some_iff]
    simp only [afterDelimiter?_eq_some_iff]
    constructor
    · rintro ⟨right, hright, h⟩
      obtain ⟨rest', rfl, rfl⟩ := (append_eq_append_slash_iff (a := word ++ right ++ ['*']) hs).1
        (by simpa using h)
      exact ⟨rest', ⟨right, hright, by simp⟩, rfl⟩
    · rintro ⟨rest', ⟨right, hright, rfl⟩, rfl⟩
      exact ⟨right, hright, by simp⟩
  induction t with
  | nil =>
    rw [List.nil_append, afterWord?_eq_none hs, afterWord?_eq_none List.not_mem_nil,
      Option.map_none]
  | cons c cs ih =>
    rw [afterWord?.eq_def, hdelimiter, afterWord?.eq_def word (c :: cs)]
    cases (word.isPrefixOf? (c :: cs)).bind fun behind =>
        ['*', '/'].isPrefixOf? (Text.trimLeft behind) with
    | some rest => rfl
    | none =>
      simp only [Option.map_none, List.cons_append, ih]
      cases isBlank c <;> rfl

theorem after?_append {s : Text} (hs : '/' ∉ s) (t : Text) :
    after? word (t ++ s) = (after? word t).map (· ++ s) := by
  match t with
  | [] =>
    rw [List.nil_append, after?_eq_none fun h => hs (List.mem_of_mem_tail h),
      after?_eq_none (t := []) List.not_mem_nil, Option.map_none]
  | [c] =>
    rw [List.singleton_append, after?_eq_none (t := c :: s) hs,
      after?_eq_none (t := [c]) List.not_mem_nil, Option.map_none]
  | c :: d :: t =>
    have hopening : ∀ t : Text, ['/', '*'].isPrefixOf? (c :: d :: t) =
        if '/' = c ∧ '*' = d then some t else none := by
      intro t
      simp only [List.isPrefixOf?, beq_iff_eq, ite_and]
    unfold after?
    rw [List.cons_append, List.cons_append, hopening, hopening]
    split
    · exact afterWord?_append hs t
    · rfl

theorem replaceAll_of_after? {rest : Text} (h : after? word t = some rest) :
    replaceAll word t = ' ' :: replaceAll word rest := by
  rw [replaceAll.eq_def]
  split
  · rename_i h'
    rw [h] at h'
    rw [Option.some.inj h']
  · rename_i h'
    rw [h] at h'
    cases h'

theorem replaceAll_cons {c : Char} (h : after? word (c :: t) = none) :
    replaceAll word (c :: t) = c :: replaceAll word t := by
  rw [replaceAll.eq_def]
  split
  · rename_i h'
    rw [h] at h'
    cases h'
  · rfl

/-- Text without slashes in front of a text stays as it is. -/
theorem replaceAll_append_left {s : Text} (hs : '/' ∉ s) (t : Text) :
    replaceAll word (s ++ t) = s ++ replaceAll word t := by
  induction s with
  | nil => rfl
  | cons c s ih =>
    rw [List.mem_cons, not_or] at hs
    rw [List.cons_append, replaceAll_cons (after?_cons_eq_none (Ne.symm hs.1) _), ih hs.2,
      List.cons_append]

/-- Text without slashes behind a text stays as it is. -/
theorem replaceAll_append {s : Text} (hs : '/' ∉ s) (t : Text) :
    replaceAll word (t ++ s) = replaceAll word t ++ s := by
  fun_induction replaceAll word t with
  | case1 t rest hrest _ ih =>
    have happend : after? word (t ++ s) = some (rest ++ s) := by
      rw [after?_append hs, hrest, Option.map_some]
    rw [replaceAll_of_after? happend, ih, List.cons_append]
  | case2 hnone => exact replaceAll_eq (occurs_of_not_mem hs)
  | case3 c cs hnone ih =>
    have happend : after? word (c :: (cs ++ s)) = none := by
      rw [← List.cons_append, after?_append hs, hnone, Option.map_none]
    rw [List.cons_append, replaceAll_cons happend, ih, List.cons_append]

/-- A tag in front of a text is replaced by a space. -/
theorem replaceAll_tag (word t : Text) :
    replaceAll word (['/', '*'] ++ word ++ ['*', '/'] ++ t) = ' ' :: replaceAll word t := by
  apply replaceAll_of_after?
  have hword : afterWord? word (word ++ [] ++ ['*', '/'] ++ t) = some t :=
    afterWord?_word (fun _ hc => absurd hc List.not_mem_nil) t
  unfold after?
  rw [List.append_assoc, List.append_assoc, Text.isPrefixOf?_append, Option.bind_some]
  simpa using hword

end NativeBindings.Tag
