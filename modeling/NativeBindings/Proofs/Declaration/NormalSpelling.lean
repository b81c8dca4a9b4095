import NativeBindings.Proofs.Declaration.Replacement
import NativeBindings.Proofs.Declaration.TagPlace

/-!
# Types in normal spelling

Which texts are normal spellings, by the spaces around marks and brackets (`IsNormal`): the normal
spelling of a text without tags is one (`isNormal_tidyPlain`), and one stays as it is
(`IsNormal.tidyPlain_eq`). Both look at a space with its two neighbours only: a space that is left
is not glued, and one that is put in stands behind a mark and in front of an identifier character.

A text whose slashes all belong to comments (`Annotated`) is spelled with its comments in front and
in their order, and what is spelled like that is spelled so again (`tidy_annotated`).
-/

namespace NativeBindings.TypeText

open Text

/-! ## Spaces and their neighbours -/

section Neighbours

variable {t : Text} {x y : Char}

/-- Characters do not hold on to each other when neither is a mark or a bracket that does. -/
theorem glued_eq_false_iff : glued x y = false ↔
    isMark x = false ∧ x ≠ '[' ∧ isMark y = false ∧ y ≠ '[' ∧ y ≠ ']' := by
  unfold glued
  simp only [Bool.or_eq_false_iff, beq_eq_false_iff_ne, and_assoc]

/-- Where blanks are single spaces, a space that stays is not glued. -/
theorem not_glued_of_infix_dropSpaces {glued : Char → Char → Bool} (h : t.IsChain MayFollow)
    (hspace : [x, ' ', y] <:+: dropSpaces glued t) : glued x y = false := by
  fun_induction dropSpaces glued t with
  | case1 a b cs hglued ih =>
    obtain ⟨hb, hchain⟩ := isChain_behind_space h
    obtain ⟨rest, hrest⟩ := exists_dropSpaces_cons glued b cs
    rcases List.infix_cons_iff.1 hspace with hhere | hbehind
    · -- The space in between is gone, and the next character is none.
      rw [hrest, List.cons_prefix_cons, List.cons_prefix_cons] at hhere
      exact absurd hhere.2.1.symm hb
    · exact ih hchain hbehind
  | case2 a b cs hkept ih =>
    obtain ⟨hb, hchain⟩ := isChain_behind_space h
    obtain ⟨rest, hrest⟩ := exists_dropSpaces_cons glued b cs
    rcases List.infix_cons_iff.1 hspace with hhere | hbehind
    · -- It is the space that stays here.
      rw [hrest, List.cons_prefix_cons, List.cons_prefix_cons, List.cons_prefix_cons] at hhere
      obtain ⟨rfl, -, rfl, -⟩ := hhere
      simpa using hkept
    rcases List.infix_cons_iff.1 hbehind with hhere | hbehind
    · rw [hrest, List.cons_prefix_cons, List.cons_prefix_cons] at hhere
      exact absurd hhere.2.1.symm hb
    · exact ih hchain hbehind
  | case3 a cs hcs ih =>
    rcases List.infix_cons_iff.1 hspace with hhere | hbehind
    · -- Behind the first character there is no space with something behind it.
      rw [List.cons_prefix_cons] at hhere
      obtain ⟨rest, hrest⟩ := hhere.2
      have hhead : (dropSpaces glued cs).head? = cs.head? := head?_dropSpaces cs
      rw [← hrest] at hhead
      obtain ⟨ds, rfl⟩ := List.head?_eq_some_iff.1 hhead.symm
      rcases ds with _ | ⟨d, ds⟩
      · rw [dropSpaces, dropSpaces_nil] at hrest
        · simp at hrest
        · simp
      · exact absurd rfl (hcs d ds)
    · exact ih (List.isChain_cons.1 h).2 hbehind
  | case4 => exact absurd hspace.length_le (by simp)

/-- A space between two characters stood there, or was put between a mark and an identifier
character. -/
theorem infix_of_infix_spaceAfterMarks (h : [x, ' ', y] <:+: spaceAfterMarks t) :
    [x, ' ', y] <:+: t ∨ isMark x ∧ isIdentChar y := by
  fun_induction spaceAfterMarks t with
  | case1 a b cs hmark ih =>
    rw [Bool.and_eq_true] at hmark
    obtain ⟨rest, hrest⟩ := exists_spaceAfterMarks_cons b cs
    rcases List.infix_cons_iff.1 h with hhere | hbehind
    · rw [hrest, List.cons_prefix_cons, List.cons_prefix_cons, List.cons_prefix_cons] at hhere
      obtain ⟨rfl, -, rfl, -⟩ := hhere
      -- The space is the one that is put in here.
      exact .inr hmark
    rcases List.infix_cons_iff.1 hbehind with hhere | hbehind
    · rw [hrest, List.cons_prefix_cons, List.cons_prefix_cons] at hhere
      obtain ⟨-, rfl, -⟩ := hhere
      exact absurd hmark.2 (by decide)
    · exact (ih hbehind).imp_left List.infix_cons
  | case2 a b cs _ ih =>
    rcases List.infix_cons_iff.1 h with hhere | hbehind
    · -- The space is no mark, so none is put behind it.
      obtain ⟨rfl, hspace⟩ := List.cons_prefix_cons.1 hhere
      obtain ⟨rest, hrest⟩ := exists_spaceAfterMarks_cons b cs
      obtain rfl : ' ' = b := by
        rw [hrest, List.cons_prefix_cons] at hspace
        exact hspace.1
      rw [spaceAfterMarks_cons (by decide), List.cons_prefix_cons] at hspace
      obtain ⟨after, hafter⟩ := hspace.2
      have hhead := head?_spaceAfterMarks cs
      rw [← hafter] at hhead
      obtain ⟨ds, rfl⟩ := List.head?_eq_some_iff.1 hhead.symm
      exact .inl (List.prefix_append [x, ' ', y] ds).isInfix
    · exact (ih hbehind).imp_left List.infix_cons
  | case3 => exact .inl h

/-- No identifier character stands right behind a mark. -/
theorem not_ident_of_infix_spaceAfterMarks (hx : isMark x) (h : [x, y] <:+: spaceAfterMarks t) :
    isIdentChar y = false := by
  fun_induction spaceAfterMarks t with
  | case1 a b cs hmark ih =>
    rw [Bool.and_eq_true] at hmark
    rcases List.infix_cons_iff.1 h with hhere | hbehind
    · -- Behind the mark comes the space, and behind that no mark.
      rw [List.cons_prefix_cons, List.cons_prefix_cons] at hhere
      obtain ⟨-, rfl, -⟩ := hhere
      decide
    rcases List.infix_cons_iff.1 hbehind with hhere | hbehind
    · rw [List.cons_prefix_cons] at hhere
      obtain ⟨rfl, -⟩ := hhere
      exact absurd hx (by decide)
    · exact ih hbehind
  | case2 a b cs hnot ih =>
    rcases List.infix_cons_iff.1 h with hhere | hbehind
    · obtain ⟨rest, hrest⟩ := exists_spaceAfterMarks_cons b cs
      rw [hrest, List.cons_prefix_cons, List.cons_prefix_cons] at hhere
      obtain ⟨rfl, rfl, -⟩ := hhere
      simpa [hx] using hnot
    · exact ih hbehind
  | case3 t ht =>
    rcases t with _ | ⟨a, _ | ⟨b, cs⟩⟩
    · cases List.infix_nil.1 h
    · exact absurd h.length_le (by simp)
    · exact absurd rfl (ht a b cs)

end Neighbours

/-! ## Normal spellings -/

/-- A normal spelling without tags. -/
structure IsNormal (t : Text) : Prop extends SingleSpaced t where
  /-- No space stands in front of a mark or a bracket. -/
  front : ∀ y, [' ', y] <:+: t → isMark y = false ∧ y ≠ '[' ∧ y ≠ ']'
  /-- No space stands behind an opening bracket. -/
  bracket : ¬['[', ' '] <:+: t
  /-- Where a space stands behind a mark, an identifier character follows. -/
  spaced : ∀ x y, isMark x → [x, ' ', y] <:+: t → isIdentChar y
  /-- Right behind a mark no identifier character stands. -/
  parted : ∀ x y, isMark x → [x, y] <:+: t → isIdentChar y = false

/-- A space of a single-spaced text stands between two characters. -/
theorem exists_infix_of_front {t : Text} {y : Char} (h : SingleSpaced t)
    (hspace : [' ', y] <:+: t) : ∃ x, [x, ' ', y] <:+: t := by
  obtain ⟨before, after, rfl⟩ := hspace
  rw [List.append_assoc] at h
  obtain ⟨-, hne, -, -⟩ := h.of_append_blank (s := y :: after) (by decide)
  obtain ⟨front, x, rfl⟩ := (List.eq_nil_or_concat' before).resolve_left hne
  exact ⟨x, front, after, by simp⟩

theorem exists_infix_of_behind {t : Text} {x : Char} (h : SingleSpaced t)
    (hspace : [x, ' '] <:+: t) : ∃ y, [x, ' ', y] <:+: t := by
  obtain ⟨before, after, rfl⟩ := hspace
  have hsplit : before ++ [x, ' '] ++ after = (before ++ [x]) ++ ' ' :: after := by simp
  rw [hsplit] at h
  obtain ⟨-, -, hne, -⟩ := h.of_append_blank (by decide)
  obtain ⟨y, after, rfl⟩ := List.exists_cons_of_ne_nil hne
  exact ⟨y, before, after, by simp⟩

/-- The normal spelling of a text without tags is normal. -/
theorem isNormal_tidyPlain (t : Text) : IsNormal (tidyPlain t) := by
  have hspaced := singleSpaced_tidyPlain t
  have hwindow : ∀ {x y}, [x, ' ', y] <:+: tidyPlain t →
      glued x y = false ∨ isMark x ∧ isIdentChar y := by
    intro x y h
    rcases infix_of_infix_spaceAfterMarks h with hold | hnew
    · exact .inl (not_glued_of_infix_dropSpaces (singleSpaced_collapse t).chain hold)
    · exact .inr hnew
  -- Each space stayed, and is not glued, or was put in behind a mark.
  refine ⟨hspaced, fun y hy => ?_, fun hbracket => ?_, fun x y hx hy => ?_, fun x y hx hy => ?_⟩
  · obtain ⟨x, hx⟩ := exists_infix_of_front hspaced hy
    rcases hwindow hx with hglued | ⟨-, hident⟩
    · exact (glued_eq_false_iff.1 hglued).2.2
    · refine ⟨not_isMark_of_isIdentChar hident, ?_, ?_⟩
      · rintro rfl
        exact absurd hident (by decide)
      · rintro rfl
        exact absurd hident (by decide)
  · obtain ⟨y, hy⟩ := exists_infix_of_behind hspaced hbracket
    rcases hwindow hy with hglued | ⟨hmark, -⟩
    · exact absurd rfl (glued_eq_false_iff.1 hglued).2.1
    · exact absurd hmark (by decide)
  · rcases hwindow hy with hglued | ⟨-, hident⟩
    · rw [(glued_eq_false_iff.1 hglued).1] at hx
      cases hx
    · exact hident
  · exact not_ident_of_infix_spaceAfterMarks hx hy

namespace IsNormal

variable {t : Text}

/-- Of a normal spelling the spaces that are glued stand behind marks, and each is put in again. -/
theorem spaceAfterMarks_dropSpaces
    (hspace : ∀ x y, [x, ' ', y] <:+: t → glued x y → isMark x ∧ isIdentChar y)
    (hparted : ∀ x y, isMark x → [x, y] <:+: t → isIdentChar y = false) :
    spaceAfterMarks (dropSpaces glued t) = t := by
  fun_induction dropSpaces glued t with
  | case1 a b cs hglued ih =>
    obtain ⟨hmark, hident⟩ := hspace a b (List.prefix_append [a, ' ', b] cs).isInfix hglued
    have hrest := ih (fun x y hxy => hspace x y (List.infix_cons (List.infix_cons hxy)))
      fun x y hx hxy => hparted x y hx (List.infix_cons (List.infix_cons hxy))
    obtain ⟨rest, heq⟩ := exists_dropSpaces_cons glued b cs
    rw [heq] at hrest ⊢
    rw [spaceAfterMarks, hmark, hident, Bool.and_true, if_pos rfl, hrest]
  | case2 a b cs hkept ih =>
    have hrest := ih (fun x y hxy => hspace x y (List.infix_cons (List.infix_cons hxy)))
      fun x y hx hxy => hparted x y hx (List.infix_cons (List.infix_cons hxy))
    rw [Bool.not_eq_true] at hkept
    rw [spaceAfterMarks_cons (glued_eq_false_iff.1 hkept).1, spaceAfterMarks_cons (by decide),
      hrest]
  | case3 a cs _ ih =>
    have hrest := ih (fun x y hxy => hspace x y (List.infix_cons hxy))
      fun x y hx hxy => hparted x y hx (List.infix_cons hxy)
    cases cs with
    | nil => rw [dropSpaces_nil]; rfl
    | cons b cs =>
      obtain ⟨rest, heq⟩ := exists_dropSpaces_cons glued b cs
      rw [heq] at hrest ⊢
      rw [spaceAfterMarks, hrest, if_neg]
      intro hmark
      rw [Bool.and_eq_true] at hmark
      -- Nothing is put in where no space was.
      have hnot := hparted a b hmark.1 (List.prefix_append [a, b] cs).isInfix
      rw [hmark.2] at hnot
      cases hnot
  | case4 => rfl

/-- A normal spelling stays as it is. -/
theorem tidyPlain_eq (h : IsNormal t) : tidyPlain t = t := by
  unfold tidyPlain
  rw [h.collapse_eq]
  refine spaceAfterMarks_dropSpaces (fun x y hxy hglued => ?_) h.parted
  have hbehind : [' ', y] <:+: t := (List.suffix_cons x [' ', y]).isInfix.trans hxy
  have hfront : [x, ' '] <:+: t := (List.prefix_append [x, ' '] [y]).isInfix.trans hxy
  have hmark : isMark x := by
    by_contra hnot
    rw [Bool.not_eq_true] at hnot
    have hbracket : x ≠ '[' := by
      rintro rfl
      exact h.bracket hfront
    rw [glued_eq_false_iff.2 ⟨hnot, hbracket, h.front y hbehind⟩] at hglued
    cases hglued
  exact ⟨hmark, h.spaced x y hmark hxy⟩

end IsNormal

/-! ## Texts with comments -/

/-- A text with the texts of its comments and with what is left when a space stands for each of
them. All slashes outside the comments are delimiters of comments. -/
inductive Annotated : Text → List Text → Text → Prop
  /-- A text without comments. -/
  | plain {t : Text} (h : '/' ∉ t) : Annotated t [] t
  /-- A comment ends where it is first closed. -/
  | comment {before content after rest : Text} {contents : List Text} (hbefore : '/' ∉ before)
      (hcontent : ¬['*', '/'] <:+: content) (h : Annotated after contents rest) :
      Annotated (before ++ tag content ++ after) (content :: contents) (before ++ ' ' :: rest)

/-- Comments in front of a text, one space apart. -/
def tagged (contents : List Text) (plain : Text) : Text :=
  unwords (contents.map tag ++ [plain].filter (!·.isEmpty))

@[simp] theorem tagged_nil (plain : Text) : tagged [] plain = plain := by
  cases plain with
  | nil => rfl
  | cons => exact unwords_singleton _

/-- The first comment stands in front of the others. -/
theorem tagged_cons (content : Text) (contents : List Text) (plain : Text) :
    tagged (content :: contents) plain =
      unwords (tag content :: [tagged contents plain].filter (!·.isEmpty)) := by
  unfold tagged
  rw [List.map_cons, List.cons_append]
  have hne : ∀ w ∈ contents.map tag ++ [plain].filter (!·.isEmpty), w ≠ [] := by
    intro w hw
    rcases List.mem_append.1 hw with hw | hw
    · obtain ⟨content, -, rfl⟩ := List.mem_map.1 hw
      exact List.cons_ne_nil _ _
    · simpa using (List.mem_filter.1 hw).2
  -- None of the others is empty, so together they are empty only if there are none.
  generalize contents.map tag ++ [plain].filter (!·.isEmpty) = ws at hne
  cases ws with
  | nil => rfl
  | cons w ws =>
    have hjoined : unwords (w :: ws) ≠ [] := by
      have hw := hne w (.head ws)
      by_cases hws : ws = []
      · rwa [hws, unwords_singleton]
      · rw [unwords_cons hws]
        simp [hw]
    rw [List.filter_cons_of_pos (by simpa using hjoined), List.filter_nil,
      unwords_cons (List.cons_ne_nil w ws), unwords_cons (List.cons_ne_nil _ []),
      unwords_singleton]

/-- The delimiter at the end of a comment is the first one. -/
theorem splitFirst?_closing {content : Text} (h : ¬['*', '/'] <:+: content) (after : Text) :
    splitFirst? ['*', '/'] (content ++ (['*', '/'] ++ after)) = some (content, after) := by
  induction content with
  | nil => exact splitFirst?_append ['*', '/'] after
  | cons a content ih =>
    have hnot : ['*', '/'].isPrefixOf? (a :: (content ++ (['*', '/'] ++ after))) = none := by
      by_contra hfound
      obtain ⟨rest, hrest⟩ := Option.ne_none_iff_exists'.1 hfound
      obtain ⟨rfl, hbehind⟩ := List.cons.inj (eq_append_of_isPrefixOf? hrest)
      -- The slash would stand in the comment, since its end starts with a star.
      cases content with
      | nil => cases hbehind
      | cons b content =>
        obtain ⟨rfl, -⟩ := List.cons.inj hbehind
        exact h (List.prefix_append ['*', '/'] content).isInfix
    rw [List.cons_append, splitFirst?, hnot, ih fun hin => h (List.infix_cons hin), Option.map_some]

theorem getLast?_append_tag (t content : Text) : (t ++ tag content).getLast? = some '/' := by
  have hsplit : t ++ tag content = t ++ ['/', '*'] ++ content ++ ['*'] ++ ['/'] := by
    unfold tag
    simp
  rw [hsplit, List.getLast?_concat]

/-- The first comment of a text without the blanks at its ends. -/
theorem splitComment?_tag {before content : Text} (hbefore : '/' ∉ before)
    (hcontent : ¬['*', '/'] <:+: content) (after : Text) :
    splitComment? (trim (before ++ tag content ++ after)) =
      some (trimLeft before, content, trimRight after) := by
  -- The slash and the asterisk of the tag keep blanks from its ends.
  have hleft : trimLeft (before ++ tag content ++ after) =
      trimLeft before ++ tag content ++ after := by
    rw [List.append_assoc, List.append_assoc]
    exact trimLeft_append_of_head before (by decide) _
  have hlast := getLast?_append_tag (trimLeft before) content
  have htrim : trim (before ++ tag content ++ after) =
      trimLeft before ++ ('/' :: ['*'] ++ (content ++ (['*', '/'] ++ trimRight after))) := by
    unfold trim
    rw [hleft, trimRight_append_of_last hlast (by decide)]
    unfold tag
    simp
  have hfront : '/' ∉ trimLeft before := fun hin => hbefore (mem_of_mem_trimLeft hin)
  -- The first opening of the rest is that of the tag, and so is the first closing behind it.
  unfold splitComment?
  rw [htrim, splitFirst?_pattern hfront, Option.bind_eq_bind, Option.bind_some]
  dsimp only
  rw [splitFirst?_closing hcontent]
  rfl

namespace Annotated

variable {t rest : Text} {contents : List Text}

/-- What is left holds no slash. -/
theorem not_mem (h : Annotated t contents rest) : '/' ∉ rest := by
  induction h with
  | plain h => exact h
  | comment hbefore _ _ ih => simp [hbefore, ih]

/-- More text in front does not matter. -/
theorem append_left (h : Annotated t contents rest) {front : Text} (hfront : '/' ∉ front) :
    Annotated (front ++ t) contents (front ++ rest) := by
  cases h with
  | plain h => exact .plain (by simp [hfront, h])
  | @comment before content after rest contents hbefore hcontent h =>
    have hfront' : '/' ∉ front ++ before := by simp [hfront, hbefore]
    have hwhole := comment hfront' hcontent h
    simpa only [List.append_assoc] using hwhole

/-- Blanks at the end do not matter. -/
theorem trimRight (h : Annotated t contents rest) :
    ∃ rest', Annotated (Text.trimRight t) contents rest' ∧ words rest' = words rest := by
  induction h with
  | @plain t h =>
    refine ⟨Text.trimRight t, .plain fun hin => h ?_, words_trimRight t⟩
    rw [← dropTrailing_append_takeTrailing isBlank t]
    exact List.mem_append_left _ hin
  | @comment before content after rest contents hbefore hcontent _ ih =>
    obtain ⟨rest', hrest, hwords⟩ := ih
    have hlast := getLast?_append_tag before content
    refine ⟨before ++ ' ' :: rest', ?_, ?_⟩
    · rw [trimRight_append_of_last hlast (by decide)]
      exact .comment hbefore hcontent hrest
    · rw [words_append_blank (by decide), words_append_blank (by decide), hwords]

/-- A text with comments is spelled with the comments in front and in their order. -/
theorem tidy_eq (h : Annotated t contents rest) : tidy t = tagged contents (tidyPlain rest) := by
  induction contents generalizing t rest with
  | nil =>
    cases h with
    | plain h => rw [tidy_eq_tidyPlain h, tagged_nil]
  | cons content contents ih =>
    cases h with
    | @comment before _ after rest _ hbefore hcontent h =>
      -- The first comment is taken out; with a space in its place the others are spelled like this.
      obtain ⟨rest', hrest, hwords⟩ := h.trimRight
      have hfront : '/' ∉ trimLeft before ++ [' '] := by
        have hleft : '/' ∉ trimLeft before := fun hin => hbefore (mem_of_mem_trimLeft hin)
        simp [hleft]
      have hbehind := ih (hrest.append_left hfront)
      rw [List.append_assoc, List.append_assoc, List.singleton_append, List.singleton_append]
        at hbehind
      have hplain : tidyPlain (trimLeft before ++ ' ' :: rest') =
          tidyPlain (before ++ ' ' :: rest) := by
        refine tidyPlain_congr ?_
        rw [words_append_blank (by decide), words_append_blank (by decide), words_trimLeft, hwords]
      rw [tidy_of_splitComment? (splitComment?_tag hbefore hcontent after), hbehind, hplain,
        tagged_cons]

/-- With its comments in front a text holds the same comments. -/
theorem tagged (h : Annotated t contents rest) {plain : Text} (hplain : '/' ∉ plain) :
    ∃ rest', Annotated (tagged contents plain) contents rest' ∧ words rest' = words plain := by
  induction h with
  | plain => exact ⟨plain, by rw [tagged_nil]; exact .plain hplain, rfl⟩
  | @comment before content after rest contents _ hcontent _ ih =>
    obtain ⟨rest', hrest, hwords⟩ := ih
    rw [tagged_cons]
    by_cases hnil : TypeText.tagged contents plain = []
    · -- The comment is the last one, and nothing follows it.
      rw [hnil, List.filter_cons_of_neg (by simp), List.filter_nil, unwords_singleton]
      rw [hnil] at hrest
      refine ⟨' ' :: rest', ?_, ?_⟩
      · have hwhole := hrest.comment List.not_mem_nil hcontent
        rwa [List.nil_append, List.append_nil] at hwhole
      · rw [words_cons_blank (by decide), hwords]
    · rw [List.filter_cons_of_pos (by simpa using hnil), List.filter_nil,
        unwords_cons (List.cons_ne_nil _ []), unwords_singleton]
      refine ⟨' ' :: ' ' :: rest', ?_, ?_⟩
      · have hbehind : Annotated (' ' :: TypeText.tagged contents plain) contents (' ' :: rest') :=
          hrest.append_left (show '/' ∉ [' '] by decide)
        exact hbehind.comment List.not_mem_nil hcontent
      · rw [words_cons_blank (by decide), words_cons_blank (by decide), hwords]

end Annotated

/-- A type whose slashes all belong to comments is spelled with its comments in front, in their
order and one space apart, and with what is left behind them in normal spelling: with what the
replacements leave, and a space between each mark and an identifier character behind it. Spelled
once more it stays as it is. -/
theorem tidy_annotated {t rest : Text} {contents : List Text} (h : Annotated t contents rest) :
    tidy (tidy t) = tidy t ∧
      ∃ plain, tidy t = tagged contents plain ∧ IsNormal plain ∧
        plain = spaceAfterMarks (settled rest.collapse) ∧
        plain.filter (!isBlank ·) = rest.filter (!isBlank ·) := by
  have hslash : '/' ∉ tidyPlain rest := fun hin =>
    h.not_mem ((mem_tidyPlain (by decide) rest).1 hin)
  obtain ⟨rest', hagain, hwords⟩ := h.tagged hslash
  refine ⟨?_, tidyPlain rest, h.tidy_eq, isNormal_tidyPlain rest, tidyPlain_eq_settled rest,
    filter_tidyPlain rest⟩
  calc tidy (tidy t) = tidy (tagged contents (tidyPlain rest)) := by rw [h.tidy_eq]
    _ = tagged contents (tidyPlain rest') := hagain.tidy_eq
    _ = tagged contents (tidyPlain (tidyPlain rest)) := by rw [tidyPlain_congr hwords]
    _ = tagged contents (tidyPlain rest) := by rw [(isNormal_tidyPlain rest).tidyPlain_eq]
    _ = tidy t := h.tidy_eq.symm

/-- Two comments, the second one behind a mark and in front of a qualifier. -/
theorem tidy_annotated_array :
    Annotated "/*ARRAY*/const  Point * /*OUT*/const * [ 3 ]".toList ["ARRAY".toList, "OUT".toList]
        " const  Point *  const * [ 3 ]".toList ∧
      tidy "/*ARRAY*/const  Point * /*OUT*/const * [ 3 ]".toList =
        "/*ARRAY*/ /*OUT*/ const Point* const*[3]".toList ∧
      tidy "/*ARRAY*/ /*OUT*/ const Point* const*[3]".toList =
        "/*ARRAY*/ /*OUT*/ const Point* const*[3]".toList := by
  have hsecond : Annotated ("const  Point * ".toList ++ tag "OUT".toList ++ "const * [ 3 ]".toList)
      ["OUT".toList] ("const  Point * ".toList ++ ' ' :: "const * [ 3 ]".toList) :=
    .comment (by decide) (by decide) (.plain (by decide))
  have hclosing : ¬['*', '/'] <:+: "ARRAY".toList := by decide
  have hboth := hsecond.comment List.not_mem_nil hclosing
  have htext : [] ++ tag "ARRAY".toList ++
      ("const  Point * ".toList ++ tag "OUT".toList ++ "const * [ 3 ]".toList) =
        "/*ARRAY*/const  Point * /*OUT*/const * [ 3 ]".toList := by decide +kernel
  have hrest : [] ++ ' ' :: ("const  Point * ".toList ++ ' ' :: "const * [ 3 ]".toList) =
      " const  Point *  const * [ 3 ]".toList := by decide +kernel
  rw [htext, hrest] at hboth
  have hspelled : tidy "/*ARRAY*/const  Point * /*OUT*/const * [ 3 ]".toList =
      "/*ARRAY*/ /*OUT*/ const Point* const*[3]".toList := by decide +kernel
  have hagain := (tidy_annotated hboth).1
  rw [hspelled] at hagain
  exact ⟨hboth, hspelled, hagain⟩

end NativeBindings.TypeText
