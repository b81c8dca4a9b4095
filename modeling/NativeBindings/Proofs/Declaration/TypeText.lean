import NativeBindings.Declaration.TypeText
import NativeBindings.Proofs.Text.Collapse
import NativeBindings.Proofs.Text.Word

/-!
# Normal spellings

A normal spelling without tags is single-spaced (`singleSpaced_tidyPlain`): `collapse` makes it so,
and the two steps behind it look at neighbouring characters only. They keep the ends of a text, and
stop in front of text that has neither marks nor spaces, such as array dimensions
(`tidyPlain_append`). So the spelling of a type stays normal when dimensions are written behind it.
It changes blanks only (`filter_tidyPlain`), and a blank matters to it where the characters around
it do not hold on to each other (`tidyPlain_blank_iff`).
-/

namespace NativeBindings

namespace Text

variable {glued glued' : Char → Char → Bool}

/-- Behind a space no other one stands where blanks are single spaces. -/
theorem isChain_behind_space {a b : Char} {cs : Text}
    (h : (a :: ' ' :: b :: cs).IsChain MayFollow) : b ≠ ' ' ∧ (b :: cs).IsChain MayFollow := by
  obtain ⟨hb, hchain⟩ := List.isChain_cons_cons.1 (List.isChain_cons_cons.1 h).2
  refine ⟨?_, hchain⟩
  rintro rfl
  exact absurd (hb (by decide)).2 (by decide)

theorem dropSpaces_nil : dropSpaces glued [] = [] := by
  rw [dropSpaces]

/-- A character that no space follows stays. -/
theorem dropSpaces_cons_of_ne (a : Char) {b : Char} (cs : Text) (hb : b ≠ ' ') :
    dropSpaces glued (a :: b :: cs) = a :: dropSpaces glued (b :: cs) := by
  rw [dropSpaces]
  intro d ds hd
  exact hb (List.cons.inj hd).1

/-- Dropping spaces between characters keeps the first character. -/
@[simp] theorem head?_dropSpaces (t : Text) : (dropSpaces glued t).head? = t.head? := by
  fun_cases dropSpaces glued t <;> rfl

theorem exists_dropSpaces_cons (glued : Char → Char → Bool) (b : Char) (cs : Text) :
    ∃ rest, dropSpaces glued (b :: cs) = b :: rest :=
  List.head?_eq_some_iff.1 (head?_dropSpaces (b :: cs))

/-- Dropping spaces between characters keeps the last character. -/
@[simp] theorem getLast?_dropSpaces (t : Text) : (dropSpaces glued t).getLast? = t.getLast? := by
  fun_induction dropSpaces glued t with
  | case1 a b cs h ih =>
    rw [List.getLast?_cons, ih, List.getLast?_cons_cons, List.getLast?_cons_cons,
      List.getLast?_cons]
    rfl
  | case2 a b cs h ih =>
    rw [List.getLast?_cons_cons, List.getLast?_cons, ih, List.getLast?_cons_cons,
      List.getLast?_cons_cons, List.getLast?_cons]
    rfl
  | case3 a cs h ih => rw [List.getLast?_cons, ih, List.getLast?_cons]
  | case4 => rfl

/-- Dropping spaces between characters leaves single spaces. -/
theorem isChain_dropSpaces {t : Text} (h : t.IsChain MayFollow) :
    (dropSpaces glued t).IsChain MayFollow := by
  fun_induction dropSpaces glued t with
  | case1 a b cs _ ih =>
    obtain ⟨-, hrest⟩ := List.isChain_cons_cons.1 h
    obtain ⟨hb, hrest⟩ := List.isChain_cons_cons.1 hrest
    refine List.isChain_cons.2 ⟨fun y hy => ?_, ih hrest⟩
    -- The space is gone; what stood behind it is no blank.
    rw [head?_dropSpaces] at hy
    obtain rfl : b = y := Option.some.inj hy
    exact fun hblank => absurd (hb hblank).2 (by decide)
  | case2 a b cs _ ih =>
    obtain ⟨ha, hrest⟩ := List.isChain_cons_cons.1 h
    obtain ⟨hb, hrest⟩ := List.isChain_cons_cons.1 hrest
    refine List.isChain_cons_cons.2 ⟨ha, List.isChain_cons.2 ⟨fun y hy => ?_, ih hrest⟩⟩
    rw [head?_dropSpaces] at hy
    obtain rfl : b = y := Option.some.inj hy
    exact hb
  | case3 a cs _ ih =>
    obtain ⟨ha, hrest⟩ := List.isChain_cons.1 h
    refine List.isChain_cons.2 ⟨fun y hy => ?_, ih hrest⟩
    rw [head?_dropSpaces] at hy
    exact ha y hy
  | case4 => exact .nil

/-- Dropping spaces leaves a single-spaced text single-spaced. -/
theorem SingleSpaced.dropSpaces {t : Text} (h : SingleSpaced t) :
    SingleSpaced (Text.dropSpaces glued t) := by
  refine ⟨⟨fun c hc => ?_, fun c hc => ?_⟩, isChain_dropSpaces h.chain⟩
  · rw [head?_dropSpaces] at hc
    exact h.head c hc
  · rw [getLast?_dropSpaces] at hc
    exact h.last c hc

/-- Where blanks are single spaces, two steps drop the spaces that either of them drops: a space
that the first one leaves has the same neighbours as before. -/
theorem dropSpaces_comp {t : Text} (h : t.IsChain MayFollow) :
    dropSpaces glued' (dropSpaces glued t) = dropSpaces (fun a b => glued a b || glued' a b) t := by
  fun_induction dropSpaces glued t with
  | case1 a b cs hglued ih =>
    -- The first step drops the space.
    obtain ⟨hb, hchain⟩ := isChain_behind_space h
    have htail := ih hchain
    obtain ⟨rest, hrest⟩ := exists_dropSpaces_cons glued b cs
    rw [hrest] at htail ⊢
    rw [dropSpaces_cons_of_ne a rest hb, htail, dropSpaces, hglued, Bool.true_or, if_pos rfl]
  | case2 a b cs hkept ih =>
    -- The first step leaves it to the second one.
    obtain ⟨-, hchain⟩ := isChain_behind_space h
    have htail := ih hchain
    obtain ⟨rest, hrest⟩ := exists_dropSpaces_cons glued b cs
    rw [hrest] at htail ⊢
    rw [Bool.not_eq_true] at hkept
    rw [dropSpaces, dropSpaces, htail, hkept, Bool.false_or]
  | case3 a cs hcs ih =>
    rcases cs with _ | ⟨c, cs⟩
    · rw [dropSpaces_nil, dropSpaces, dropSpaces_nil, dropSpaces, dropSpaces_nil]
      · simp
      · simp
    · by_cases hc : c = ' '
      · -- Nothing follows such a space.
        subst hc
        rcases cs with _ | ⟨d, ds⟩
        · have hlast : ∀ g, dropSpaces g [' '] = [' '] := by
            intro g
            rw [dropSpaces, dropSpaces_nil]
            simp
          rw [hlast, dropSpaces, hlast, dropSpaces, hlast]
          · simp
          · simp
        · exact absurd rfl (hcs d ds)
      · have htail := ih (List.isChain_cons_cons.1 h).2
        obtain ⟨rest, hrest⟩ := exists_dropSpaces_cons glued c cs
        rw [hrest] at htail ⊢
        rw [dropSpaces_cons_of_ne a rest hc, htail, dropSpaces_cons_of_ne a cs hc]
  | case4 => rw [dropSpaces, dropSpaces]

/-- Where no two characters are glued nothing is dropped. -/
theorem dropSpaces_of_not_glued (h : ∀ a b, glued a b = false) (t : Text) :
    dropSpaces glued t = t := by
  fun_induction dropSpaces glued t with
  | case1 a b cs hglued _ =>
    rw [h a b] at hglued
    cases hglued
  | case2 a b cs _ ih => rw [ih]
  | case3 a cs _ ih => rw [ih]
  | case4 => rfl

/-- A text without spaces has none to drop. -/
theorem dropSpaces_of_not_mem {s : Text} (hs : ' ' ∉ s) : dropSpaces glued s = s := by
  fun_induction dropSpaces glued s with
  | case1 => exact absurd (by simp) hs
  | case2 => exact absurd (by simp) hs
  | case3 a cs _ ih => rw [ih fun h => hs (.tail a h)]
  | case4 => rfl

/-- Two texts without a space between them are treated one by one. -/
theorem dropSpaces_append {t s : Text} (ht : ' ' ∉ t.getLast?) (hs : ' ' ∉ s.head?) :
    dropSpaces glued (t ++ s) = dropSpaces glued t ++ dropSpaces glued s := by
  fun_induction dropSpaces glued t with
  | case1 a b cs h ih =>
    rw [List.getLast?_cons_cons, List.getLast?_cons_cons] at ht
    have htail := ih ht
    rw [List.cons_append] at htail
    rw [List.cons_append, List.cons_append, List.cons_append, dropSpaces, if_pos h, htail,
      List.cons_append]
  | case2 a b cs h ih =>
    rw [List.getLast?_cons_cons, List.getLast?_cons_cons] at ht
    have htail := ih ht
    rw [List.cons_append] at htail
    rw [List.cons_append, List.cons_append, List.cons_append, dropSpaces, if_neg h, htail,
      List.cons_append, List.cons_append]
  | case3 a cs hcs ih =>
    -- What follows `a` may be the text behind, which does not start with a space.
    cases cs with
    | nil =>
      rw [dropSpaces_nil]
      cases s with
      | nil =>
        rw [List.append_nil, dropSpaces_nil, List.append_nil, dropSpaces, dropSpaces_nil]
        nofun
      | cons b s =>
        rw [List.singleton_append, dropSpaces, List.singleton_append]
        rintro c d hcd
        exact hs (congrArg some (List.cons.inj hcd).1)
    | cons b bs =>
      rw [List.getLast?_cons_cons] at ht
      have htail := ih ht
      rw [List.cons_append] at htail
      rw [List.cons_append, List.cons_append, dropSpaces, htail, List.cons_append]
      intro c d hcd
      obtain ⟨rfl, hbs⟩ := List.cons.inj hcd
      cases bs with
      | nil => exact ht rfl
      | cons e es => exact hcs e es rfl
  | case4 => rfl

/-- A space between two texts stays or goes by the characters around it. -/
theorem dropSpaces_append_space {t s : Text} {x y : Char} (hx : t.getLast? = some x)
    (hy : s.head? = some y) (hxs : x ≠ ' ') :
    dropSpaces glued (t ++ ' ' :: s) =
      dropSpaces glued t ++ (if glued x y then [] else [' ']) ++ dropSpaces glued s := by
  obtain ⟨s, rfl⟩ := List.head?_eq_some_iff.1 hy
  fun_induction dropSpaces glued t with
  | case1 a b cs h ih =>
    rw [List.getLast?_cons_cons, List.getLast?_cons_cons] at hx
    have htail := ih hx
    rw [List.cons_append] at htail
    rw [List.cons_append, List.cons_append, List.cons_append, dropSpaces, if_pos h, htail]
    rfl
  | case2 a b cs h ih =>
    rw [List.getLast?_cons_cons, List.getLast?_cons_cons] at hx
    have htail := ih hx
    rw [List.cons_append] at htail
    rw [List.cons_append, List.cons_append, List.cons_append, dropSpaces, if_neg h, htail]
    rfl
  | case3 a cs hcs ih =>
    cases cs with
    | nil =>
      -- The space stands behind the last character of the first text.
      obtain rfl : a = x := Option.some.inj hx
      rw [List.singleton_append, dropSpaces, dropSpaces_nil]
      split <;> rfl
    | cons b bs =>
      rw [List.getLast?_cons_cons] at hx
      have htail := ih hx
      rw [List.cons_append] at htail
      rw [List.cons_append, List.cons_append, dropSpaces, htail]
      · rfl
      · intro c d hcd
        obtain ⟨rfl, hbs⟩ := List.cons.inj hcd
        cases bs with
        | nil => exact hxs (Option.some.inj hx).symm
        | cons e es => exact hcs e es rfl
  | case4 => cases hx

end Text

namespace TypeText

open Text

/-- A space behind a mark keeps the first character. -/
@[simp] theorem head?_spaceAfterMarks (t : Text) : (spaceAfterMarks t).head? = t.head? := by
  fun_cases spaceAfterMarks t <;> rfl

theorem exists_spaceAfterMarks_cons (b : Char) (cs : Text) :
    ∃ rest, spaceAfterMarks (b :: cs) = b :: rest :=
  List.head?_eq_some_iff.1 (head?_spaceAfterMarks (b :: cs))

/-- Behind other characters no space is put. -/
theorem spaceAfterMarks_cons {a : Char} (ha : isMark a = false) (t : Text) :
    spaceAfterMarks (a :: t) = a :: spaceAfterMarks t := by
  cases t with
  | nil => rfl
  | cons b cs => rw [spaceAfterMarks, ha, Bool.false_and, if_neg Bool.false_ne_true]

/-- A space behind a mark keeps the last character. -/
@[simp] theorem getLast?_spaceAfterMarks (t : Text) :
    (spaceAfterMarks t).getLast? = t.getLast? := by
  fun_induction spaceAfterMarks t with
  | case1 a b cs _ ih =>
    rw [List.getLast?_cons_cons, List.getLast?_cons, ih, List.getLast?_cons_cons,
      List.getLast?_cons]
    rfl
  | case2 a b cs _ ih =>
    rw [List.getLast?_cons, ih, List.getLast?_cons_cons, List.getLast?_cons]
    rfl
  | case3 => rfl

/-- A mark is not blank. -/
theorem not_isBlank_of_isMark {c : Char} (h : isMark c) : isBlank c = false := by
  unfold isMark at h
  rw [Bool.or_eq_true, beq_iff_eq, beq_iff_eq] at h
  rcases h with rfl | rfl <;> decide

/-- An identifier character is no mark. -/
theorem not_isMark_of_isIdentChar {c : Char} (h : isIdentChar c) : isMark c = false := by
  unfold isMark
  rw [Bool.or_eq_false_iff, beq_eq_false_iff_ne, beq_eq_false_iff_ne]
  constructor
  · rintro rfl
    exact absurd h (by decide)
  · rintro rfl
    exact absurd h (by decide)

/-- A space behind each mark leaves single spaces. -/
theorem isChain_spaceAfterMarks {t : Text} (h : t.IsChain MayFollow) :
    (spaceAfterMarks t).IsChain MayFollow := by
  fun_induction spaceAfterMarks t with
  | case1 a b cs hmark ih =>
    -- The new space stands between a mark and an identifier character, neither of them blank.
    rw [Bool.and_eq_true] at hmark
    obtain ⟨-, hrest⟩ := List.isChain_cons_cons.1 h
    refine List.isChain_cons_cons.2 ⟨fun _ => ⟨rfl, not_isBlank_of_isMark hmark.1⟩, ?_⟩
    refine List.isChain_cons.2 ⟨fun y hy => ?_, ih hrest⟩
    rw [head?_spaceAfterMarks] at hy
    obtain rfl : b = y := Option.some.inj hy
    exact mayFollow_of_not_isBlank (not_isBlank_of_isIdentChar hmark.2)
  | case2 a b cs _ ih =>
    obtain ⟨ha, hrest⟩ := List.isChain_cons_cons.1 h
    refine List.isChain_cons.2 ⟨fun y hy => ?_, ih hrest⟩
    rw [head?_spaceAfterMarks] at hy
    obtain rfl : b = y := Option.some.inj hy
    exact ha
  | case3 => exact h

/-- A text without marks needs no space behind one. -/
theorem spaceAfterMarks_of_not_isMark {s : Text} (hs : ∀ c ∈ s, isMark c = false) :
    spaceAfterMarks s = s := by
  fun_induction spaceAfterMarks s with
  | case1 a b cs hmark _ =>
    rw [hs a (.head _), Bool.false_and] at hmark
    cases hmark
  | case2 a b cs _ ih => rw [ih fun c hc => hs c (.tail a hc)]
  | case3 => rfl

/-- Two texts are treated one by one, unless a mark stands in front of an identifier character. -/
theorem spaceAfterMarks_append {t s : Text}
    (h : ∀ a ∈ t.getLast?, ∀ b ∈ s.head?, (isMark a && isIdentChar b) = false) :
    spaceAfterMarks (t ++ s) = spaceAfterMarks t ++ spaceAfterMarks s := by
  fun_induction spaceAfterMarks t with
  | case1 a b cs hmark ih =>
    rw [List.getLast?_cons_cons] at h
    rw [List.cons_append] at ih
    rw [List.cons_append, List.cons_append, spaceAfterMarks, if_pos hmark, ih h, List.cons_append,
      List.cons_append]
  | case2 a b cs hmark ih =>
    rw [List.getLast?_cons_cons] at h
    rw [List.cons_append] at ih
    rw [List.cons_append, List.cons_append, spaceAfterMarks, if_neg hmark, ih h, List.cons_append]
  | case3 t ht =>
    match t, ht with
    | [], _ => rfl
    | [a], _ =>
      cases s with
      | nil => rfl
      | cons b cs =>
        -- Only here do the two texts meet.
        rw [List.singleton_append, spaceAfterMarks, h a rfl b rfl, if_neg Bool.false_ne_true,
          List.singleton_append]
    | a :: b :: cs, ht => exact absurd rfl (ht a b cs)

/-- The normal spelling changes blanks only. -/
theorem filter_tidyPlain (t : Text) :
    (tidyPlain t).filter (!isBlank ·) = t.filter (!isBlank ·) := by
  unfold tidyPlain
  rw [filter_spaceAfterMarks, filter_dropSpaces, filter_collapse]

/-- A normal spelling without tags is single-spaced. -/
theorem singleSpaced_tidyPlain (t : Text) : SingleSpaced (tidyPlain t) := by
  have h : SingleSpaced (dropSpaces glued (collapse t)) := (singleSpaced_collapse t).dropSpaces
  unfold tidyPlain
  refine ⟨⟨fun c hc => ?_, fun c hc => ?_⟩, isChain_spaceAfterMarks h.chain⟩
  · rw [head?_spaceAfterMarks] at hc
    exact h.head c hc
  · rw [getLast?_spaceAfterMarks] at hc
    exact h.last c hc

/-- Text without marks and blanks that starts with no identifier character stays as it is behind a
single-spaced text. -/
theorem tidyPlain_append {t s : Text} (ht : SingleSpaced t) (hs : ∀ c ∈ s, isMark c = false)
    (hends : EndsIdent s) (hsolid : Solid s) : tidyPlain (t ++ s) = tidyPlain t ++ s := by
  -- A single-spaced text ends with no space, so the two steps meet at the end of `t`.
  have hlast : ' ' ∉ t.getLast? := fun h => absurd (ht.last ' ' h) (by decide)
  have hspace : ' ' ∉ s := fun h => absurd (hsolid ' ' h) (by decide)
  unfold tidyPlain
  rw [(ht.append (.of_solid hsolid)).collapse_eq, ht.collapse_eq,
    dropSpaces_append hlast fun h => hspace (List.mem_of_mem_head? h),
    dropSpaces_of_not_mem hspace, spaceAfterMarks_append fun a _ b hb => by
      rw [hends b hb, Bool.and_false], spaceAfterMarks_of_not_isMark hs]

/-- The normal spelling depends on the words. -/
theorem tidyPlain_congr {t t' : Text} (h : words t = words t') : tidyPlain t = tidyPlain t' := by
  unfold tidyPlain collapse
  rw [h]

/-- Behind a text that ends with no mark further text is treated by itself. -/
theorem spaceAfterMarks_dropSpaces_append {t : Text} {x : Char} (hx : t.getLast? = some x)
    (hmark : isMark x = false) (u : Text) :
    spaceAfterMarks (dropSpaces glued t ++ u) =
      spaceAfterMarks (dropSpaces glued t) ++ spaceAfterMarks u := by
  refine spaceAfterMarks_append fun a ha b _ => ?_
  rw [getLast?_dropSpaces, hx] at ha
  cases ha
  rw [hmark, Bool.false_and]

/-- Between two characters that are not blank a space does not matter to the spelling exactly when
they hold on to each other. -/
theorem tidyPlain_space_iff {t s : Text} {x y : Char} (hx : t.getLast? = some x)
    (hy : s.head? = some y) (hxblank : isBlank x = false) (hyblank : isBlank y = false) :
    tidyPlain (t ++ ' ' :: s) = tidyPlain (t ++ s) ↔ glued x y := by
  have hlast : (collapse t).getLast? = some x := by
    obtain ⟨t, rfl⟩ := List.getLast?_eq_some_iff.1 hx
    exact (collapse_concat t hxblank).1
  have hhead : (collapse s).head? = some y := by
    obtain ⟨s, rfl⟩ := List.head?_eq_some_iff.1 hy
    exact head?_collapse hyblank s
  have hxspace : x ≠ ' ' := ne_space_of_not_isBlank hxblank
  have hyspace : y ≠ ' ' := ne_space_of_not_isBlank hyblank
  -- Collapsed, the texts stand with the space between them, and right behind each other.
  have hspaced : collapse (t ++ ' ' :: s) = collapse t ++ ' ' :: collapse s :=
    collapse_append_blank (by decide)
      (words_ne_nil_of_mem_collapse (List.mem_of_getLast? hlast))
      (words_ne_nil_of_mem_collapse (List.mem_of_mem_head? hhead))
  have hjoined : collapse (t ++ s) = collapse t ++ collapse s :=
    collapse_append hx hxblank fun c hc => by
      rw [hy] at hc
      cases hc
      exact hyblank
  unfold tidyPlain
  rw [hspaced, hjoined, dropSpaces_append_space hlast hhead hxspace,
    dropSpaces_append (by simpa [hlast] using hxspace) (by simpa [hhead] using hyspace)]
  by_cases hglued : glued x y = true
  · rw [if_pos hglued, List.append_nil]
    exact iff_of_true rfl hglued
  · -- The space stays, and no other one stands between the two.
    have hmark : isMark x = false := by
      unfold glued at hglued
      cases hm : isMark x with
      | false => rfl
      | true => simp [hm] at hglued
    have happend := spaceAfterMarks_dropSpaces_append hlast hmark
    rw [if_neg hglued, List.append_assoc, List.singleton_append, happend, happend,
      spaceAfterMarks_cons (by decide)]
    refine iff_of_false (fun hsame => ?_) hglued
    have hlength := congrArg List.length (List.append_cancel_left hsame)
    simp at hlength

/-- A blank between two texts does not matter to the spelling exactly when there is one already, or
the characters around it hold on to each other. -/
theorem tidyPlain_blank_iff {c : Char} (hc : isBlank c) (t s : Text) :
    tidyPlain (t ++ c :: s) = tidyPlain (t ++ s) ↔
      ∀ x ∈ t.getLast?, ∀ y ∈ s.head?, isBlank x ∨ isBlank y ∨ glued x y := by
  have hspace : tidyPlain (t ++ c :: s) = tidyPlain (t ++ ' ' :: s) :=
    tidyPlain_congr (by rw [words_append_blank hc, words_append_blank (by decide)])
  rw [hspace]
  -- At either end of the whole, and beside another blank, it changes no word.
  rcases List.eq_nil_or_concat' t with rfl | ⟨t, x, rfl⟩
  · exact iff_of_true (tidyPlain_congr (words_cons_blank (by decide) s)) (fun x hx => by cases hx)
  cases s with
  | nil =>
    refine iff_of_true (tidyPlain_congr ?_) (fun x _ y hy => by cases hy)
    rw [words_concat_blank (by decide), List.append_nil]
  | cons y s =>
    simp only [List.getLast?_concat, List.head?_cons, Option.mem_some_iff, forall_eq']
    by_cases hx : isBlank x = true
    · refine iff_of_true (tidyPlain_congr ?_) (.inl hx)
      rw [List.append_assoc, List.append_assoc, List.singleton_append, List.singleton_append,
        words_append_blank hx, words_append_blank hx, words_cons_blank (by decide)]
    by_cases hy : isBlank y = true
    · refine iff_of_true (tidyPlain_congr ?_) (.inr (.inl hy))
      rw [words_append_blank (by decide), words_append_blank hy, words_cons_blank hy]
    rw [Bool.not_eq_true] at hx hy
    rw [tidyPlain_space_iff List.getLast?_concat rfl hx hy, hx, hy]
    simp

theorem mem_tidyPlain {c : Char} (hc : isBlank c = false) (t : Text) : c ∈ tidyPlain t ↔ c ∈ t := by
  have hfilter : c ∈ (tidyPlain t).filter (!isBlank ·) ↔ c ∈ t.filter (!isBlank ·) := by
    rw [filter_tidyPlain]
  simpa [List.mem_filter, hc] using hfilter

/-- Tidying changes blanks only. -/
theorem mem_tidy {c : Char} (hc : isBlank c = false) (t : Text) : c ∈ tidy t ↔ c ∈ t := by
  have hspace : c ≠ ' ' := ne_space_of_not_isBlank hc
  have htrim : ∀ t : Text, c ∈ t.trim ↔ c ∈ t := by
    intro t
    rw [mem_iff_exists_word hc, words_trim, ← mem_iff_exists_word hc]
  -- A comment moves to the front.
  have hmoved : ∀ {t before content after : Text},
      splitComment? t.trim = some (before, content, after) →
      (c ∈ t ↔ c ∈ ['/', '*'] ++ content ++ ['*', '/'] ∨ c ∈ before ++ ' ' :: after) := by
    intro t before content after hsplit
    rw [← htrim t, eq_of_splitComment? hsplit]
    simp only [List.mem_append, List.mem_cons, hspace]
    tauto
  fun_induction tidy t with
  | case1 t => exact mem_tidyPlain hc t
  | case2 t before content after hsplit hshorter tag hnil ih =>
    have hrest : c ∈ tidy (before ++ ' ' :: after) ↔ c ∈ before ++ ' ' :: after := ih
    rw [hmoved hsplit, ← hrest, hnil, or_iff_left List.not_mem_nil]
  | case3 t before content after hsplit hshorter tag hne ih =>
    have hrest : c ∈ tidy (before ++ ' ' :: after) ↔ c ∈ before ++ ' ' :: after := ih
    rw [hmoved hsplit, ← hrest, List.mem_append, List.mem_cons, or_iff_right hspace]

/-- A text without slashes holds no comment. -/
theorem tidy_eq_tidyPlain {t : Text} (h : '/' ∉ t) : tidy t = tidyPlain t := by
  have hslash : '/' ∉ t.trim := fun hmem => h ((trim_sublist t).subset hmem)
  have hnone : splitComment? t.trim = none := by
    unfold splitComment?
    rw [splitFirst?_eq_none (by simp) hslash]
    rfl
  rw [tidy]
  split
  · rfl
  · rename_i hsome
    rw [hnone] at hsome
    cases hsome

end TypeText

end NativeBindings
