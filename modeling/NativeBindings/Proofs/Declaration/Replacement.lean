import Mathlib.Data.List.Infix
import NativeBindings.Proofs.Declaration.TypeText

/-!
# Replacements

The spaces of a type go by replacements: each replaces a space and a character next to it by the
character, again and again until the two stand nowhere side by side, and one replacement follows
another. On a single-spaced text one reading is enough for a replacement (`Replacement.exhaust_eq`),
since it leaves the other spaces with the neighbours they had. For the same reason no replacement
undoes another, their order does not matter, and all of them together are one reading that looks at
both neighbours of each space (`foldl_exhaust`). So the normal spelling of a type is what the
replacements leave (`tidyPlain_eq_settled`).
-/

namespace NativeBindings

/-- A replacement of a space and a character next to it by the character. -/
inductive Replacement
  /-- The space stands in front of the character. -/
  | before (c : Char)
  /-- The space stands behind the character. -/
  | behind (c : Char)

namespace Replacement

/-- The first one of the two that are replaced. -/
def first : Replacement → Char
  | before _ => ' '
  | behind c => c

/-- The second one of the two that are replaced. -/
def second : Replacement → Char
  | before c => c
  | behind _ => ' '

/-- The character that is put in place of the two. -/
def kept : Replacement → Char
  | before c => c
  | behind c => c

/-- The space between two characters is replaced. -/
def glues : Replacement → Char → Char → Bool
  | before c, _, y => y == c
  | behind c, x, _ => x == c

/-- The text with the two replaced wherever they stand side by side, in one reading. -/
def replace (r : Replacement) : Text → Text
  | a :: b :: cs =>
    if a = r.first ∧ b = r.second then r.kept :: replace r cs else a :: replace r (b :: cs)
  | cs => cs

theorem length_replace_le (r : Replacement) (t : Text) : (r.replace t).length ≤ t.length := by
  fun_induction replace r t with
  | case1 b cs _ ih =>
    rw [List.length_cons, List.length_cons, List.length_cons]
    omega
  | case2 a b cs _ ih =>
    rw [List.length_cons, List.length_cons]
    omega
  | case3 => exact Nat.le_refl _

/-- Where the two stand side by side, a reading makes the text shorter. -/
theorem length_replace_lt {r : Replacement} {t : Text} (h : [r.first, r.second] <:+: t) :
    (r.replace t).length < t.length := by
  fun_induction replace r t with
  | case1 a b cs _ _ =>
    have hrest := length_replace_le r cs
    rw [List.length_cons, List.length_cons, List.length_cons]
    omega
  | case2 a b cs hnot ih =>
    rcases List.infix_cons_iff.1 h with hhere | hrest
    · obtain ⟨rest, hrest⟩ := hhere
      obtain ⟨ha, hrest⟩ := List.cons.inj hrest
      exact absurd ⟨ha.symm, (List.cons.inj hrest).1.symm⟩ hnot
    · rw [List.length_cons, List.length_cons]
      exact Nat.succ_lt_succ (ih hrest)
  | case3 t ht =>
    rcases t with _ | ⟨a, _ | ⟨b, cs⟩⟩
    · cases List.infix_nil.1 h
    · exact absurd h.length_le (by simp)
    · exact absurd rfl (ht a b cs)

/-- Readings, until the two stand nowhere side by side. -/
def exhaust (r : Replacement) (t : Text) : Text :=
  if h : [r.first, r.second] <:+: t then
    have : (r.replace t).length < t.length := length_replace_lt h
    r.exhaust (r.replace t)
  else t
termination_by t.length
decreasing_by exact this

variable {r : Replacement}

/-- A character stays that is not the first one of the two in front of the second one. -/
theorem replace_cons {a : Char} {cs : Text} (h : a = r.first → cs.head? ≠ some r.second) :
    r.replace (a :: cs) = a :: r.replace cs := by
  cases cs with
  | nil => rfl
  | cons b cs =>
    rw [replace, if_neg]
    exact fun hboth => h hboth.1 (congrArg some hboth.2)

/-- A text in which the two do not stand side by side stays. -/
theorem replace_eq_self {t : Text} (h : ¬[r.first, r.second] <:+: t) : r.replace t = t := by
  induction t with
  | nil => rfl
  | cons a cs ih =>
    rw [replace_cons, ih fun hrest => h (List.infix_cons hrest)]
    rintro rfl hsecond
    obtain ⟨rest, rfl⟩ := List.head?_eq_some_iff.1 hsecond
    exact h (List.prefix_append [r.first, r.second] rest).isInfix

/-- One reading of a single-spaced text drops the spaces next to the character. -/
theorem replace_eq {t : Text} (hr : r.kept ≠ ' ') (h : Text.SingleSpaced t) :
    r.replace t = Text.dropSpaces r.glues t := by
  fun_induction Text.dropSpaces r.glues t with
  | case1 a b cs hglued ih =>
    have ha : a ≠ ' ' := Text.ne_space_of_not_isBlank (h.head a rfl)
    have hrest := ih (h.of_append_blank (t := [a]) (by decide)).2.2.2
    cases r with
    | before c =>
      -- The space goes with the character behind it.
      obtain rfl : b = c := by simpa [glues] using hglued
      rw [replace_cons fun hspace => absurd hspace hr] at hrest
      rw [replace_cons fun hspace => absurd hspace ha, replace, if_pos ⟨rfl, rfl⟩, ← hrest]
      rfl
    | behind c =>
      obtain rfl : a = c := by simpa [glues] using hglued
      rw [replace, if_pos ⟨rfl, rfl⟩, hrest]
      rfl
  | case2 a b cs hkept ih =>
    have ha : a ≠ ' ' := Text.ne_space_of_not_isBlank (h.head a rfl)
    have hrest := ih (h.of_append_blank (t := [a]) (by decide)).2.2.2
    cases r with
    | before c =>
      have hb : b ≠ c := by simpa [glues] using hkept
      rw [replace_cons fun hspace => absurd hspace ha, replace_cons, hrest]
      exact fun _ hsecond => hb (Option.some.inj hsecond)
    | behind c =>
      have hac : a ≠ c := by simpa [glues] using hkept
      have hspace : ' ' ≠ (behind c).first := hr.symm
      rw [replace_cons fun hfirst => absurd hfirst hac,
        replace_cons fun hfirst => absurd hfirst hspace, hrest]
  | case3 a cs hcs ih =>
    -- No space stands behind the first character, since something would follow it.
    have hhead : ∀ b ∈ cs.head?, isBlank b = false := by
      intro b hb
      obtain ⟨ds, rfl⟩ := List.head?_eq_some_iff.1 hb
      by_contra hblank
      rw [Bool.not_eq_false] at hblank
      obtain ⟨rfl, -, hne, -⟩ := h.of_append_blank (t := [a]) hblank
      obtain ⟨d, ds, rfl⟩ := List.exists_cons_of_ne_nil hne
      exact hcs d ds rfl
    rw [replace_cons, ih (h.tail hhead)]
    intro hfirst hsecond
    cases r with
    | before c => exact Text.ne_space_of_not_isBlank (h.head a rfl) hfirst
    | behind c => exact Text.ne_space_of_not_isBlank (hhead ' ' hsecond) rfl
  | case4 => rfl

/-- On a single-spaced text a replacement drops the spaces next to the character. -/
theorem exhaust_eq {t : Text} (hr : r.kept ≠ ' ') (h : Text.SingleSpaced t) :
    r.exhaust t = Text.dropSpaces r.glues t := by
  -- A reading behind another one changes nothing, so it finds nothing to replace.
  have hsettled : ¬[r.first, r.second] <:+: Text.dropSpaces r.glues t := by
    intro hfound
    have hshorter := length_replace_lt hfound
    rw [replace_eq hr h.dropSpaces, Text.dropSpaces_comp h.chain] at hshorter
    simp at hshorter
  by_cases hfound : [r.first, r.second] <:+: t
  · have hagain : r.exhaust t = r.exhaust (r.replace t) := by rw [exhaust, dif_pos hfound]
    rw [hagain, replace_eq hr h, exhaust, dif_neg hsettled]
  · rw [exhaust, dif_neg hfound, ← replace_eq hr h, replace_eq_self hfound]

end Replacement

/-- Replacements, one after the other, drop the spaces that any of them drops. -/
theorem foldl_exhaust {rs : List Replacement} (hrs : ∀ r ∈ rs, r.kept ≠ ' ') {t : Text}
    (h : Text.SingleSpaced t) :
    rs.foldl (fun t r => r.exhaust t) t =
      Text.dropSpaces (fun x y => rs.any fun r => r.glues x y) t := by
  induction rs generalizing t with
  | nil => exact (Text.dropSpaces_of_not_glued (fun _ _ => rfl) t).symm
  | cons r rs ih =>
    obtain ⟨hr, hrs⟩ := List.forall_mem_cons.1 hrs
    rw [List.foldl_cons, Replacement.exhaust_eq hr h, ih hrs h.dropSpaces,
      Text.dropSpaces_comp h.chain]
    simp only [List.any_cons]

namespace TypeText

/-- The replacements in the text of a type, in their order. -/
def replacements : List Replacement :=
  [.before '*', .before '&', .behind '*', .behind '&', .before '[', .behind '[', .before ']']

/-- What the replacements leave of a text. -/
def settled (t : Text) : Text := replacements.foldl (fun t r => r.exhaust t) t

/-- A space goes by one of the replacements where the characters around it hold on to each other. -/
theorem any_glues (x y : Char) : (replacements.any fun r => r.glues x y) = glued x y := by
  simp only [replacements, List.any_cons, List.any_nil, Replacement.glues, glued, isMark]
  ac_rfl

/-- The replacements of a type, in any order and each of them any number of times, leave the spaces
between characters that do not hold on to each other. -/
theorem foldl_eq_of_mem_iff {rs : List Replacement} (hrs : ∀ r, r ∈ rs ↔ r ∈ replacements)
    {t : Text} (h : Text.SingleSpaced t) :
    rs.foldl (fun t r => r.exhaust t) t = Text.dropSpaces glued t := by
  have hglued : (fun x y => rs.any fun r => r.glues x y) = glued := by
    funext x y
    rw [← any_glues, Bool.eq_iff_iff, List.any_eq_true, List.any_eq_true]
    simp only [hrs]
  rw [foldl_exhaust (fun r hr => ?_) h, hglued]
  have hkept : ∀ r ∈ replacements, r.kept ≠ ' ' := by decide
  exact hkept r ((hrs r).1 hr)

/-- The normal spelling of a type without tags by way of the replacements. -/
theorem tidyPlain_eq_settled (t : Text) : tidyPlain t = spaceAfterMarks (settled t.collapse) := by
  unfold tidyPlain settled
  rw [foldl_eq_of_mem_iff (fun _ => Iff.rfl) (Text.singleSpaced_collapse t)]

end TypeText

end NativeBindings
