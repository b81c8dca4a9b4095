import Mathlib.Logic.Relation
import NativeBindings.Proofs.Declaration.Attribute
import NativeBindings.Proofs.Declaration.Token

/-!
# Blanks beside marks

Two texts are spaced differently when one comes from the other by adding and removing blanks beside
marks, one at a time (`Respaced`). A blank beside a mark parts no identifier, opens no parenthesis
and closes none: so the calls of attribute macros in a head stay what they are, and what is left of
the head without them has the same tokens (`Respaced.tokens_stripAttributes`).
-/

namespace NativeBindings

open TypeText

/-! ## One blank more -/

/-- A mark stands on one side of the place between two texts. -/
def Beside (a b : Text) : Prop := (∃ m ∈ a.getLast?, isMark m) ∨ ∃ m ∈ b.head?, isMark m

/-- With one blank more, beside a mark, the first text is the second. -/
def AddsBlank (t t' : Text) : Prop :=
  ∃ a c b, t = a ++ b ∧ t' = a ++ c :: b ∧ (isBlank c ∧ c.toNat < 128) ∧ Beside a b

/-- The texts differ in blanks beside marks only. -/
def Respaced : Text → Text → Prop := Relation.EqvGen AddsBlank

/-- What one blank more does not change depends on no blanks beside marks. -/
theorem Respaced.congr {α : Type} {f : Text → α} (hf : ∀ t t', AddsBlank t t' → f t = f t')
    {t t' : Text} (h : Respaced t t') : f t = f t' := by
  induction h with
  | rel t t' h => exact hf t t' h
  | refl t => rfl
  | symm t t' _ ih => exact ih.symm
  | trans t t' t'' _ _ ih ih' => exact ih.trans ih'

section AddBlank

variable {a b : Text} {c : Char}

/-- A mark belongs to no identifier. -/
theorem TypeText.not_isIdentChar_of_isMark {m : Char} (hm : isMark m) : isIdentChar m = false :=
  (startsWord_of_isMark hm).1

/-- The mark is the last character in front or the first one behind. -/
theorem Beside.cases (h : Beside a b) :
    (∃ a' m, a = a' ++ [m] ∧ isMark m) ∨ ∃ m b', b = m :: b' ∧ isMark m := by
  rcases h with ⟨m, hm, hmark⟩ | ⟨m, hm, hmark⟩
  · obtain ⟨a', rfl⟩ := List.getLast?_eq_some_iff.1 hm
    exact .inl ⟨a', m, rfl, hmark⟩
  · obtain ⟨b', rfl⟩ := List.head?_eq_some_iff.1 hm
    exact .inr ⟨m, b', rfl, hmark⟩

/-- Behind a character that is no mark the place stays beside its mark. -/
theorem Beside.of_append_cons {p r : Text} {q : Char} (h : Beside (p ++ q :: r) b)
    (hq : isMark q = false) : Beside r b := by
  rcases h with ⟨m, hm, hmark⟩ | h
  · cases r with
    | nil =>
      rw [List.getLast?_concat] at hm
      cases hm
      rw [hq] at hmark
      cases hmark
    | cons d r =>
      rw [List.getLast?_append_of_ne_nil _ (by simp), List.getLast?_cons_cons] at hm
      exact .inl ⟨m, hm, hmark⟩
  · exact .inr h

/-- In front of a character that is no mark the place stays beside its mark. -/
theorem Beside.of_append {p r : Text} (h : Beside a (p ++ r))
    (hr : ∀ c ∈ r.head?, isMark c = false) : Beside a p := by
  rcases h with h | ⟨m, hm, hmark⟩
  · exact .inl h
  · cases p with
    | nil =>
      rw [hr m hm] at hmark
      cases hmark
    | cons d p => exact .inr ⟨m, hm, hmark⟩

/-- A blank beside a mark parts no token. -/
theorem tokens_addBlank (hc : isBlank c) (h : Beside a b) :
    tokens (a ++ c :: b) = tokens (a ++ b) := by
  rw [tokens_append_blank hc]
  rcases h.cases with ⟨a', m, rfl, hm⟩ | ⟨m, b', rfl, hm⟩
  · refine (tokens_append (fun d hd => ?_) b).symm
    rw [List.getLast?_concat] at hd
    cases hd
    unfold isBreak
    rw [hm, Bool.or_true]
  · have hfirst := tokens_append_mark hm [] b'
    rw [List.nil_append, tokens_nil, List.nil_append] at hfirst
    rw [tokens_append_mark hm, hfirst]

/-- A blank in front belongs to no last word. -/
theorem trailingWord_cons_blank (hc : isBlank c) (hascii : c.toNat < 128) (t : Text) :
    trailingWord (c :: t) = trailingWord t := by
  by_cases ht : Text.trimRight t = []
  · have hboth : Text.trimRight ([c] ++ t) = Text.trimRight t := by
      have hnone := Text.trimRight_append_blank hc []
      rw [Text.trimRight_append_of_eq_nil ht, ht, ← List.nil_append [c], hnone]
      rfl
    unfold trailingWord
    rw [← hboth, List.singleton_append]
  · have hstarts : StartsWord [c] := fun d hd => by
      cases hd
      exact ⟨isIdentChar_of_isBlank hc, hascii⟩
    exact hstarts.trailingWord_append ht

/-- A blank beside a mark does not change the last word. -/
theorem trailingWord_addBlank (hc : isBlank c) (hascii : c.toNat < 128) (h : Beside a b) :
    trailingWord (a ++ c :: b) = trailingWord (a ++ b) := by
  rcases h.cases with ⟨a', m, rfl, hm⟩ | ⟨m, b', rfl, hm⟩
  · rw [List.append_assoc, List.append_assoc, List.singleton_append, List.singleton_append,
      trailingWord_append_mark hm, trailingWord_append_mark hm,
      trailingWord_cons_blank hc hascii]
  · rw [List.append_cons, trailingWord_append_mark hm, trailingWord_append_mark hm]

/-! ## Calls of attribute macros -/

section Search

variable {word : Text} (hident : AllIdent word) (hword : word ≠ [])

include hident hword

/-- Two texts with a mark at the place between them are searched one after the other. -/
theorem Text.findWord?_beside (h : Beside a b) :
    findWord? word (a ++ b) =
      match findWord? word a with
      | some (x, y) => some (x, y ++ b)
      | none => (findWord? word b).map fun (x, y) => (a ++ x, y) := by
  rcases h.cases with ⟨a', m, rfl, hm⟩ | ⟨m, b', rfl, hm⟩
  · have hbreak := not_isIdentChar_of_isMark hm
    rw [List.append_assoc, List.singleton_append, findWord?_break hident hbreak hword,
      findWord?_break hident hbreak hword, findWord?_nil hident hword]
    cases findWord? word a' with
    | some r => simp
    | none => simp
  · have hbreak := not_isIdentChar_of_isMark hm
    have hbehind := findWord?_break hident hbreak hword (t := []) (u := b')
    rw [findWord?_nil hident hword, List.nil_append] at hbehind
    rw [findWord?_break hident hbreak hword, hbehind]
    cases findWord? word a with
    | some r => rfl
    | none => simp [Function.comp_def]

end Search

/-- The depth changes at parentheses only. -/
theorem afterClosing?_cons (depth : Nat) (ch : Char) (t : Text) :
    afterClosing? depth (ch :: t) =
      if ch = '(' then afterClosing? (depth + 1) t
      else if ch = ')' then if depth = 1 then some t else afterClosing? (depth - 1) t
      else afterClosing? depth t := by
  by_cases hopen : ch = '('
  · rw [if_pos hopen, hopen, afterClosing?]
  by_cases hclose : ch = ')'
  · rw [if_neg hopen, if_pos hclose, hclose, afterClosing?]
  · rw [if_neg hopen, if_neg hclose, afterClosing?]
    · exact hopen
    · exact hclose

/-- A blank in a text does not change which parenthesis is found. -/
theorem afterClosing?_addBlank (hc : isBlank c) (depth : Nat) (t b : Text) :
    afterClosing? depth (t ++ c :: b) = afterClosing? depth (t ++ b) ∨
      ∃ p r, t = p ++ ')' :: r ∧ afterClosing? depth (t ++ b) = some (r ++ b) ∧
        afterClosing? depth (t ++ c :: b) = some (r ++ c :: b) := by
  have hparen : c ≠ '(' ∧ c ≠ ')' := by
    constructor
    · rintro rfl
      exact absurd hc (by decide)
    · rintro rfl
      exact absurd hc (by decide)
  induction t generalizing depth with
  | nil =>
    rw [List.nil_append, afterClosing?_cons, if_neg hparen.1, if_neg hparen.2]
    exact .inl rfl
  | cons ch t ih =>
    -- What is found further on is found behind the character.
    have hgo : ∀ depth' : Nat,
        (∀ u, afterClosing? depth (ch :: u) = afterClosing? depth' u) →
        afterClosing? depth (ch :: (t ++ c :: b)) = afterClosing? depth (ch :: (t ++ b)) ∨
          ∃ p r, ch :: t = p ++ ')' :: r ∧ afterClosing? depth (ch :: (t ++ b)) = some (r ++ b) ∧
            afterClosing? depth (ch :: (t ++ c :: b)) = some (r ++ c :: b) := by
      intro depth' hstep
      rw [hstep, hstep]
      exact (ih depth').imp_right fun ⟨p, r, ht, hfound⟩ => ⟨ch :: p, r, by rw [ht]; rfl, hfound⟩
    rw [List.cons_append, List.cons_append]
    by_cases hopen : ch = '('
    · exact hgo (depth + 1) fun u => by rw [afterClosing?_cons, if_pos hopen]
    by_cases hclose : ch = ')'
    · -- The parenthesis is the one looked for, or one inside.
      by_cases hone : depth = 1
      · subst hclose
        refine .inr ⟨[], t, rfl, ?_, ?_⟩ <;>
          rw [afterClosing?_cons, if_neg hopen, if_pos rfl, if_pos hone]
      · exact hgo (depth - 1) fun u => by
          rw [afterClosing?_cons, if_neg hopen, if_pos hclose, if_neg hone]
    · exact hgo depth fun u => by rw [afterClosing?_cons, if_neg hopen, if_neg hclose]

/-- What follows the arguments in parentheses at the start of a text. -/
def behindArguments? (t : Text) : Option Text :=
  if t.trimLeft.head? = some '(' then afterClosing? 0 t.trimLeft else none

/-- A call of a macro is the macro and its arguments. -/
theorem splitAttribute?_eq (head : Text) (name : String) :
    splitAttribute? head name = (Text.findWord? name.toList head).bind fun (before, after) =>
      (behindArguments? after).map fun rest => (before, rest) := by
  unfold splitAttribute? behindArguments?
  rw [Option.bind_eq_bind]
  congr 1
  funext ⟨before, after⟩
  dsimp only
  split_ifs
  · exact Option.map_eq_bind.symm
  · rfl

/-- A blank behind a macro does not change where its arguments end. -/
theorem behindArguments?_addBlank (hc : isBlank c) (t b : Text) :
    behindArguments? (t ++ c :: b) = behindArguments? (t ++ b) ∨
      ∃ p r, t = p ++ ')' :: r ∧ behindArguments? (t ++ b) = some (r ++ b) ∧
        behindArguments? (t ++ c :: b) = some (r ++ c :: b) := by
  unfold behindArguments? Text.trimLeft
  rw [List.dropWhile_append, List.dropWhile_append, List.dropWhile_cons_of_pos hc]
  by_cases hblank : (t.dropWhile isBlank).isEmpty = true
  · rw [if_pos hblank, if_pos hblank]
    exact .inl rfl
  · rw [if_neg hblank, if_neg hblank]
    obtain ⟨ch, u, hu⟩ := List.exists_cons_of_ne_nil (mt List.isEmpty_iff.2 hblank)
    rw [hu]
    rw [List.cons_append, List.cons_append, List.head?_cons, List.head?_cons]
    -- Only an opening parenthesis starts arguments, and they end in front of the blank or not.
    by_cases hopen : some ch = some '('
    · rw [if_pos hopen, if_pos hopen, ← List.cons_append, ← List.cons_append]
      refine (afterClosing?_addBlank hc 0 (ch :: u) b).imp_right ?_
      rintro ⟨p, r, hsplit, hfound⟩
      refine ⟨t.takeWhile isBlank ++ p, r, ?_, hfound⟩
      rw [List.append_assoc, ← hsplit, ← hu, List.takeWhile_append_dropWhile]
    · rw [if_neg hopen, if_neg hopen]
      exact .inl rfl

/-- Two ways to cut a head around a call that differ in a blank beside a mark. -/
def Shifted (c : Char) (r r' : Text × Text) : Prop :=
  tokens r.1 = tokens r'.1 ∧
    (r.2 = r'.2 ∨ ∃ a b, r.2 = a ++ b ∧ r'.2 = a ++ c :: b ∧ Beside a b)

/-- A blank beside a mark does not change whether a macro is called, and where. -/
theorem splitAttribute?_addBlank {name : String} (hname : name ∈ attributeMacros)
    (hc : isBlank c) (h : Beside a b) :
    Option.Rel (Shifted c) (splitAttribute? (a ++ b) name)
      (splitAttribute? (a ++ c :: b) name) := by
  obtain ⟨hne, hident⟩ := allIdent_of_mem_attributeMacros hname
  rw [splitAttribute?_eq, splitAttribute?_eq, Text.findWord?_beside hident hne h,
    Text.findWord?_break hident (isIdentChar_of_isBlank hc) hne]
  cases hfront : Text.findWord? name.toList a with
  | some r =>
    obtain ⟨x, y⟩ := r
    obtain ⟨ha, -⟩ := Text.standsAlone_of_findWord? hfront
    simp only [Option.bind_some]
    -- The macro is called in front of the blank; its arguments may reach over it.
    rcases behindArguments?_addBlank hc y b with hsame | ⟨p, r, rfl, hfound, hfound'⟩
    · rw [hsame]
      cases behindArguments? (y ++ b) with
      | none => exact .none
      | some rest => exact .some ⟨rfl, .inl rfl⟩
    · rw [hfound, hfound']
      refine .some ⟨rfl, .inr ⟨r, b, rfl, rfl, ?_⟩⟩
      rw [ha, ← List.append_assoc] at h
      exact h.of_append_cons (by decide)
  | none =>
    cases hbehind : Text.findWord? name.toList b with
    | none => exact .none
    | some r =>
      obtain ⟨x, y⟩ := r
      obtain ⟨hb, -⟩ := Text.standsAlone_of_findWord? hbehind
      simp only [Option.map_some, Option.bind_some]
      cases behindArguments? y with
      | none => exact .none
      | some rest =>
        -- The macro starts with no mark, so the place lies beside one in front of it.
        have hbeside : Beside a x := by
          rw [hb, List.append_assoc] at h
          refine h.of_append fun d hd => ?_
          obtain ⟨e, es, hname'⟩ := List.exists_cons_of_ne_nil hne
          rw [hname', List.cons_append, List.head?_cons] at hd
          cases hd
          exact not_isMark_of_isIdentChar (hident _ (by rw [hname']; exact .head es))
        exact .some ⟨(tokens_addBlank hc hbeside).symm, .inl rfl⟩

/-- What is found first in a list is related when what is found for each element is. -/
theorem findSome?_rel {α β : Type} {r : β → β → Prop} {f g : α → Option β} {xs : List α}
    (h : ∀ x ∈ xs, Option.Rel r (f x) (g x)) : Option.Rel r (xs.findSome? f) (xs.findSome? g) := by
  induction xs with
  | nil => exact .none
  | cons x xs ih =>
    obtain ⟨hx, hxs⟩ := List.forall_mem_cons.1 h
    rw [List.findSome?_cons, List.findSome?_cons]
    revert hx
    cases f x <;> cases g x <;> intro hx
    · exact ih hxs
    · cases hx
    · cases hx
    · exact hx

/-- With a blank more beside a mark a head without calls has the same tokens. -/
theorem tokens_stripAttributes_addBlank (hc : isBlank c) (h : Beside a b) :
    tokens (stripAttributes (a ++ b)) = tokens (stripAttributes (a ++ c :: b)) := by
  induction hn : (a ++ b).length using Nat.strongRecOn generalizing a b with
  | ind n ih =>
    have hcalls := findSome?_rel fun (name : String) hname => splitAttribute?_addBlank hname hc h
    cases hcut : attributeMacros.findSome? (splitAttribute? (a ++ b)) with
    | none =>
      cases hcut' : attributeMacros.findSome? (splitAttribute? (a ++ c :: b)) with
      | none =>
        rw [stripAttributes_of_none hcut, stripAttributes_of_none hcut', tokens_addBlank hc h]
      | some r' =>
        rw [hcut, hcut'] at hcalls
        cases hcalls
    | some r =>
      cases hcut' : attributeMacros.findSome? (splitAttribute? (a ++ c :: b)) with
      | none =>
        rw [hcut, hcut'] at hcalls
        cases hcalls
      | some r' =>
        rw [hcut, hcut'] at hcalls
        obtain ⟨before, rest⟩ := r
        obtain ⟨before', rest'⟩ := r'
        -- Both are cut at the same call, and the blank lies in front of it or behind it.
        obtain ⟨htokens, hrest⟩ : Shifted c (before, rest) (before', rest') := by
          cases hcalls with
          | some h => exact h
        obtain ⟨name, -, hname⟩ := List.exists_of_findSome?_eq_some hcut
        have hshorter := length_lt_of_splitAttribute? hname
        have hbehind : tokens (stripAttributes rest) = tokens (stripAttributes rest') := by
          rcases hrest with rfl | ⟨a', b', rfl, rfl, hbeside⟩
          · rfl
          · exact ih _ (hn ▸ hshorter) hbeside rfl
        rw [stripAttributes_of_some hcut, stripAttributes_of_some hcut',
          tokens_append_blank (by decide), tokens_append_blank (by decide), htokens, hbehind]

end AddBlank

/-- Without the calls of attribute macros heads with other spacing have the same tokens. -/
theorem Respaced.tokens_stripAttributes {head head' : Text} (h : Respaced head head') :
    tokens (stripAttributes head) = tokens (stripAttributes head') := by
  refine h.congr (f := fun t => tokens (stripAttributes t)) ?_
  rintro - - ⟨a, c, b, rfl, rfl, ⟨hc, -⟩, hbeside⟩
  exact tokens_stripAttributes_addBlank hc hbeside

end NativeBindings
