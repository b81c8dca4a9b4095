import NativeBindings.Proofs.Scanner.Balance

/-!
# Attribute macros between the words of a head

The calls of attribute macros are taken out of a head macro by macro, in the order of
`attributeMacros`, and what stands in front of a call that is taken out is not searched again
(`DecoratedHead.WellFormed.stripAttributes_call`). So all of them are taken out exactly when the
macros are called in that order; a call in front of one whose macro comes earlier stays, with its
parentheses (`DecoratedHead.WellFormed.stripAttributes_spec`), and is read as a part of the return
type (`DecoratedHead.WellFormed.read_eq_iff`).
-/

namespace NativeBindings

open Scanner

/-! ## Heads with attribute macros -/

/-- The place of an attribute macro in the order in which they are taken out. -/
def macroRank (name : String) : Nat := attributeMacros.idxOf name

/-- A word that a head may hold beside calls of attribute macros. -/
structure IsHeadWord (w : Text) : Prop where
  /-- It is not empty. -/
  ne_nil : w ≠ []
  /-- It has no blanks. -/
  solid : Text.Solid w
  /-- No character in it ends the head. -/
  keeps : ∀ c ∈ w, endsHead c = false
  /-- No attribute macro stands alone in it. -/
  noMacro : ∀ m ∈ attributeMacros, Text.findWord? m.toList w = none

instance (w : Text) : Decidable (IsHeadWord w) :=
  have : Decidable (∀ c ∈ w, endsHead c = false) := List.decidableBAll _ w
  decidable_of_iff (w ≠ [] ∧ Text.Solid w ∧ (∀ c ∈ w, endsHead c = false) ∧
      ∀ m ∈ attributeMacros, Text.findWord? m.toList w = none)
    ⟨fun ⟨hne, hsolid, hkeeps, hmacro⟩ => ⟨hne, hsolid, hkeeps, hmacro⟩,
      fun h => ⟨h.ne_nil, h.solid, h.keeps, h.noMacro⟩⟩

/-- Blanks between words. -/
def IsGap (t : Text) : Prop := ∀ c ∈ t, isBlank c ∧ c.toNat < 128

instance (t : Text) : Decidable (IsGap t) := List.decidableBAll _ t

/-- A part of a head in front of its last word. -/
inductive HeadPart
  /-- A word and the blanks behind it. -/
  | word (word gap : Text)
  /-- A call of an attribute macro, with the blanks in front of its arguments and those behind the
  call. -/
  | call (name : String) (gap arguments behind : Text)
  deriving DecidableEq, Repr

namespace HeadPart

/-- The text of a part. -/
def text : HeadPart → Text
  | word w gap => w ++ gap
  | call name gap arguments behind => name.toList ++ (gap ++ '(' :: (arguments ++ ')' :: behind))

/-- The word of a part. -/
def word? : HeadPart → Option Text
  | word w _ => some w
  | call .. => none

/-- The rank of the macro that a part calls. -/
def rank? : HeadPart → Option Nat
  | word .. => none
  | call name .. => some (macroRank name)

/-- The ranks of the macros that are called, from left to right. -/
def ranks (parts : List HeadPart) : List Nat := parts.filterMap rank?

/-- The words that are no part of calls, from left to right. -/
def words (parts : List HeadPart) : List Text := parts.filterMap word?

@[simp] theorem ranks_nil : ranks [] = [] := rfl

@[simp] theorem ranks_word (w gap : Text) (parts : List HeadPart) :
    ranks (word w gap :: parts) = ranks parts := rfl

@[simp] theorem ranks_call (name : String) (gap arguments behind : Text) (parts : List HeadPart) :
    ranks (call name gap arguments behind :: parts) = macroRank name :: ranks parts := rfl

@[simp] theorem ranks_append (parts more : List HeadPart) :
    ranks (parts ++ more) = ranks parts ++ ranks more :=
  List.filterMap_append

/-- What is asked of a part. In the arguments of a macro none stands alone that is taken out before
it. -/
inductive WellFormed : HeadPart → Prop
  /-- A word has blanks behind it. -/
  | word {w gap : Text} (hword : IsHeadWord w) (hne : gap ≠ []) (hgap : IsGap gap) :
      WellFormed (.word w gap)
  /-- The arguments have balanced parentheses. -/
  | call {name : String} {gap arguments behind : Text} (hname : name ∈ attributeMacros)
      (hgap : ∀ c ∈ gap, isBlank c) (harguments : Balanced arguments)
      (hnested : ∀ m ∈ attributeMacros, macroRank m < macroRank name →
        Text.findWord? m.toList arguments = none)
      (hbehind : IsGap behind) : WellFormed (.call name gap arguments behind)

theorem wellFormed_word_iff {w gap : Text} :
    (word w gap).WellFormed ↔ IsHeadWord w ∧ gap ≠ [] ∧ IsGap gap := by
  constructor
  · rintro (⟨hword, hne, hgap⟩ | _)
    exact ⟨hword, hne, hgap⟩
  · rintro ⟨hword, hne, hgap⟩
    exact .word hword hne hgap

theorem wellFormed_call_iff {name : String} {gap arguments behind : Text} :
    (call name gap arguments behind).WellFormed ↔
      name ∈ attributeMacros ∧ (∀ c ∈ gap, isBlank c) ∧ Balanced arguments ∧
        (∀ m ∈ attributeMacros, macroRank m < macroRank name →
          Text.findWord? m.toList arguments = none) ∧ IsGap behind := by
  constructor
  · rintro (_ | ⟨hname, hgap, harguments, hnested, hbehind⟩)
    exact ⟨hname, hgap, harguments, hnested, hbehind⟩
  · rintro ⟨hname, hgap, harguments, hnested, hbehind⟩
    exact .call hname hgap harguments hnested hbehind

instance : (p : HeadPart) → Decidable p.WellFormed
  | .word .. => decidable_of_iff' _ wellFormed_word_iff
  | .call _ gap .. =>
    have : Decidable (∀ c ∈ gap, isBlank c) := List.decidableBAll _ gap
    decidable_of_iff' _ wellFormed_call_iff

end HeadPart

/-- A head with attribute macros between its words. -/
structure DecoratedHead where
  /-- The blanks in front. -/
  lead : Text
  /-- The parts in front of the last word. -/
  parts : List HeadPart
  /-- The last word, which ends with the name. -/
  last : Text
  deriving DecidableEq, Repr

namespace DecoratedHead

/-- The text of a head. -/
def text (h : DecoratedHead) : Text := h.lead ++ (h.parts.flatMap HeadPart.text ++ h.last)

/-- The head without its attribute macros. -/
def plain (h : DecoratedHead) : DecoratedHead :=
  { h with parts := h.parts.filter (·.word?.isSome) }

/-- No macro is called in front of one that is taken out before it. -/
def InOrder (h : DecoratedHead) : Prop := (HeadPart.ranks h.parts).Pairwise (· ≤ ·)

instance (h : DecoratedHead) : Decidable h.InOrder :=
  inferInstanceAs (Decidable ((HeadPart.ranks h.parts).Pairwise (· ≤ ·)))

/-- What is asked of a head. -/
structure WellFormed (h : DecoratedHead) : Prop where
  /-- Blanks stand in front. -/
  lead : IsGap h.lead
  /-- Its parts are well-formed. -/
  parts : ∀ p ∈ h.parts, p.WellFormed
  /-- Its last word is one that a head may hold. -/
  last : IsHeadWord h.last

instance (h : DecoratedHead) : Decidable h.WellFormed :=
  decidable_of_iff (IsGap h.lead ∧ (∀ p ∈ h.parts, p.WellFormed) ∧ IsHeadWord h.last)
    ⟨fun ⟨hlead, hparts, hlast⟩ => ⟨hlead, hparts, hlast⟩,
      fun hh => ⟨hh.lead, hh.parts, hh.last⟩⟩

end DecoratedHead

/-! ## The search for a macro -/

theorem allIdent_of_mem_attributeMacros {m : String} (hm : m ∈ attributeMacros) :
    m.toList ≠ [] ∧ AllIdent m.toList := by
  have hall : ∀ m ∈ attributeMacros, isIdentifier m.toList := by decide
  exact allIdent_of_isIdentifier (hall m hm)

theorem IsGap.not_isIdentChar {gap : Text} (h : IsGap gap) : ∀ c ∈ gap, isIdentChar c = false :=
  fun c hc => isIdentChar_of_isBlank (h c hc).1

/-- Behind blanks a word starts. -/
theorem IsGap.startsWord {gap : Text} (h : IsGap gap) : StartsWord gap := fun c hc =>
  ⟨h.not_isIdentChar c (List.mem_of_getLast? hc), (h c (List.mem_of_getLast? hc)).2⟩

theorem StartsWord.startsIdent {t : Text} (h : StartsWord t) : StartsIdent t :=
  fun c hc => (h c hc).1

namespace HeadPart

variable {m : String} {p : HeadPart} {parts : List HeadPart} {u : Text}

/-- The search for a macro passes over a part, unless the part calls the macro or one that is taken
out before it. -/
theorem WellFormed.findWord?_text (h : p.WellFormed) (hm : m ∈ attributeMacros)
    (hrank : ∀ r ∈ p.rank?, macroRank m < r) :
    Text.findWord? m.toList (p.text ++ u) = none ↔ Text.findWord? m.toList u = none := by
  obtain ⟨hne, hident⟩ := allIdent_of_mem_attributeMacros hm
  cases h with
  | @word w gap hword hgapne hgap =>
    have htext : (HeadPart.word w gap).text ++ u = w ++ (gap ++ u) := List.append_assoc ..
    rw [htext, Text.findWord?_append_gap_eq_none hident hne hgapne hgap.not_isIdentChar,
      and_iff_right (hword.noMacro m hm)]
  | @call name gap arguments behind hname hgap harguments hnested hbehind =>
    have hless : macroRank m < macroRank name := hrank _ rfl
    -- Of the name of a macro only the whole stands alone.
    have hother : Text.findWord? m.toList name.toList = none := by
      rw [Text.findWord?_eq_none_iff hident hne]
      intro b a hsplit halone
      have hall := (allIdent_of_mem_attributeMacros hname).2
      rw [hsplit] at hall
      obtain ⟨rfl, rfl⟩ := Text.eq_nil_of_standsAlone hall halone
      have hsame : name = m := by simpa [String.toList_inj] using hsplit
      rw [hsame] at hless
      exact absurd hless (lt_irrefl _)
    have htext : (HeadPart.call name gap arguments behind).text ++ u =
        name.toList ++ ((gap ++ ['(']) ++ (arguments ++ ((')' :: behind) ++ u))) := by
      simp [text]
    have hopen : ∀ c ∈ gap ++ ['('], isIdentChar c = false := by
      intro c hc
      rcases List.mem_append.1 hc with hc | hc
      · exact isIdentChar_of_isBlank (hgap c hc)
      · rw [List.mem_singleton.1 hc]
        decide
    have hclose : ∀ c ∈ ')' :: behind, isIdentChar c = false :=
      List.forall_mem_cons.2 ⟨by decide, hbehind.not_isIdentChar⟩
    -- The name, the arguments and what follows are searched one by one, with parentheses between
    -- them.
    rw [htext, Text.findWord?_append_gap_eq_none hident hne (by simp) hopen, and_iff_right hother,
      Text.findWord?_append_gap_eq_none hident hne (by simp) hclose,
      and_iff_right (hnested m hm hless)]

/-- The search for a macro passes over parts that call only macros taken out later. -/
theorem findWord?_flatMap_text (hparts : ∀ p ∈ parts, p.WellFormed) (hm : m ∈ attributeMacros)
    (hranks : ∀ r ∈ ranks parts, macroRank m < r) :
    Text.findWord? m.toList (parts.flatMap text ++ u) = none ↔
      Text.findWord? m.toList u = none := by
  induction parts with
  | nil => rfl
  | cons p parts ih =>
    obtain ⟨hp, hparts⟩ := List.forall_mem_cons.1 hparts
    have hrank : ∀ r ∈ p.rank?, macroRank m < r := fun r hr =>
      hranks r (List.mem_filterMap.2 ⟨p, .head _, hr⟩)
    have hrest : ∀ r ∈ ranks parts, macroRank m < r := fun r hr => by
      obtain ⟨q, hq, hqr⟩ := List.mem_filterMap.1 hr
      exact hranks r (List.mem_filterMap.2 ⟨q, .tail p hq, hqr⟩)
    rw [List.flatMap_cons, List.append_assoc, hp.findWord?_text hm hrank, ih hparts hrest]

/-- Behind a part a word starts. -/
theorem WellFormed.startsWord (h : p.WellFormed) : p.text ≠ [] ∧ StartsWord p.text := by
  cases h with
  | @word w gap hword hne hgap => exact ⟨by simp [text, hne], hgap.startsWord.append hne⟩
  | @call name gap arguments behind hname hgap harguments hnested hbehind =>
    have htext : (HeadPart.call name gap arguments behind).text =
        (name.toList ++ (gap ++ '(' :: arguments)) ++ ')' :: behind := by
      simp [text]
    rw [htext]
    refine ⟨by simp, StartsWord.append (fun c hc => ?_) (List.cons_ne_nil ')' behind)⟩
    rcases List.mem_cons.1 (List.mem_of_getLast? hc) with rfl | hc
    · decide
    · exact ⟨hbehind.not_isIdentChar c hc, (hbehind c hc).2⟩

/-- Behind parts a word starts where one does in front of them. -/
theorem startsWord_flatMap_text (hparts : ∀ p ∈ parts, p.WellFormed) {t : Text}
    (ht : StartsWord t) : StartsWord (t ++ parts.flatMap text) := by
  induction parts generalizing t with
  | nil => rwa [List.flatMap_nil, List.append_nil]
  | cons p parts ih =>
    obtain ⟨hp, hparts⟩ := List.forall_mem_cons.1 hparts
    obtain ⟨hne, hstarts⟩ := hp.startsWord
    rw [List.flatMap_cons, ← List.append_assoc]
    exact ih hparts (hstarts.append hne)

/-- Among parts with calls there is a first one of the macro that is taken out first. -/
theorem exists_first_call (h : ranks parts ≠ []) :
    ∃ front name gap arguments behind rest,
      parts = front ++ .call name gap arguments behind :: rest ∧
      (∀ r ∈ ranks front, macroRank name < r) ∧ ∀ r ∈ ranks rest, macroRank name ≤ r := by
  induction parts with
  | nil => exact absurd rfl h
  | cons p parts ih =>
    cases p with
    | word w gap =>
      obtain ⟨front, name, gap', arguments, behind, rest, rfl, hfront, hrest⟩ := ih h
      exact ⟨.word w gap :: front, name, gap', arguments, behind, rest, rfl, hfront, hrest⟩
    | call name gap arguments behind =>
      by_cases hmore : ranks parts = []
      · exact ⟨[], name, gap, arguments, behind, parts, rfl, by simp [ranks], by simp [hmore]⟩
      · obtain ⟨front, name', gap', arguments', behind', rest, rfl, hfront, hrest⟩ := ih hmore
        by_cases hle : macroRank name ≤ macroRank name'
        · -- The call in front is of a macro that is taken out no later.
          refine ⟨[], name, gap, arguments, behind, _, rfl, by simp [ranks], fun r hr => ?_⟩
          rw [ranks_append, ranks_call, List.mem_append, List.mem_cons] at hr
          rcases hr with hr | rfl | hr
          · exact hle.trans (hfront r hr).le
          · exact hle
          · exact hle.trans (hrest r hr)
        · -- The call in front is of a macro that is taken out later, so it stays in front.
          refine ⟨.call name gap arguments behind :: front, name', gap', arguments', behind', rest,
            rfl, fun r hr => ?_, hrest⟩
          rcases List.mem_cons.1 hr with rfl | hr
          · exact not_le.1 hle
          · exact hfront r hr

end HeadPart

/-! ## Taking calls out -/

/-- A search by macros gives what the first of them gives that gives something. -/
theorem findSome?_attributeMacros {α : Type} {f : String → Option α} {name : String} {r : α}
    (hname : name ∈ attributeMacros) (hfound : f name = some r)
    (hearlier : ∀ m ∈ attributeMacros, macroRank m < macroRank name → f m = none) :
    attributeMacros.findSome? f = some r := by
  obtain ⟨macros, later, hsplit, hnot⟩ := List.eq_append_cons_of_mem hname
  refine List.findSome?_eq_some_iff.2 ⟨macros, name, later, hsplit, hfound, fun m hm => ?_⟩
  refine hearlier m (by rw [hsplit]; exact List.mem_append_left _ hm) ?_
  unfold macroRank
  rw [hsplit, List.idxOf_append_of_mem hm, List.idxOf_append_of_notMem hnot, List.idxOf_cons_self,
    Nat.add_zero]
  exact List.idxOf_lt_length_of_mem hm

namespace DecoratedHead

open HeadPart

variable {h : DecoratedHead} {front rest : List HeadPart} {name : String}
  {gap arguments behind : Text}

/-- A macro that comes before all that are called is not found. -/
theorem WellFormed.splitAttribute?_eq_none (hh : h.WellFormed) {m : String}
    (hm : m ∈ attributeMacros) (hranks : ∀ r ∈ ranks h.parts, macroRank m < r) :
    splitAttribute? h.text m = none := by
  obtain ⟨hne, hident⟩ := allIdent_of_mem_attributeMacros hm
  have hnone : Text.findWord? m.toList h.text = none := by
    unfold text
    rw [Text.findWord?_gap_append_eq_none hident hne hh.lead.not_isIdentChar,
      findWord?_flatMap_text hh.parts hm hranks]
    exact hh.last.noMacro m hm
  unfold splitAttribute?
  rw [hnone]
  rfl

section Call

variable (hparts : h.parts = front ++ .call name gap arguments behind :: rest)

include hparts

/-- Behind the first call of the macro that is taken out first the order goes on, and in front of it
nothing is called. -/
theorem inOrder_iff (hfront : ∀ r ∈ ranks front, macroRank name < r)
    (hrest : ∀ r ∈ ranks rest, macroRank name ≤ r) :
    h.InOrder ↔ ranks front = [] ∧ (mk behind rest h.last).InOrder := by
  unfold InOrder
  rw [hparts, ranks_append, ranks_call, List.pairwise_append, List.pairwise_cons]
  constructor
  · rintro ⟨-, ⟨-, horder⟩, hbefore⟩
    refine ⟨List.eq_nil_iff_forall_not_mem.2 fun r hr => ?_, horder⟩
    exact absurd (hbefore r hr _ (.head _)) (not_le.2 (hfront r hr))
  · rintro ⟨hnone, horder⟩
    rw [hnone]
    exact ⟨.nil, ⟨hrest, horder⟩, fun r hr => absurd hr List.not_mem_nil⟩

variable (hh : h.WellFormed)

include hh

/-- What stands behind a call is a head again. -/
theorem WellFormed.behind_call : (DecoratedHead.mk behind rest h.last).WellFormed := by
  have hall := hh.parts
  rw [hparts] at hall
  obtain ⟨-, hall⟩ := List.forall_mem_append.1 hall
  obtain ⟨hcall, hrest⟩ := List.forall_mem_cons.1 hall
  cases hcall with
  | call hname hgap harguments hnested hbehind => exact ⟨hbehind, hrest, hh.last⟩

variable (hfront : ∀ r ∈ ranks front, macroRank name < r)

include hfront

/-- The first call of a macro is found, unless a macro that comes before is called in front of
it. -/
theorem WellFormed.splitAttribute?_call :
    splitAttribute? h.text name =
      some (h.lead ++ front.flatMap HeadPart.text, text ⟨behind, rest, h.last⟩) := by
  obtain ⟨lead, parts, last⟩ := h
  obtain ⟨hlead, hall, -⟩ := hh
  dsimp only at *
  subst hparts
  obtain ⟨hall, hmore⟩ := List.forall_mem_append.1 hall
  cases (List.forall_mem_cons.1 hmore).1 with
  | call hname hgap harguments hnested hbehind =>
  obtain ⟨hne, hident⟩ := allIdent_of_mem_attributeMacros hname
  have htext : text ⟨lead, front ++ .call name gap arguments behind :: rest, last⟩ =
      (lead ++ front.flatMap HeadPart.text) ++ name.toList ++
        (gap ++ '(' :: (arguments ++ ')' :: text ⟨behind, rest, last⟩)) := by
    simp [text, HeadPart.text]
  -- The name is not found in front of the call, and stands alone there.
  have hnone : Text.findWord? name.toList (lead ++ front.flatMap HeadPart.text) = none := by
    have hempty := findWord?_flatMap_text (u := []) hall hname hfront
    rw [List.append_nil] at hempty
    rw [Text.findWord?_gap_append_eq_none hident hne hlead.not_isIdentChar, hempty]
    exact Text.findWord?_nil hident hne
  have hstart : StartsIdent (lead ++ front.flatMap HeadPart.text) :=
    (startsWord_flatMap_text hall hlead.startsWord).startsIdent
  have hend : EndsIdent (gap ++ '(' :: (arguments ++ ')' :: text ⟨behind, rest, last⟩)) := by
    intro c hc
    cases gap with
    | nil =>
      obtain rfl : '(' = c := Option.some.inj hc
      decide
    | cons b gap =>
      obtain rfl : b = c := Option.some.inj hc
      exact isIdentChar_of_isBlank (hgap b (.head _))
  -- Its arguments are those in the parentheses behind it.
  have htrim : Text.trimLeft (gap ++ '(' :: (arguments ++ ')' :: text ⟨behind, rest, last⟩)) =
      '(' :: (arguments ++ ')' :: text ⟨behind, rest, last⟩) := by
    unfold Text.trimLeft
    rw [List.dropWhile_append_of_pos hgap, List.dropWhile_cons_of_neg (by decide)]
  have hclose : afterClosing? 0 ('(' :: (arguments ++ ')' :: text ⟨behind, rest, last⟩)) =
      some (text ⟨behind, rest, last⟩) :=
    afterClosing?_append harguments.1 (le_refl 1) harguments.2 _
  unfold splitAttribute?
  rw [htext, Text.findWord?_append_of_none hident hne hnone hstart hend]
  dsimp only [Option.bind_eq_bind, Option.bind_some]
  rw [htrim, hclose]
  rfl

/-- The first call of the macro that is taken out first leaves a space, and the search goes on
behind it. -/
theorem WellFormed.stripAttributes_call (hrest : ∀ r ∈ ranks rest, macroRank name ≤ r) :
    stripAttributes h.text =
      (h.lead ++ front.flatMap HeadPart.text) ++
        ' ' :: stripAttributes (text ⟨behind, rest, h.last⟩) := by
  have hname : name ∈ attributeMacros := by
    cases hh.parts (.call name gap arguments behind) (by simp [hparts]) with
    | call hname => exact hname
  refine stripAttributes_of_some (findSome?_attributeMacros hname
    (hh.splitAttribute?_call hparts hfront) fun m hm hless =>
      hh.splitAttribute?_eq_none hm fun r hr => ?_)
  rw [hparts, ranks_append, ranks_call, List.mem_append, List.mem_cons] at hr
  rcases hr with hr | rfl | hr
  · exact hless.trans (hfront r hr)
  · exact hless
  · exact hless.trans_le (hrest r hr)

end Call

/-! ## Taking all calls out -/

/-- The words of a head outside its attribute macros. -/
def words (h : DecoratedHead) : List Text := HeadPart.words h.parts ++ [h.last]

/-- Parts without calls have their words. -/
theorem words_flatMap_text {parts : List HeadPart} (hparts : ∀ p ∈ parts, p.WellFormed)
    (hno : ranks parts = []) (u : Text) :
    Text.words (parts.flatMap HeadPart.text ++ u) = HeadPart.words parts ++ Text.words u := by
  induction parts with
  | nil => rfl
  | cons p parts ih =>
    obtain ⟨hp, hmore⟩ := List.forall_mem_cons.1 hparts
    cases hp with
    | @word w gap hword hne hgap =>
      obtain ⟨b, gap, rfl⟩ := List.exists_cons_of_ne_nil hne
      obtain ⟨hb, hgap⟩ := List.forall_mem_cons.1 hgap
      have htext : (HeadPart.word w (b :: gap) :: parts).flatMap HeadPart.text ++ u =
          w ++ b :: (gap ++ (parts.flatMap HeadPart.text ++ u)) := by
        simp [HeadPart.text]
      rw [htext, Text.words_append_blank hb.1, Text.words_of_solid hword.ne_nil hword.solid,
        Text.words_append_of_blank fun c hc => (hgap c hc).1, ih hmore hno]
      rfl
    | call => cases hno

/-- A call has an opening parenthesis. -/
theorem open_mem_flatMap_text {parts : List HeadPart} (hcalls : ranks parts ≠ []) :
    '(' ∈ parts.flatMap HeadPart.text := by
  obtain ⟨front, name, gap, arguments, behind, rest, rfl, -⟩ := exists_first_call hcalls
  simp [HeadPart.text]

/-- All calls are taken out when the macros are called in order; otherwise a parenthesis stays. -/
theorem WellFormed.stripAttributes_spec (hh : h.WellFormed) :
    (h.InOrder → (stripAttributes h.text).words = h.words) ∧
      (¬ h.InOrder → '(' ∈ stripAttributes h.text) := by
  induction hn : h.parts.length using Nat.strongRecOn generalizing h with
  | ind n ih =>
    have hlast : Text.words h.last = [h.last] := Text.words_of_solid hh.last.ne_nil hh.last.solid
    have hlead : ∀ c ∈ h.lead, isBlank c := fun c hc => (hh.lead c hc).1
    by_cases hno : ranks h.parts = []
    · -- Without calls the head stays as it is.
      have hsame : stripAttributes h.text = h.text :=
        stripAttributes_of_none (List.findSome?_eq_none_iff.2 fun m hm =>
          hh.splitAttribute?_eq_none hm (by simp [hno]))
      have horder : h.InOrder := by
        unfold InOrder
        rw [hno]
        exact .nil
      refine ⟨fun _ => ?_, fun hnot => absurd horder hnot⟩
      rw [hsame]
      unfold text words
      rw [Text.words_append_of_blank hlead, words_flatMap_text hh.parts hno, hlast]
    · obtain ⟨front, name, gap, arguments, behind, rest, hparts, hfront, hrest⟩ :=
        exists_first_call hno
      -- The call is cut out with all that stands in front of it, and the rest is treated by itself.
      have hlength : rest.length < n := by
        rw [← hn, hparts, List.length_append, List.length_cons]
        omega
      obtain ⟨hwords, hopen⟩ := ih rest.length hlength (hh.behind_call hparts) rfl
      have horder := inOrder_iff hparts hfront hrest
      rw [hh.stripAttributes_call hparts hfront hrest]
      constructor
      · intro hin
        -- In order there are no calls in front.
        obtain ⟨hnone, hin⟩ := horder.1 hin
        have hfrontparts : ∀ p ∈ front, p.WellFormed := fun p hp =>
          hh.parts p (by rw [hparts]; exact List.mem_append_left _ hp)
        have hfrontwords : Text.words (h.lead ++ front.flatMap HeadPart.text) =
            HeadPart.words front := by
          have hall := words_flatMap_text hfrontparts hnone []
          rw [List.append_nil, Text.words_nil, List.append_nil] at hall
          rw [Text.words_append_of_blank hlead, hall]
        have hallwords : h.words = HeadPart.words front ++ words ⟨behind, rest, h.last⟩ := by
          unfold words HeadPart.words
          rw [hparts, List.filterMap_append, List.append_assoc]
          rfl
        rw [Text.words_append_blank (by decide), hfrontwords, hwords hin, hallwords]
      · intro hnot
        -- What is out of order stands in the rest, or in front, where nothing is cut out any more.
        by_cases hnone : ranks front = []
        · have hstays := hopen fun hin => hnot (horder.2 ⟨hnone, hin⟩)
          exact List.mem_append_right _ (.tail _ hstays)
        · exact List.mem_append_left _ (List.mem_append_right _ (open_mem_flatMap_text hnone))

end DecoratedHead

namespace DecoratedHead

open HeadPart

variable {h : DecoratedHead} {location : Location} {params : Text} {doc : Option Text}
  {d : Declaration}

theorem ranks_plain (h : DecoratedHead) : ranks h.plain.parts = [] := by
  unfold ranks plain
  rw [List.filterMap_eq_nil_iff]
  intro p hp
  cases p with
  | word => rfl
  | call => exact absurd (List.mem_filter.1 hp).2 Bool.false_ne_true

theorem words_plain (h : DecoratedHead) : h.plain.words = h.words := by
  unfold words plain HeadPart.words
  rw [List.filterMap_filter]
  congr 2
  funext p
  cases p <;> rfl

theorem WellFormed.plain (hh : h.WellFormed) : h.plain.WellFormed :=
  ⟨hh.lead, fun p hp => hh.parts p (List.mem_filter.1 hp).1, hh.last⟩

theorem plain_inOrder (h : DecoratedHead) : h.plain.InOrder := by
  unfold InOrder
  rw [ranks_plain]
  exact .nil

/-- When its macros are called in order a head is read like its words. -/
theorem WellFormed.words_stripAttributes (hh : h.WellFormed) (horder : h.InOrder) :
    (stripAttributes h.text).words = (stripAttributes h.plain.text).words := by
  rw [hh.stripAttributes_spec.1 horder, hh.plain.stripAttributes_spec.1 h.plain_inOrder,
    words_plain]

theorem WellFormed.isHeadWord (hh : h.WellFormed) {w : Text} (hw : w ∈ h.words) : IsHeadWord w := by
  rcases List.mem_append.1 hw with hw | hw
  · obtain ⟨p, hp, hpw⟩ := List.mem_filterMap.1 hw
    cases hh.parts p hp with
    | word hword =>
      obtain rfl := Option.some.inj hpw
      exact hword
    | call => cases hpw
  · rw [List.mem_singleton.1 hw]
    exact hh.last

/-- No parenthesis stays in a head without macros. -/
theorem WellFormed.open_not_mem (hh : h.WellFormed) : '(' ∉ stripAttributes h.plain.text := by
  rw [Text.mem_iff_exists_word (by decide), hh.plain.stripAttributes_spec.1 h.plain_inOrder]
  rintro ⟨w, hw, hopen⟩
  have hkeeps := (hh.plain.isHeadWord hw).keeps '(' hopen
  cases hkeeps

/-- A head with attribute macros is read like its words exactly when the macros are called in
order. -/
theorem WellFormed.read_eq_iff (hh : h.WellFormed)
    (hd : Declaration.read location h.plain.text params doc = .ok d) :
    Declaration.read location h.text params doc = .ok d ↔ h.InOrder := by
  constructor
  · intro hsame
    by_contra hnot
    have hopen := hh.stripAttributes_spec.2 hnot
    rw [← Declaration.open_mem_returnType hsame, Declaration.open_mem_returnType hd] at hopen
    exact hh.open_not_mem hopen
  · intro horder
    rw [Declaration.read_congr (hh.words_stripAttributes horder) (fun _ => rfl), hd]

end DecoratedHead

end NativeBindings
