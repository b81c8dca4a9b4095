import NativeBindings.Proofs.Conditional.Grammar

/-!
# The operands of a condition

An operator outside parentheses has two operands, what precedes it and what follows it. Tokens with
such an operator are a condition exactly when both operands are (`isCondition_operator_iff`): the
grammar derives them apart (`Derives.operands`), and joined again (`Derives.joinsOn`). Which symbols
are defined plays no part in this, and neither does the value of the first operand. With the grammar
this is `evaluate?_grammar`.
-/

namespace NativeBindings.Conditional

/-! ## Depth -/

/-- The number of parentheses that are open behind the tokens; none when one is closed that is not
open. -/
def depthAfter : Nat → List Token → Option Nat
  | depth, [] => some depth
  | depth, .opening :: ts => depthAfter (depth + 1) ts
  | 0, .closing :: _ => none
  | depth + 1, .closing :: ts => depthAfter depth ts
  | depth, _ :: ts => depthAfter depth ts

theorem depthAfter_append (depth : Nat) (ts us : List Token) :
    depthAfter depth (ts ++ us) = (depthAfter depth ts).bind (depthAfter · us) := by
  fun_induction depthAfter depth ts with
  | case1 => rfl
  | case2 depth ts ih => exact ih
  | case3 ts => rfl
  | case4 depth ts ih => exact ih
  | case5 depth t ts hopening hzero hclosing ih =>
    rw [List.cons_append, depthAfter, ih] <;> assumption

/-- One more open parenthesis in front is one more behind. -/
theorem depthAfter_succ {depth after : Nat} {ts : List Token}
    (h : depthAfter depth ts = some after) : depthAfter (depth + 1) ts = some (after + 1) := by
  fun_induction depthAfter depth ts with
  | case1 => rw [depthAfter, Option.some.inj h]
  | case2 depth ts ih => exact ih h
  | case3 => cases h
  | case4 depth ts ih => exact ih h
  | case5 depth t ts hopening hzero hclosing ih =>
    have hclosing' : t ≠ .closing := fun ht => by
      cases depth with
      | zero => exact hzero rfl ht
      | succ depth => exact hclosing depth rfl ht
    rw [depthAfter, ih h]
    · exact hopening
    · nofun
    · exact fun _ _ => hclosing'

/-- A condition closes each parenthesis that it opens. -/
theorem Derives.depthAfter_eq {l : Precedence} {ts : List Token} {c : Condition}
    (h : Derives l ts c) (depth : Nat) : depthAfter depth ts = some depth := by
  induction h generalizing depth with
  | orFirst _ ih | andFirst _ ih | not _ ih => exact ih depth
  | orMore _ _ ih ihmore | andMore _ _ ih ihmore =>
    rw [depthAfter_append, ih, Option.bind_some, depthAfter, ihmore] <;> nofun
  | group _ ih =>
    rw [depthAfter, depthAfter_append, ih]
    rfl
  | zero | one | defined | definedGroup => rfl

/-! ## Operators -/

/-- The operators that join two conditions. -/
def operators : List Token := [.or, .and]

/-- An operator is no parenthesis. -/
theorem depthAfter_operator {operator : Token} (h : operator ∈ operators) (depth : Nat)
    (ts : List Token) : depthAfter depth (operator :: ts) = depthAfter depth ts := by
  rcases List.mem_pair.1 h with rfl | rfl <;> rw [depthAfter] <;> nofun

/-- Of two elements of one list, one precedes the other or both are the same. -/
theorem append_cons_eq_append_cons {α : Type} {x y : α} {ps qs ts us : List α}
    (h : ps ++ x :: qs = ts ++ y :: us) :
    (∃ a, ps = ts ++ y :: a ∧ us = a ++ x :: qs) ∨ (ps = ts ∧ x = y ∧ qs = us) ∨
      ∃ a, ts = ps ++ x :: a ∧ qs = a ++ y :: us := by
  rcases List.append_eq_append_iff.1 h with ⟨a, rfl, hright⟩ | ⟨a, rfl, hright⟩
  · rcases List.cons_eq_append_iff.1 hright with ⟨rfl, heq⟩ | ⟨a, rfl, rfl⟩
    · obtain ⟨rfl, rfl⟩ := List.cons.inj heq
      exact .inr (.inl ⟨(List.append_nil _).symm, rfl, rfl⟩)
    · exact .inr (.inr ⟨a, rfl, rfl⟩)
  · rcases List.cons_eq_append_iff.1 hright with ⟨rfl, heq⟩ | ⟨a, rfl, rfl⟩
    · obtain ⟨rfl, rfl⟩ := List.cons.inj heq
      exact .inr (.inl ⟨List.append_nil _, rfl, rfl⟩)
    · exact .inl ⟨a, rfl, rfl⟩

/-- Tokens that are a condition. -/
def IsCondition (l : Precedence) (ts : List Token) : Prop := ∃ c, Derives l ts c

theorem IsCondition.or {ts us : List Token} (hts : IsCondition .or ts) (hus : IsCondition .and us) :
    IsCondition .or (ts ++ .or :: us) :=
  ⟨_, .orMore hts.choose_spec hus.choose_spec⟩

theorem IsCondition.and {ts us : List Token} (hts : IsCondition .and ts)
    (hus : IsCondition .unary us) : IsCondition .and (ts ++ .and :: us) :=
  ⟨_, .andMore hts.choose_spec hus.choose_spec⟩

theorem IsCondition.ofAnd {ts : List Token} (hts : IsCondition .and ts) : IsCondition .or ts :=
  ⟨_, .orFirst hts.choose_spec⟩

theorem IsCondition.ofUnary {ts : List Token} (hts : IsCondition .unary ts) : IsCondition .and ts :=
  ⟨_, .andFirst hts.choose_spec⟩

/-- What the two sides of an operator are that stands outside parentheses in a condition. -/
def Operands : Precedence → Token → List Token → List Token → Prop
  | .or, _, ts, us => IsCondition .or ts ∧ IsCondition .or us
  | .and, operator, ts, us => operator = .and ∧ IsCondition .and ts ∧ IsCondition .and us
  | .unary, _, _, _ => False

/-- What precedes an operator outside parentheses in a condition is a condition, and so is what
follows it. -/
theorem Derives.operands {l : Precedence} {whole : List Token} {c : Condition}
    (h : Derives l whole c) {operator : Token} (hoperator : operator ∈ operators)
    {ts us : List Token} (hwhole : whole = ts ++ operator :: us)
    (hts : depthAfter 0 ts = some 0) : Operands l operator ts us := by
  -- Behind a condition and an operator the depth is the same as in front of them.
  have hbehind : ∀ {l : Precedence} {ps a : List Token} {c : Condition} {other : Token},
      Derives l ps c → other ∈ operators → depthAfter 0 (ps ++ other :: a) = some 0 →
        depthAfter 0 a = some 0 := by
    intro l ps a c other hps hother hdepth
    rwa [depthAfter_append, hps.depthAfter_eq, Option.bind_some, depthAfter_operator hother]
      at hdepth
  induction h generalizing ts us with
  | orFirst _ ih =>
    obtain ⟨-, hleft, hright⟩ := ih hwhole hts
    exact ⟨hleft.ofAnd, hright.ofAnd⟩
  | orMore hps hqs ih ihmore =>
    -- The operator stands in front of the one that the rule puts, is that one, or stands behind it.
    rcases append_cons_eq_append_cons hwhole with ⟨a, rfl, rfl⟩ | ⟨rfl, -, rfl⟩ | ⟨a, rfl, rfl⟩
    · obtain ⟨hleft, hright⟩ := ih rfl hts
      exact ⟨hleft, hright.or ⟨_, hqs⟩⟩
    · exact ⟨⟨_, hps⟩, .ofAnd ⟨_, hqs⟩⟩
    · obtain ⟨-, hleft, hright⟩ := ihmore rfl (hbehind hps (by decide) hts)
      exact ⟨.or ⟨_, hps⟩ hleft, hright.ofAnd⟩
  | andFirst _ ih => exact (ih hwhole hts).elim
  | andMore hps hqs ih ihmore =>
    rcases append_cons_eq_append_cons hwhole with ⟨a, rfl, rfl⟩ | ⟨rfl, rfl, rfl⟩ | ⟨a, rfl, rfl⟩
    · obtain ⟨rfl, hleft, hright⟩ := ih rfl hts
      exact ⟨rfl, hleft, hright.and ⟨_, hqs⟩⟩
    · exact ⟨rfl, ⟨_, hps⟩, .ofUnary ⟨_, hqs⟩⟩
    · exact (ihmore rfl (hbehind hps (by decide) hts)).elim
  | not _ ih =>
    rcases List.cons_eq_append_iff.1 hwhole with ⟨rfl, heq⟩ | ⟨a, rfl, rfl⟩
    · obtain ⟨rfl, -⟩ := List.cons.inj heq
      exact absurd hoperator (by decide)
    · have hinner : Operands .unary operator a us := ih rfl hts
      exact hinner.elim
  | group hinner _ =>
    rcases List.cons_eq_append_iff.1 hwhole with ⟨rfl, heq⟩ | ⟨a, rfl, hright⟩
    · obtain ⟨rfl, -⟩ := List.cons.inj heq
      exact absurd hoperator (by decide)
    · -- The parenthesis in front is still open at the operator.
      have hopen : depthAfter 1 a = some 0 := hts
      rcases append_cons_eq_append_cons hright with ⟨b, rfl, -⟩ | ⟨-, rfl, -⟩ | ⟨b, -, hnil⟩
      · have hdepth := hinner.depthAfter_eq 0
        rw [depthAfter_append] at hdepth
        obtain ⟨depth, ha, -⟩ := Option.bind_eq_some_iff.1 hdepth
        rw [depthAfter_succ ha] at hopen
        cases hopen
      · exact absurd hoperator (by decide)
      · exact absurd hnil.symm (by simp)
  | zero | one | defined | definedGroup =>
    -- The other conditions have no operator.
    have hmem : operator ∈ ts ++ operator :: us := by simp
    rw [← hwhole] at hmem
    rcases List.mem_pair.1 hoperator with rfl | rfl <;> simp at hmem

/-- What tokens are behind an operator, when they are a condition. -/
def JoinsOn : Precedence → List Token → Prop
  | .or, us => ∀ operator ∈ operators, ∀ ts, IsCondition .or ts →
    IsCondition .or (ts ++ operator :: us)
  | .and, us => ∀ ts, IsCondition .and ts → IsCondition .and (ts ++ .and :: us)
  | .unary, us => IsCondition .unary us

/-- An operator joins two conditions. -/
theorem Derives.joinsOn {l : Precedence} {us : List Token} {d : Condition} (h : Derives l us d) :
    JoinsOn l us := by
  induction h with
  | @orFirst us d h ih =>
    intro operator hoperator ts hts
    rcases List.mem_pair.1 hoperator with rfl | rfl
    · exact hts.or ⟨d, h⟩
    · -- The operator binds closer than those in front of it.
      obtain ⟨c, hc⟩ := hts
      cases hc with
      | orFirst hc => exact (ih _ ⟨_, hc⟩).ofAnd
      | orMore hc hmore =>
        rw [List.append_assoc, List.cons_append]
        exact .or ⟨_, hc⟩ (ih _ ⟨_, hmore⟩)
  | @orMore ps qs _ _ _ hmore ih _ =>
    intro operator hoperator ts hts
    -- The condition in front of the operator goes to the first of those behind it.
    have hleft := (ih operator hoperator ts hts).or ⟨_, hmore⟩
    rwa [List.append_assoc, List.cons_append] at hleft
  | andFirst h _ => exact fun ts hts => hts.and ⟨_, h⟩
  | @andMore ps qs _ _ _ hmore ih _ =>
    intro ts hts
    have hleft := (ih ts hts).and ⟨_, hmore⟩
    rwa [List.append_assoc, List.cons_append] at hleft
  | not h _ => exact ⟨_, .not h⟩
  | group h _ => exact ⟨_, .group h⟩
  | zero => exact ⟨_, .zero⟩
  | one => exact ⟨_, .one⟩
  | defined name => exact ⟨_, .defined name⟩
  | definedGroup name => exact ⟨_, .definedGroup name⟩

/-- Tokens with an operator outside parentheses are a condition exactly when both sides are. -/
theorem isCondition_operator_iff {operator : Token} (hoperator : operator ∈ operators)
    {ts us : List Token} (hts : depthAfter 0 ts = some 0) :
    IsCondition .or (ts ++ operator :: us) ↔ IsCondition .or ts ∧ IsCondition .or us := by
  constructor
  · rintro ⟨c, hc⟩
    exact hc.operands hoperator rfl hts
  · rintro ⟨hleft, d, hd⟩
    exact hd.joinsOn operator hoperator ts hleft

/-- A text has a value exactly when the grammar derives its tokens as a whole, and the value is that
of what it derives, for the symbols in question. So whether a text has a value does not depend on
the symbols, and at an operator outside parentheses both operands must be conditions, even where the
value of one of them decides. -/
theorem evaluate?_grammar (text : Text) :
    (∀ symbols v, evaluate? symbols text = some v ↔
      ∃ ts c, tokens? text = some ts ∧ Derives .or ts c ∧ c.holds symbols = v) ∧
    (∀ symbols symbols', (evaluate? symbols text).isSome = (evaluate? symbols' text).isSome) ∧
    ∀ ts us, ∀ operator ∈ operators, tokens? text = some (ts ++ operator :: us) →
      depthAfter 0 ts = some 0 → ∀ symbols,
        ((evaluate? symbols text).isSome ↔ IsCondition .or ts ∧ IsCondition .or us) := by
  refine ⟨fun symbols v => evaluate?_eq_some_iff, fun symbols symbols' => ?_,
    fun ts us operator hoperator htext hts symbols => ?_⟩
  · rw [Bool.eq_iff_iff, isSome_evaluate?_iff, isSome_evaluate?_iff]
  · rw [isSome_evaluate?_iff, ← isCondition_operator_iff hoperator hts, htext]
    constructor
    · rintro ⟨ts, hts, hcondition⟩
      obtain rfl := Option.some.inj hts
      exact hcondition
    · exact fun hcondition => ⟨_, rfl, hcondition⟩

/-- The first operand is true, so it would decide the value. Still the other one, the name of a
version, makes the whole no condition. -/
theorem evaluate?_grammar_version :
    let symbols := SymbolSet.ofList ["A"]
    let first := "(0 || !defined B && defined(A))".toList
    let whole := "(0 || !defined B && defined(A)) || VERSION".toList
    let ts : List Token :=
      [.opening, .number ['0'], .or, .bang, .name "defined".toList, .name ['B'], .and,
        .name "defined".toList, .opening, .name ['A'], .closing, .closing]
    tokens? first = some ts ∧ evaluate? symbols first = some true ∧
      tokens? whole = some (ts ++ .or :: [.name "VERSION".toList]) ∧ depthAfter 0 ts = some 0 ∧
      evaluate? symbols whole = none := by
  intro symbols first whole ts
  have hfirst : tokens? first = some ts := by decide +kernel
  have hwhole : tokens? whole = some (ts ++ .or :: [.name "VERSION".toList]) := by decide +kernel
  -- The first operand is derived, and the second one is not.
  have hnegated : Derives .and
      [.bang, .name "defined".toList, .name ['B'], .and, .name "defined".toList, .opening,
        .name ['A'], .closing] (.and (.not (.defined "B")) (.defined "A")) :=
    .andMore (.andFirst (.not (.defined ['B']))) (.definedGroup ['A'])
  have hts : Derives .or ts
      (.or (.literal false) (.and (.not (.defined "B")) (.defined "A"))) :=
    .orFirst (.andFirst (.group (.orMore (.orFirst (.andFirst .zero)) hnegated)))
  have hversion : ¬ IsCondition .or [.name "VERSION".toList] := by
    rintro ⟨c, hc⟩
    have hread := Condition.ofTokens?_eq_some_iff_erase.1 (Condition.ofTokens?_eq_some_iff.2 hc)
    rw [erase_readOr, erase_readAnd, readUnary.eq_def] at hread
    cases hread
  refine ⟨hfirst, ((evaluate?_grammar first).1 symbols true).2 ⟨ts, _, hfirst, hts, by decide⟩,
    hwhole, rfl, ?_⟩
  have hoperands := (evaluate?_grammar whole).2.2 ts [.name "VERSION".toList] .or (by decide) hwhole
    rfl symbols
  rw [← Option.not_isSome_iff_eq_none, hoperands]
  exact fun hboth => hversion hboth.2

end NativeBindings.Conditional
