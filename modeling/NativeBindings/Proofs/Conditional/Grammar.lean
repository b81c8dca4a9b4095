import Mathlib.Data.List.Basic
import NativeBindings.Conditional.Condition

/-!
# The grammar of conditions

`Derives` is the grammar of the conditions that can be decided:

    or    := and ("||" and)*
    and   := unary ("&&" unary)*
    unary := "!" unary | "(" or ")" | "0" | "1" | "defined" NAME | "defined" "(" NAME ")"

Each repetition is unrolled from the left, which is also how the readers join what they read. The
readers are compared with the grammar without the proofs that they carry along (`erase`). What the
grammar derives, they read, whatever follows it, and go on behind it (`Derives.readsOn`); what they
read, the grammar derives (`Chain.sound`, `sound_readUnary`). So the tokens of a condition are those
that the grammar derives, as a whole (`Condition.ofTokens?_eq_some_iff`).
-/

namespace NativeBindings.Conditional

/-- The levels of the grammar, the one that binds loosest first. -/
inductive Precedence
  /-- Conditions joined by `||`. -/
  | or
  /-- Conditions joined by `&&`. -/
  | and
  /-- A single condition. -/
  | unary

/-- The grammar derives the tokens as the condition. -/
inductive Derives : Precedence → List Token → Condition → Prop
  /-- A condition without `||`. -/
  | orFirst {ts : List Token} {c : Condition} (h : Derives .and ts c) : Derives .or ts c
  /-- One more condition behind `||`. -/
  | orMore {ts us : List Token} {c d : Condition} (h : Derives .or ts c)
      (hmore : Derives .and us d) : Derives .or (ts ++ .or :: us) (.or c d)
  /-- A condition without `&&`. -/
  | andFirst {ts : List Token} {c : Condition} (h : Derives .unary ts c) : Derives .and ts c
  /-- One more condition behind `&&`. -/
  | andMore {ts us : List Token} {c d : Condition} (h : Derives .and ts c)
      (hmore : Derives .unary us d) : Derives .and (ts ++ .and :: us) (.and c d)
  /-- A negation. -/
  | not {ts : List Token} {c : Condition} (h : Derives .unary ts c) :
      Derives .unary (.bang :: ts) (.not c)
  /-- A condition in parentheses. -/
  | group {ts : List Token} {c : Condition} (h : Derives .or ts c) :
      Derives .unary (.opening :: (ts ++ [.closing])) c
  /-- What is never true. -/
  | zero : Derives .unary [.number ['0']] (.literal false)
  /-- What is always true. -/
  | one : Derives .unary [.number ['1']] (.literal true)
  /-- A test of a symbol. -/
  | defined (name : Text) :
      Derives .unary [.name "defined".toList, .name name] (.defined (String.ofList name))
  /-- A test of a symbol in parentheses. -/
  | definedGroup (name : Text) :
      Derives .unary [.name "defined".toList, .opening, .name name, .closing]
        (.defined (String.ofList name))

/-! ## The readers without their proofs -/

/-- The condition and the tokens left that a reader gives. -/
def erase {p : List Token → Prop} (r : Option (Condition × { rest : List Token // p rest })) :
    Option (Condition × List Token) :=
  r.map fun (c, rest) => (c, rest.1)

/-- What is left has the property that the reader proves. -/
theorem property_of_erase {p : List Token → Prop}
    {r : Option (Condition × { rest : List Token // p rest })} {c : Condition} {rest : List Token}
    (h : erase r = some (c, rest)) : p rest := by
  obtain ⟨⟨_, left⟩, -, heq⟩ := Option.map_eq_some_iff.1 h
  obtain ⟨rfl, rfl⟩ := Prod.mk.inj heq
  exact left.2

/-- One reader behind another one, which may prove something else about what it leaves. -/
theorem erase_bind {p q : List Token → Prop}
    (r : Option (Condition × { rest : List Token // p rest }))
    (f : Condition × { rest : List Token // p rest } →
      Option (Condition × { rest : List Token // q rest }))
    (g : Condition × List Token → Option (Condition × List Token))
    (h : ∀ c rest hrest, erase (f (c, ⟨rest, hrest⟩)) = g (c, rest)) :
    erase (r >>= f) = (erase r).bind g := by
  rcases r with _ | ⟨c, rest, hrest⟩
  · rfl
  · exact h c rest hrest

/-- What a reader gives stays the same when less is proved about what it leaves. -/
theorem erase_weaken {p q : List Token → Prop}
    (r : Option (Condition × { rest : List Token // p rest })) (h : ∀ {rest}, p rest → q rest) :
    erase (do let (c, ⟨rest, hrest⟩) ← r; return (c, (⟨rest, h hrest⟩ : { rest // q rest }))) =
      erase r := by
  cases r <;> rfl

theorem erase_readOr (ts : List Token) :
    erase (readOr ts) = (erase (readAnd ts)).bind fun (c, rest) => erase (readOrs c rest) := by
  rw [readOr]
  exact erase_bind _ _ _ fun c rest _ => erase_weaken (readOrs c rest) _

theorem erase_readOrs_or (c : Condition) (ts : List Token) :
    erase (readOrs c (.or :: ts)) =
      (erase (readAnd ts)).bind fun (d, rest) => erase (readOrs (.or c d) rest) := by
  rw [readOrs]
  exact erase_bind _ _ _ fun d rest _ => erase_weaken (readOrs (.or c d) rest) _

theorem erase_readOrs_of_ne {ts : List Token} (h : ts.head? ≠ some .or) (c : Condition) :
    erase (readOrs c ts) = some (c, ts) := by
  rw [readOrs.eq_def]
  split
  · exact absurd rfl h
  · rfl

theorem erase_readAnd (ts : List Token) :
    erase (readAnd ts) = (erase (readUnary ts)).bind fun (c, rest) => erase (readAnds c rest) := by
  rw [readAnd]
  exact erase_bind _ _ _ fun c rest _ => erase_weaken (readAnds c rest) _

theorem erase_readAnds_and (c : Condition) (ts : List Token) :
    erase (readAnds c (.and :: ts)) =
      (erase (readUnary ts)).bind fun (d, rest) => erase (readAnds (.and c d) rest) := by
  rw [readAnds]
  exact erase_bind _ _ _ fun d rest _ => erase_weaken (readAnds (.and c d) rest) _

theorem erase_readAnds_of_ne {ts : List Token} (h : ts.head? ≠ some .and) (c : Condition) :
    erase (readAnds c ts) = some (c, ts) := by
  rw [readAnds.eq_def]
  split
  · exact absurd rfl h
  · rfl

theorem erase_readUnary_bang (ts : List Token) :
    erase (readUnary (.bang :: ts)) =
      (erase (readUnary ts)).map fun (c, rest) => (.not c, rest) := by
  rw [readUnary]
  cases readUnary ts <;> rfl

theorem erase_readUnary_opening (ts : List Token) :
    erase (readUnary (.opening :: ts)) = (erase (readOr ts)).bind fun
      | (c, .closing :: rest) => some (c, rest)
      | _ => none := by
  rw [readUnary]
  cases readOr ts with
  | none => rfl
  | some r =>
    obtain ⟨c, rest, h⟩ := r
    simp only [erase, Option.bind_eq_bind, Option.bind_some, Option.map_some]
    rcases rest with _ | ⟨_ | _, rest⟩ <;> rfl

/-! ## What the grammar derives is read -/

/-- Tokens are read as the condition, and the reader goes on behind them. -/
def ReadsOn : Precedence → List Token → Condition → Prop
  | .or, ts, c => ∀ rest : List Token, rest.head? ≠ some .and →
    erase (readOr (ts ++ rest)) = erase (readOrs c rest)
  | .and, ts, c => ∀ rest : List Token,
    erase (readAnd (ts ++ rest)) = erase (readAnds c rest)
  | .unary, ts, c => ∀ rest : List Token, erase (readUnary (ts ++ rest)) = some (c, rest)

/-- What the grammar derives is read, whatever follows. -/
theorem Derives.readsOn {l : Precedence} {ts : List Token} {c : Condition} (h : Derives l ts c) :
    ReadsOn l ts c := by
  induction h with
  | orFirst _ ih =>
    intro rest hrest
    rw [erase_readOr, ih rest, erase_readAnds_of_ne hrest]
    rfl
  | @orMore ts us c d _ _ ih ihmore =>
    intro rest hrest
    rw [List.append_assoc, List.cons_append, ih (.or :: (us ++ rest)) nofun, erase_readOrs_or,
      ihmore rest, erase_readAnds_of_ne hrest]
    rfl
  | andFirst _ ih =>
    intro rest
    rw [erase_readAnd, ih rest]
    rfl
  | @andMore ts us c d _ _ ih ihmore =>
    intro rest
    rw [List.append_assoc, List.cons_append, ih (.and :: (us ++ rest)), erase_readAnds_and,
      ihmore rest]
    rfl
  | not _ ih =>
    -- In the parentheses a condition is read up to the closing one.
    intro rest
    rw [List.cons_append, erase_readUnary_bang, ih rest]
    rfl
  | group _ ih =>
    intro rest
    rw [List.cons_append, List.append_assoc, List.singleton_append, erase_readUnary_opening,
      ih (.closing :: rest) nofun, erase_readOrs_of_ne (by simp)]
    rfl
  | zero | one | defined | definedGroup =>
    intro rest
    rw [readUnary.eq_def]
    simp [erase]

/-! ## What is read, the grammar derives -/

/-- Of fewer tokens than `n`, the grammar derives what the reader takes. -/
def Sound (read : List Token → Option (Condition × List Token)) (l : Precedence) (n : Nat) :
    Prop :=
  ∀ (ts : List Token) (c : Condition) (rest : List Token), ts.length < n →
    read ts = some (c, rest) → ∃ ps, ts = ps ++ rest ∧ Derives l ps c

/-- The readers of conditions of one level that an operator joins to a condition of the next
level: `part` reads one of them, `more` those behind further operators and `read` all. -/
structure Chain (lower upper : Precedence) (operator : Token)
    (joined : Condition → Condition → Condition)
    (part read : List Token → Option (Condition × List Token))
    (more : Condition → List Token → Option (Condition × List Token)) : Prop where
  /-- All conditions are the first one and those behind further operators. -/
  read_eq (ts : List Token) : read ts = (part ts).bind fun (c, rest) => more c rest
  /-- Behind an operator the next condition is read. -/
  more_cons (c : Condition) (ts : List Token) :
    more c (operator :: ts) = (part ts).bind fun (d, rest) => more (joined c d) rest
  /-- Without an operator nothing more is read. -/
  more_of_ne {ts : List Token} (h : ts.head? ≠ some operator) (c : Condition) :
    more c ts = some (c, ts)
  /-- A condition leaves fewer tokens. -/
  length_lt {ts : List Token} {c : Condition} {rest : List Token}
    (h : part ts = some (c, rest)) : rest.length < ts.length
  /-- The grammar has the first condition. -/
  first {ts : List Token} {c : Condition} (h : Derives lower ts c) : Derives upper ts c
  /-- The grammar has one more condition behind the operator. -/
  join {ts us : List Token} {c d : Condition} (h : Derives upper ts c)
    (hmore : Derives lower us d) : Derives upper (ts ++ operator :: us) (joined c d)

theorem chain_or : Chain .and .or .or .or (fun ts => erase (readAnd ts))
    (fun ts => erase (readOr ts)) fun c ts => erase (readOrs c ts) where
  read_eq := erase_readOr
  more_cons := erase_readOrs_or
  more_of_ne := erase_readOrs_of_ne
  length_lt := property_of_erase
  first := .orFirst
  join := .orMore

theorem chain_and : Chain .unary .and .and .and (fun ts => erase (readUnary ts))
    (fun ts => erase (readAnd ts)) fun c ts => erase (readAnds c ts) where
  read_eq := erase_readAnd
  more_cons := erase_readAnds_and
  more_of_ne := erase_readAnds_of_ne
  length_lt := property_of_erase
  first := .andFirst
  join := .andMore

namespace Chain

variable {lower upper : Precedence} {operator : Token} {joined : Condition → Condition → Condition}
  {part read : List Token → Option (Condition × List Token)}
  {more : Condition → List Token → Option (Condition × List Token)} {n : Nat}

/-- What is read behind further operators extends what the grammar derives in front of them. -/
theorem extends_of_more (h : Chain lower upper operator joined part read more)
    (hpart : Sound part lower n) {ts ps rest : List Token} {c d : Condition} (hts : ts.length ≤ n)
    (hps : Derives upper ps c) (hmore : more c ts = some (d, rest)) :
    ∃ qs, ts = qs ++ rest ∧ Derives upper (ps ++ qs) d := by
  -- Each operator takes in several tokens, so the induction is on their number.
  induction hlength : ts.length using Nat.strongRecOn generalizing ts ps c with
  | ind k ih =>
    by_cases hhead : ts.head? = some operator
    · obtain ⟨us, rfl⟩ := List.head?_eq_some_iff.1 hhead
      rw [h.more_cons] at hmore
      obtain ⟨⟨e, left⟩, hnext, hfurther⟩ := Option.bind_eq_some_iff.1 hmore
      rw [List.length_cons] at hts hlength
      have hshorter := h.length_lt hnext
      obtain ⟨qs, rfl, hqs⟩ := hpart us e left (by omega) hnext
      obtain ⟨rs, rfl, hrs⟩ :=
        ih left.length (by omega) (by omega) (h.join hps hqs) hfurther rfl
      exact ⟨operator :: (qs ++ rs), by simp, by simpa using hrs⟩
    · rw [h.more_of_ne hhead] at hmore
      obtain ⟨rfl, rfl⟩ := Prod.mk.inj (Option.some.inj hmore)
      exact ⟨[], rfl, by rwa [List.append_nil]⟩

/-- When the grammar derives each condition that is read, it derives those that operators join. -/
theorem sound (h : Chain lower upper operator joined part read more)
    (hpart : Sound part lower n) : Sound read upper n := by
  intro ts c rest hts hread
  rw [h.read_eq] at hread
  obtain ⟨⟨d, left⟩, hfirst, hmore⟩ := Option.bind_eq_some_iff.1 hread
  have hshorter := h.length_lt hfirst
  obtain ⟨ps, rfl, hps⟩ := hpart ts d left hts hfirst
  obtain ⟨qs, rfl, hqs⟩ := h.extends_of_more hpart (by omega) (h.first hps) hmore
  exact ⟨ps ++ qs, by rw [List.append_assoc], hqs⟩

end Chain

/-- The grammar derives what is read of tokens that start with no `!` and no parenthesis. -/
theorem derives_of_readUnary {ts rest : List Token} {c : Condition} (hbang : ts.head? ≠ some .bang)
    (hopening : ts.head? ≠ some .opening) (h : erase (readUnary ts) = some (c, rest)) :
    ∃ ps, ts = ps ++ rest ∧ Derives .unary ps c := by
  rw [readUnary.eq_def] at h
  -- By the first tokens: a number, `defined` with a name, or `defined` with a name in parentheses.
  split at h
  · exact absurd rfl hbang
  · exact absurd rfl hopening
  · rename_i text ts
    split at h
    · rename_i htext
      obtain ⟨rfl, rfl⟩ := Prod.mk.inj (Option.some.inj h)
      exact ⟨[.number text], rfl, htext ▸ .zero⟩
    · split at h
      · rename_i htext
        obtain ⟨rfl, rfl⟩ := Prod.mk.inj (Option.some.inj h)
        exact ⟨[.number text], rfl, htext ▸ .one⟩
      · cases h
  · rename_i word name ts
    split at h
    · rename_i hword
      obtain ⟨rfl, rfl⟩ := Prod.mk.inj (Option.some.inj h)
      exact ⟨[.name word, .name name], rfl, hword ▸ .defined name⟩
    · cases h
  · rename_i word name ts
    split at h
    · rename_i hword
      obtain ⟨rfl, rfl⟩ := Prod.mk.inj (Option.some.inj h)
      exact ⟨[.name word, .opening, .name name, .closing], rfl, hword ▸ .definedGroup name⟩
    · cases h
  · cases h

/-- The grammar derives the single conditions that are read. -/
theorem sound_readUnary (n : Nat) : Sound (fun ts => erase (readUnary ts)) .unary n := by
  induction n with
  | zero => exact fun ts _ _ hts => absurd hts (Nat.not_lt_zero _)
  | succ n ih =>
    -- Inside parentheses stands a condition of any kind, over fewer tokens.
    have hor : Sound (fun ts => erase (readOr ts)) .or n := chain_or.sound (chain_and.sound ih)
    intro ts c rest hts hread
    by_cases hbang : ts.head? = some .bang
    · -- A condition that is negated.
      obtain ⟨ts, rfl⟩ := List.head?_eq_some_iff.1 hbang
      dsimp only at hread
      rw [erase_readUnary_bang] at hread
      obtain ⟨⟨d, left⟩, hnext, heq⟩ := Option.map_eq_some_iff.1 hread
      obtain ⟨rfl, rfl⟩ := Prod.mk.inj heq
      obtain ⟨ps, rfl, hps⟩ := ih ts d left (Nat.lt_of_succ_lt_succ hts) hnext
      exact ⟨.bang :: ps, rfl, .not hps⟩
    · by_cases hopening : ts.head? = some .opening
      · obtain ⟨ts, rfl⟩ := List.head?_eq_some_iff.1 hopening
        dsimp only at hread
        rw [erase_readUnary_opening] at hread
        obtain ⟨⟨d, left⟩, hinner, hclosing⟩ := Option.bind_eq_some_iff.1 hread
        obtain ⟨ps, rfl, hps⟩ := hor ts d left (Nat.lt_of_succ_lt_succ hts) hinner
        -- The parenthesis is closed right behind the condition.
        match left with
        | .closing :: left =>
          obtain ⟨rfl, rfl⟩ := Prod.mk.inj (Option.some.inj hclosing)
          exact ⟨.opening :: (ps ++ [.closing]), by simp, .group hps⟩
      · exact derives_of_readUnary hbang hopening hread

/-! ## Conditions -/

theorem Condition.ofTokens?_eq_some_iff_erase {ts : List Token} {c : Condition} :
    Condition.ofTokens? ts = some c ↔ erase (readOr ts) = some (c, []) := by
  unfold Condition.ofTokens? erase
  cases readOr ts with
  | none => simp
  | some r =>
    obtain ⟨d, rest, h⟩ := r
    cases rest <;> simp

/-- Tokens are a condition when the grammar derives them as a whole. -/
theorem Condition.ofTokens?_eq_some_iff {ts : List Token} {c : Condition} :
    Condition.ofTokens? ts = some c ↔ Derives .or ts c := by
  rw [Condition.ofTokens?_eq_some_iff_erase]
  constructor
  · intro h
    have hsound : Sound (fun ts => erase (readOr ts)) .or (ts.length + 1) :=
      chain_or.sound (chain_and.sound (sound_readUnary _))
    obtain ⟨ps, hts, hps⟩ := hsound ts c [] (Nat.lt_succ_self _) h
    rwa [hts, List.append_nil]
  · intro h
    have hread := h.readsOn [] nofun
    rwa [List.append_nil, erase_readOrs_of_ne (by simp)] at hread

/-- The value of a text is that of the condition that the grammar derives from its tokens. -/
theorem evaluate?_eq_some_iff {symbols : SymbolSet} {text : Text} {v : Bool} :
    evaluate? symbols text = some v ↔
      ∃ ts c, tokens? text = some ts ∧ Derives .or ts c ∧ c.holds symbols = v := by
  unfold evaluate? Condition.parse?
  simp only [Option.map_eq_some_iff, Option.bind_eq_some_iff, Condition.ofTokens?_eq_some_iff]
  constructor
  · rintro ⟨c, ⟨ts, hts, hc⟩, rfl⟩
    exact ⟨ts, c, hts, hc, rfl⟩
  · rintro ⟨ts, c, hts, hc, rfl⟩
    exact ⟨c, ⟨ts, hts, hc⟩, rfl⟩

/-- Whether a text has a value depends on its tokens alone. -/
theorem isSome_evaluate?_iff {symbols : SymbolSet} {text : Text} :
    (evaluate? symbols text).isSome ↔ ∃ ts, tokens? text = some ts ∧ ∃ c, Derives .or ts c := by
  unfold evaluate? Condition.parse?
  simp only [Option.isSome_map, Option.isSome_iff_exists, Option.bind_eq_some_iff,
    Condition.ofTokens?_eq_some_iff]
  constructor
  · rintro ⟨c, ts, hts, hc⟩
    exact ⟨ts, hts, c, hc⟩
  · rintro ⟨ts, hts, c, hc⟩
    exact ⟨c, ts, hts, hc⟩

end NativeBindings.Conditional
