import NativeBindings.Proofs.Scanner.Reading

/-!
# Where findings are

A finding stands where its marker stands. A declaration takes over the location it is read at and is
otherwise read the same everywhere (`Declaration.read_relocate`); a warning names the line that its
candidate started on. `State.read_cases` says all that one character can do inside a declaration:
the declaration goes on with its line, or it ends with a finding there.
-/

namespace NativeBindings

/-- Where a declaration stands matters to nothing but its location. -/
theorem Declaration.read_relocate (l l' : Location) (head params : Text) (doc : Option Text) :
    Declaration.read l head params doc =
      (Declaration.read l' head params doc).map ({ · with location := l }) := by
  unfold Declaration.read
  dsimp only
  split
  · rfl
  · split
    · rfl
    · cases readParameters _ params <;> rfl

/-- A declaration that is read has the location it is read at. -/
theorem Declaration.location_of_read {l : Location} {head params : Text} {doc : Option Text}
    {d : Declaration} (h : Declaration.read l head params doc = .ok d) : d.location = l := by
  rw [Declaration.read_relocate l l] at h
  cases hread : Declaration.read l head params doc with
  | error e =>
    rw [hread] at h
    cases h
  | ok d' =>
    rw [hread] at h
    cases h
    rfl

namespace Scanner

variable {file : Path} {doc : Option Text}

/-- The place in the given file that a finding is about. -/
def Finding.location (file : Path) : Finding → Location
  | .declared d => d.location
  | .skipped line _ => ⟨file, line⟩

/-- A complete declaration gives a finding on the line of its marker. -/
theorem location_finish (c : Candidate) : (finish file c doc).location file = ⟨file, c.line⟩ := by
  unfold finish
  split
  · rename_i d hread
    exact Declaration.location_of_read hread
  · rfl

/-- The line of the marker of the declaration that is being collected. -/
def State.line? (s : State) : Option Nat := s.candidate?.map (·.line)

/-- No declaration is being collected outside declarations only. -/
theorem State.line?_eq_none_iff {s : State} : s.line? = none ↔ s = .outside := by
  cases s <;> simp [State.line?, State.candidate?]

/-- Inside a declaration a character either is collected, and the declaration goes on, or it ends
the declaration with a finding on the line of its marker. No character of an identifier does
that. -/
theorem State.read_cases (file : Path) (doc : Option Text) {s : State} (hs : s ≠ .outside)
    (ch : Char) :
    ((s.read file doc ch).1.line? = s.line? ∧ (s.read file doc ch).2 = none) ∨
      ∃ f n, s.read file doc ch = (.outside, some f) ∧ s.line? = some n ∧
        f.location file = ⟨file, n⟩ ∧ isIdentChar ch = false := by
  fun_cases State.read file doc s ch with
  | case1 => exact absurd rfl hs
  | case4 c _ hend =>
    refine .inr ⟨_, c.line, rfl, rfl, rfl, ?_⟩
    rcases hend with rfl | rfl | rfl | rfl <;> decide
  | case14 c hend =>
    refine .inr ⟨_, c.line, rfl, rfl, location_finish c, ?_⟩
    rcases hend with rfl | rfl <;> decide
  | case16 c _ hother =>
    rw [Bool.or_eq_true, not_or, Bool.not_eq_true, Bool.not_eq_true] at hother
    exact .inr ⟨_, c.line, rfl, rfl, rfl, hother.2⟩
  -- All other characters are collected or change the number of open parentheses.
  | _ => exact .inl ⟨rfl, rfl⟩

/-- What a further line does first: the open declaration goes on, or it is given up. -/
theorem State.expire_cases (policy : ScanPolicy) (number : Nat) (s : State) :
    s.expire policy number = (s, none) ∨
      ∃ n, s.line? = some n ∧
        s.expire policy number = (.outside, some (.skipped n (.tooLong policy.lookahead))) := by
  unfold State.expire State.line?
  cases s.candidate? with
  | none => exact .inl rfl
  | some c =>
    by_cases hlate : policy.lookahead ≤ number - c.line
    · exact .inr ⟨c.line, rfl, if_pos hlate⟩
    · exact .inl (if_neg hlate)

/-- The end of a line ends no declaration. -/
@[simp] theorem State.line?_endLine (s : State) : s.endLine.line? = s.line? := by
  cases s <;> rfl

end Scanner

end NativeBindings
