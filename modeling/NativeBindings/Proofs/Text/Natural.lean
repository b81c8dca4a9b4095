import NativeBindings.Text.Natural

/-!
# Numbers in decimal

The digits of a number are no punctuation, tell the number, and are read back as that number when
it fits into sixty-four bits.
-/

namespace NativeBindings.Text

theorem isDigit_of_mem_toString {n : Nat} {c : Char} (hc : c ∈ (toString n).toList) :
    c.isDigit := by
  rw [Nat.toString_eq_repr, Nat.toList_repr] at hc
  exact Nat.isDigit_of_mem_toDigits (by decide) (by decide) hc

theorem not_mem_toString {c : Char} (h : c.isDigit = false) (n : Nat) :
    c ∉ (toString n).toList := by
  intro hmem
  rw [isDigit_of_mem_toString hmem] at h
  cases h

theorem ofDigitChars_toString (n : Nat) : Nat.ofDigitChars 10 (toString n).toList 0 = n := by
  rw [Nat.toString_eq_repr, Nat.toList_repr, Nat.ofDigitChars_ten_toDigits]

theorem toString_inj {n n' : Nat} (h : toString n = toString n') : n = n' := by
  rw [← ofDigitChars_toString n, h, ofDigitChars_toString]

/-- The digits of a number are read back as the number. -/
theorem natural64?_toString {n : Nat} (hn : n < Nat.pow 2 64) :
    natural64? (toString n).toList = some n := by
  have hplus : '+' ∉ (toString n).toList := not_mem_toString (by decide) n
  have hdigits : (toString n).toList.all Char.isDigit :=
    List.all_eq_true.2 fun c hc => isDigit_of_mem_toString hc
  have hne : (toString n).toList ≠ [] := by
    rw [Nat.toString_eq_repr, Nat.toList_repr]
    exact Nat.toDigits_ne_nil
  have hvalue := ofDigitChars_toString n
  unfold natural64?
  split
  · rename_i ds hds
    exact absurd (hds ▸ List.mem_cons_self) hplus
  · dsimp only
    rw [List.isEmpty_eq_false_iff.2 hne, hdigits, if_neg (by decide)]
    unfold Nat.ofDigitChars at hvalue
    rw [hvalue, if_pos hn]

/-- A number that is read fits into sixty-four bits. -/
theorem lt_of_natural64? {t : Text} {n : Nat} (h : natural64? t = some n) : n < Nat.pow 2 64 := by
  unfold natural64? at h
  dsimp only at h
  rw [Option.ite_none_left_eq_some, Option.ite_none_right_eq_some] at h
  obtain ⟨-, hlt, hn⟩ := h
  rwa [Option.some.inj hn] at hlt

end NativeBindings.Text
