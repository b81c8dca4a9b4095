import Mathlib.Tactic.SplitIfs
import NativeBindings.Text.Utf8

/-!
# The bytes of a text

A text is told by its bytes (`encode_inj`), and a zero byte is one of a NUL character
(`zero_not_mem_encode`). An ASCII character is a byte by itself, and all bytes of any other one are
higher (`le_of_mem_utf8EncodeChar`). So the bytes of ASCII characters occur in those of a text only
where the characters do (`prefix_drop_encode_iff`).
-/

namespace NativeBindings.Utf8

/-- Texts with the same bytes are the same. -/
theorem encode_inj {t s : Text} : Utf8.encode t = Utf8.encode s ↔ t = s := by
  refine ⟨fun h => ?_, congrArg _⟩
  have hbytes : t.utf8Encode = s.utf8Encode := congrArg List.toByteArray h
  have hdecoded := List.utf8Decode?_utf8Encode (l := t)
  rw [hbytes, List.utf8Decode?_utf8Encode, Option.some.injEq] at hdecoded
  exact (congrArg Array.toList hdecoded).symm

/-- No byte of a character is zero, unless it is NUL. -/
theorem zero_not_mem_utf8EncodeChar {c : Char} (hc : c ≠ '\x00') :
    0 ∉ String.utf8EncodeChar c := by
  have hvalue : c.val.toNat ≠ 0 := fun h => hc (Char.ext (UInt32.toNat_inj.1 h))
  have hbyte : ∀ n : Nat, n % 256 ≠ 0 → (0 : UInt8) ≠ UInt8.ofNat n := by
    intro n hn h
    have hzero := congrArg UInt8.toNat h
    rw [UInt8.toNat_ofNat'] at hzero
    exact hn hzero.symm
  -- A character of one byte is its number, and each of several bytes has a high bit set.
  unfold String.utf8EncodeChar
  dsimp only
  intro hmem
  split_ifs at hmem
  · exact hbyte _ (by omega) (List.mem_singleton.1 hmem)
  · simp only [List.mem_cons, List.not_mem_nil, or_false] at hmem
    rcases hmem with h | h <;> exact hbyte _ (by omega) h
  · simp only [List.mem_cons, List.not_mem_nil, or_false] at hmem
    rcases hmem with h | h | h <;> exact hbyte _ (by omega) h
  · simp only [List.mem_cons, List.not_mem_nil, or_false] at hmem
    rcases hmem with h | h | h | h <;> exact hbyte _ (by omega) h

/-- A text without NUL has no zero byte. -/
theorem zero_not_mem_encode {t : Text} (h : '\x00' ∉ t) : 0 ∉ encode t := by
  unfold encode
  rw [List.mem_flatMap]
  rintro ⟨c, hc, hzero⟩
  exact zero_not_mem_utf8EncodeChar (ne_of_mem_of_not_mem hc h) hzero

/-! ## ASCII characters among others -/

/-- An ASCII character is its own byte. -/
theorem utf8EncodeChar_of_lt {c : Char} (hc : c.toNat < 128) :
    String.utf8EncodeChar c = [UInt8.ofNat c.toNat] := by
  unfold String.utf8EncodeChar
  exact if_pos (Nat.le_of_lt_succ hc)

/-- All bytes of another character are higher. -/
theorem le_of_mem_utf8EncodeChar {c : Char} (hc : 128 ≤ c.toNat) {b : UInt8}
    (hb : b ∈ String.utf8EncodeChar c) : 128 ≤ b.toNat := by
  have hbyte : ∀ n : Nat, 128 ≤ n % 256 → 128 ≤ (UInt8.ofNat n).toNat := by
    intro n hn
    rwa [UInt8.toNat_ofNat']
  have hmany : ¬ c.val.toNat ≤ 127 := Nat.not_le_of_lt hc
  unfold String.utf8EncodeChar at hb
  dsimp only at hb
  rw [if_neg hmany] at hb
  split_ifs at hb <;> simp only [List.mem_cons, List.not_mem_nil, or_false] at hb
  · rcases hb with rfl | rfl <;> exact hbyte _ (by omega)
  · rcases hb with rfl | rfl | rfl <;> exact hbyte _ (by omega)
  · rcases hb with rfl | rfl | rfl | rfl <;> exact hbyte _ (by omega)

/-- The byte of an ASCII character is found in no other character. -/
theorem eq_of_mem_utf8EncodeChar {c d : Char} (hc : c.toNat < 128)
    (h : UInt8.ofNat c.toNat ∈ String.utf8EncodeChar d) : d = c := by
  have hbyte : ∀ {c : Char}, c.toNat < 128 → (UInt8.ofNat c.toNat).toNat = c.toNat := by
    intro c hc
    rw [UInt8.toNat_ofNat']
    omega
  by_cases hd : d.toNat < 128
  · rw [utf8EncodeChar_of_lt hd, List.mem_singleton] at h
    have hsame := congrArg UInt8.toNat h
    rw [hbyte hc, hbyte hd] at hsame
    exact Char.toNat_inj.1 hsame.symm
  · have hhigh := le_of_mem_utf8EncodeChar (Nat.le_of_not_lt hd) h
    rw [hbyte hc] at hhigh
    omega

theorem encode_cons (c : Char) (t : Text) : encode (c :: t) = String.utf8EncodeChar c ++ encode t :=
  List.flatMap_cons

theorem encode_append (t s : Text) : encode (t ++ s) = encode t ++ encode s :=
  List.flatMap_append

section Ascii

variable {word t : Text} (hword : ∀ c ∈ word, c.toNat < 128)

include hword

/-- The bytes of ASCII characters start those of a text where the characters start the text. -/
theorem prefix_of_prefix_encode (h : encode word <+: encode t) : word <+: t := by
  induction word generalizing t with
  | nil => exact List.nil_prefix
  | cons c word ih =>
    obtain ⟨hc, hrest⟩ := List.forall_mem_cons.1 hword
    rw [encode_cons, utf8EncodeChar_of_lt hc, List.singleton_append] at h
    cases t with
    | nil => cases List.prefix_nil.1 h
    | cons d t =>
      obtain ⟨b, bs, hbytes⟩ := List.exists_cons_of_ne_nil (@String.utf8EncodeChar_ne_nil d)
      rw [encode_cons, hbytes, List.cons_append, List.cons_prefix_cons] at h
      obtain ⟨hfirst, hbehind⟩ := h
      obtain rfl : d = c := eq_of_mem_utf8EncodeChar hc (by rw [hbytes, hfirst]; exact .head bs)
      rw [utf8EncodeChar_of_lt hc, List.cons.injEq] at hbytes
      rw [← hbytes.2, List.nil_append] at hbehind
      exact List.cons_prefix_cons.2 ⟨rfl, ih hrest hbehind⟩

/-- The bytes of ASCII characters occur in those of a text where the characters occur in it. -/
theorem prefix_drop_encode_iff (hne : word ≠ []) {n : Nat} :
    encode word <+: (encode t).drop n ↔
      ∃ before after, t = before ++ word ++ after ∧ (encode before).length = n := by
  refine ⟨fun h => ?_, ?_⟩
  · obtain ⟨c, cs, rfl⟩ := List.exists_cons_of_ne_nil hne
    have hc := hword c (.head cs)
    have hbytes : encode (c :: cs) = UInt8.ofNat c.toNat :: encode cs := by
      rw [encode_cons, utf8EncodeChar_of_lt hc]
      rfl
    induction t generalizing n with
    | nil =>
      rw [show encode [] = [] from rfl, List.drop_nil, hbytes] at h
      cases List.prefix_nil.1 h
    | cons d t ih =>
      rw [encode_cons d, List.drop_append] at h
      -- The bytes occur at the first character, inside it, or behind it.
      by_cases hn : n = 0
      · subst hn
        rw [List.drop_zero, Nat.zero_sub, List.drop_zero, ← encode_cons d] at h
        obtain ⟨after, hafter⟩ := prefix_of_prefix_encode hword h
        exact ⟨[], after, hafter.symm, rfl⟩
      by_cases hinside : n < (String.utf8EncodeChar d).length
      · -- The place would lie inside a character of several bytes.
        rw [hbytes, List.drop_eq_getElem_cons hinside, List.cons_append, List.cons_prefix_cons] at h
        obtain rfl : d = c := eq_of_mem_utf8EncodeChar hc (h.1 ▸ List.getElem_mem hinside)
        rw [utf8EncodeChar_of_lt hc, List.length_singleton] at hinside
        omega
      · rw [List.drop_eq_nil_of_le (by omega), List.nil_append] at h
        obtain ⟨before, after, rfl, hlength⟩ := ih h
        refine ⟨d :: before, after, rfl, ?_⟩
        rw [encode_cons, List.length_append, hlength]
        omega
  · rintro ⟨before, after, rfl, rfl⟩
    rw [encode_append, encode_append, List.append_assoc, List.drop_left]
    exact List.prefix_append _ _

end Ascii

end NativeBindings.Utf8
