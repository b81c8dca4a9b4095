import Mathlib.Order.Bounds.Basic
import NativeBindings.Proofs.Text.Utf8
import NativeBindings.Proofs.Text.WordSearch

/-!
# The offset of a word

The search for an identifier gives the least offset at which it stands alone
(`isLeast_wordOffset?`). Offsets count bytes: of two texts that one text starts with the longer one
takes more of them (`utf8Size_le_of_prefix`), so the first occurrence has the least offset. And the
bytes of an identifier occur in those of a text just where the identifier does
(`prefix_drop_encode_iff`), since all bytes of a character outside ASCII are higher.
-/

namespace NativeBindings

namespace Text

theorem utf8Size_append (t s : Text) : utf8Size (t ++ s) = utf8Size t + utf8Size s := by
  induction t with
  | nil => exact (Nat.zero_add _).symm
  | cons c t ih =>
    rw [List.cons_append, utf8Size, utf8Size, ih, Nat.add_assoc]

/-- A text that another one starts with takes no more bytes. -/
theorem utf8Size_le_of_prefix {t s : Text} (h : t <+: s) : utf8Size t ≤ utf8Size s := by
  obtain ⟨rest, rfl⟩ := h
  rw [utf8Size_append]
  exact Nat.le_add_right _ _

/-- The size of a text is the number of its bytes. -/
theorem length_encode (t : Text) : (Utf8.encode t).length = utf8Size t := by
  induction t with
  | nil => rfl
  | cons c t ih =>
    rw [Utf8.encode_cons, List.length_append, String.length_utf8EncodeChar, ih, utf8Size]

/-- A word occurs in a text at an offset in bytes, with no identifier character on either side. -/
def StandsAt (word text : Text) (offset : Nat) : Prop :=
  ∃ before after, text = before ++ word ++ after ∧ utf8Size before = offset ∧
    StartsIdent before ∧ EndsIdent after

/-- The place of an occurrence that stands alone. -/
theorem standsAt_iff {word text : Text} {offset : Nat} :
    StandsAt word text offset ↔
      ∃ before after, (text = before ++ word ++ after ∧ standsAlone before after) ∧
        utf8Size before = offset := by
  unfold StandsAt
  constructor
  · rintro ⟨before, after, hsplit, hoffset, halone⟩
    exact ⟨before, after, ⟨hsplit, standsAlone_iff.2 halone⟩, hoffset⟩
  · rintro ⟨before, after, ⟨hsplit, halone⟩, hoffset⟩
    exact ⟨before, after, hsplit, hoffset, standsAlone_iff.1 halone⟩

section Identifier

variable {word : Text} (hword : word ≠ []) (hident : AllIdent word)

include hword hident

/-- What the search gives is the least offset at which the word stands alone. -/
theorem isLeast_of_wordOffset? {text : Text} {offset : Nat}
    (h : wordOffset? word text = some offset) : IsLeast {n | StandsAt word text n} offset := by
  obtain ⟨⟨before, after⟩, hfound, rfl⟩ := Option.map_eq_some_iff.1 h
  obtain ⟨hoccurs, hfirst⟩ := (findWord?_eq_some_iff hident hword).1 hfound
  refine ⟨standsAt_iff.2 ⟨before, after, hoccurs, rfl⟩, fun n hn => ?_⟩
  obtain ⟨b, a, hother, rfl⟩ := standsAt_iff.1 hn
  -- Of two texts in front of occurrences the shorter one starts the longer one.
  have hbefore : before <+: text := ⟨word ++ after, by rw [hoccurs.1, List.append_assoc]⟩
  have hb : b <+: text := ⟨word ++ a, by rw [hother.1, List.append_assoc]⟩
  exact utf8Size_le_of_prefix (List.prefix_of_prefix_length_le hbefore hb (hfirst b a hother))

/-- The search gives nothing when the word stands alone nowhere. -/
theorem wordOffset?_eq_none_iff {text : Text} :
    wordOffset? word text = none ↔ ∀ n, ¬ StandsAt word text n := by
  unfold wordOffset?
  rw [Option.map_eq_none_iff, findWord?_eq_none_iff hident hword]
  constructor
  · intro hno n hn
    obtain ⟨b, a, ⟨hsplit, halone⟩, -⟩ := standsAt_iff.1 hn
    exact hno b a hsplit halone
  · intro hno b a hsplit halone
    exact hno _ (standsAt_iff.2 ⟨b, a, ⟨hsplit, halone⟩, rfl⟩)

theorem wordOffset?_eq_some_iff {text : Text} {offset : Nat} :
    wordOffset? word text = some offset ↔ IsLeast {n | StandsAt word text n} offset := by
  refine ⟨isLeast_of_wordOffset? hword hident, fun hleast => ?_⟩
  cases hfound : wordOffset? word text with
  | none => exact absurd hleast.1 ((wordOffset?_eq_none_iff hword hident).1 hfound offset)
  | some n => rw [(isLeast_of_wordOffset? hword hident hfound).unique hleast]

/-- Where the bytes of the word occur in those of the text, the word occurs in the text. -/
theorem prefix_drop_encode_iff {text : Text} {offset : Nat} :
    Utf8.encode word <+: (Utf8.encode text).drop offset ↔
      ∃ before after, text = before ++ word ++ after ∧ utf8Size before = offset := by
  have hascii : ∀ c ∈ word, c.toNat < 128 := fun c hc =>
    (toNat_of_isIdentChar (hident c hc)).2.trans_lt (by decide)
  simp only [Utf8.prefix_drop_encode_iff hascii hword, length_encode]

end Identifier

/-- The search for an identifier gives the least offset in bytes at which it stands alone, with no
identifier character on either side, and nothing when there is none. An offset at which its bytes
occur is one at which the identifier itself does. -/
theorem isLeast_wordOffset? {word : Text} (hword : isIdentifier word) (text : Text) :
    (∀ offset, wordOffset? word text = some offset ↔
        IsLeast {n | StandsAt word text n} offset) ∧
      (wordOffset? word text = none ↔ ∀ n, ¬ StandsAt word text n) ∧
      ∀ offset, Utf8.encode word <+: (Utf8.encode text).drop offset ↔
        ∃ before after, text = before ++ word ++ after ∧ utf8Size before = offset := by
  obtain ⟨hne, hident⟩ := allIdent_of_isIdentifier hword
  exact ⟨fun _ => wordOffset?_eq_some_iff hne hident, wordOffset?_eq_none_iff hne hident,
    fun _ => prefix_drop_encode_iff hne hident⟩

/-- The word occurs in itself twice over, and next to characters of two bytes. -/
theorem isLeast_wordOffset?_overlap :
    isIdentifier "aa".toList ∧ wordOffset? "aa".toList "aaaé aab äaa".toList = some 12 ∧
      IsLeast {n | StandsAt "aa".toList "aaaé aab äaa".toList n} 12 := by
  have hfound : wordOffset? "aa".toList "aaaé aab äaa".toList = some 12 := by decide +kernel
  exact ⟨by decide, hfound, ((isLeast_wordOffset? (by decide) _).1 12).1 hfound⟩

end Text

end NativeBindings
