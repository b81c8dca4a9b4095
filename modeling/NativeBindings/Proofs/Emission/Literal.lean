import Mathlib.Data.List.TakeWhile
import NativeBindings.Emission.File
import NativeBindings.Text.Hexadecimal

/-!
# The library as a string literal

A string literal of the generated language stands between quotes. A backslash in it starts an escape
sequence, no line break stands in it, and its value is a sequence of UTF-16 code units
(`StringLiteral.value?`). The link target writes a quote as an escape sequence and everything else
as it is. The value of such a literal is never longer than the text that is quoted, and shorter when
there is a backslash in it, which takes what follows it along (`StringLiteral.length_contents?`). So
the literal denotes the library exactly when there is neither a backslash nor a line break in the
library (`value?_linkTarget_iff`).
-/

namespace NativeBindings

namespace StringLiteral

/-! ## What a literal denotes -/

/-- The code units of a code point in UTF-16. -/
def codeUnits (n : Nat) : List UInt16 :=
  if n < 0x10000 then [UInt16.ofNat n]
  else
    [UInt16.ofNat (0xD800 + (n - 0x10000) / 0x400), UInt16.ofNat (0xDC00 + (n - 0x10000) % 0x400)]

/-- The code units of a text in UTF-16. -/
def utf16 (t : Text) : List UInt16 := t.flatMap fun c => codeUnits c.toNat

/-- A character that ends a line of the generated language. -/
def isLineBreak (c : Char) : Bool := c ∈ ['\n', '\r', '\u0085', '\u2028', '\u2029']

/-- The code unit that an escape sequence of one letter stands for. -/
def simpleEscape? : Char → Option UInt16
  | '\x27' => some 0x27
  | '\x22' => some 0x22
  | '\\' => some 0x5C
  | '0' => some 0x00
  | 'a' => some 0x07
  | 'b' => some 0x08
  | 'f' => some 0x0C
  | 'n' => some 0x0A
  | 'r' => some 0x0D
  | 't' => some 0x09
  | 'v' => some 0x0B
  | _ => none

/-- The number that the hexadecimal digits at the start of a text denote, and the text behind them:
as many digits as there are, up to a limit, and none when there are too few. -/
def hexNumber? (atLeast atMost : Nat) (t : Text) : Option (Nat × Text) :=
  let digits := (t.take atMost).takeWhile fun c => (hexDigitValue? c).isSome
  if digits.length < atLeast then none
  else some (digits.foldl (fun n d => 16 * n + (hexDigitValue? d).getD 0) 0, t.drop digits.length)

/-- The code units of the escape sequence whose backslash precedes the text, and the text behind
it. -/
def escape? : Text → Option (List UInt16 × Text)
  | [] => none
  | 'x' :: t => (hexNumber? 1 4 t).map fun (n, rest) => (codeUnits n, rest)
  | 'u' :: t => (hexNumber? 4 4 t).map fun (n, rest) => (codeUnits n, rest)
  | 'U' :: t =>
    ((hexNumber? 8 8 t).filter (·.1 ≤ 0x10FFFF)).map fun (n, rest) => (codeUnits n, rest)
  | c :: t => (simpleEscape? c).map fun unit => ([unit], t)

/-- Digits that are read stand at the start of the text. -/
theorem of_hexNumber? {atLeast atMost n : Nat} {t rest : Text}
    (h : hexNumber? atLeast atMost t = some (n, rest)) :
    ∃ digits : Text, t = digits ++ rest ∧ (∀ d ∈ digits, (hexDigitValue? d).isSome) ∧
      atLeast ≤ digits.length := by
  unfold hexNumber? at h
  generalize hdigits : (t.take atMost).takeWhile (fun c => (hexDigitValue? c).isSome) = digits at h
  dsimp only at h
  split at h
  · cases h
  · rename_i hfew
    obtain ⟨-, rfl⟩ := Prod.mk.inj (Option.some.inj h)
    have hstart : digits <+: t := by
      rw [← hdigits]
      exact (List.takeWhile_prefix _).trans (List.take_prefix atMost t)
    refine ⟨digits, (List.prefix_iff_eq_append.1 hstart).symm, ?_, Nat.le_of_not_lt hfew⟩
    intro d hd
    rw [← hdigits] at hd
    exact List.mem_takeWhile_imp (p := fun c => (hexDigitValue? c).isSome) hd

theorem length_codeUnits (n : Nat) : 1 ≤ (codeUnits n).length ∧ (codeUnits n).length ≤ 2 := by
  unfold codeUnits
  split <;> exact ⟨by simp, by simp⟩

/-- An escape sequence is a letter with hexadecimal digits behind it, and stands for no more code
units than these are characters. -/
theorem of_escape? {t rest : Text} {units : List UInt16} (h : escape? t = some (units, rest)) :
    ∃ (c : Char) (digits : Text), t = c :: (digits ++ rest) ∧
      (∀ d ∈ digits, (hexDigitValue? d).isSome) ∧ units.length ≤ digits.length + 1 := by
  -- A number has at least one digit, which makes up for the second unit of a code point.
  have hnumber : ∀ (c : Char) (atLeast atMost : Nat) (t : Text) (p : Nat × Text),
      1 ≤ atLeast → hexNumber? atLeast atMost t = some p → (codeUnits p.1, p.2) = (units, rest) →
        ∃ (c' : Char) (digits : Text), c :: t = c' :: (digits ++ rest) ∧
          (∀ d ∈ digits, (hexDigitValue? d).isSome) ∧ units.length ≤ digits.length + 1 := by
    intro c atLeast atMost t p hleast hsome heq
    obtain ⟨rfl, rfl⟩ := Prod.mk.inj heq
    obtain ⟨digits, rfl, hdigits, hlength⟩ := of_hexNumber? hsome
    have hunits := (length_codeUnits p.1).2
    exact ⟨c, digits, rfl, hdigits, by omega⟩
  unfold escape? at h
  split at h
  · cases h
  · -- One to four digits, just four, or eight that make a code point.
    obtain ⟨p, hp, heq⟩ := Option.map_eq_some_iff.1 h
    exact hnumber _ 1 4 _ p (by decide) hp heq
  · obtain ⟨p, hp, heq⟩ := Option.map_eq_some_iff.1 h
    exact hnumber _ 4 4 _ p (by decide) hp heq
  · obtain ⟨p, hp, heq⟩ := Option.map_eq_some_iff.1 h
    exact hnumber _ 8 8 _ p (by decide) (Option.filter_eq_some_iff.1 hp).1 heq
  · -- Any other escape sequence is a single letter.
    rename_i c t _ _ _
    obtain ⟨unit, -, heq⟩ := Option.map_eq_some_iff.1 h
    obtain ⟨rfl, rfl⟩ := Prod.mk.inj heq
    exact ⟨c, [], rfl, nofun, Nat.le_refl 1⟩

/-- The value of a literal whose opening quote precedes the text. Its closing quote ends the text.
-/
def contents? (t : Text) : Option (List UInt16) :=
  match t with
  | [] => none
  | '\x22' :: t => if t = [] then some [] else none
  | '\\' :: t =>
    match h : escape? t with
    | none => none
    | some (units, rest) =>
      have : rest.length < t.length := by
        obtain ⟨c, digits, rfl, -, -⟩ := of_escape? h
        simp only [List.length_cons, List.length_append]
        omega
      (contents? rest).map (units ++ ·)
  | c :: t => if isLineBreak c then none else (contents? t).map (codeUnits c.toNat ++ ·)
termination_by t.length

/-- The value of a string literal. -/
def value? : Text → Option (List UInt16)
  | '\x22' :: t => contents? t
  | _ => none

/-! ## A text with its quotes escaped -/

/-- The text with each quote as an escape sequence. -/
def quoted (t : Text) : Text := t.flatMap fun c => if c = '\x22' then ['\\', '\x22'] else [c]

theorem quoted_cons (c : Char) (t : Text) :
    quoted (c :: t) = (if c = '\x22' then ['\\', '\x22'] else [c]) ++ quoted t := rfl

theorem length_utf16_cons (c : Char) (t : Text) :
    (utf16 (c :: t)).length = (codeUnits c.toNat).length + (utf16 t).length := by
  unfold utf16
  rw [List.flatMap_cons, List.length_append]

/-- A text has at least one code unit for each character. -/
theorem length_utf16_append (s t : Text) :
    s.length + (utf16 t).length ≤ (utf16 (s ++ t)).length := by
  induction s with
  | nil => rw [List.length_nil, Nat.zero_add, List.nil_append]
  | cons c s ih =>
    have hunits := (length_codeUnits c.toNat).1
    rw [List.cons_append, length_utf16_cons, List.length_cons]
    omega

/-- Hexadecimal digits at the start of a text with its quotes escaped are there without that. -/
theorem exists_of_quoted_eq {t digits rest : Text}
    (hdigits : ∀ d ∈ digits, (hexDigitValue? d).isSome)
    (h : quoted t ++ ['\x22'] = digits ++ rest) :
    ∃ t', t = digits ++ t' ∧ rest = quoted t' ++ ['\x22'] := by
  -- A digit is neither a quote nor the backslash in front of one.
  induction digits generalizing t with
  | nil => exact ⟨t, rfl, h.symm⟩
  | cons d digits ih =>
    rw [List.forall_mem_cons] at hdigits
    cases t with
    | nil =>
      rw [(List.cons.inj h).1.symm] at hdigits
      exact absurd hdigits.1 (by decide)
    | cons c t =>
      rw [quoted_cons] at h
      split at h
      · rw [(List.cons.inj h).1.symm] at hdigits
        exact absurd hdigits.1 (by decide)
      · rw [List.append_assoc, List.singleton_append, List.cons_append] at h
        obtain ⟨rfl, hbehind⟩ := List.cons.inj h
        obtain ⟨t', rfl, hrest⟩ := ih hdigits.2 hbehind
        exact ⟨t', rfl, hrest⟩

theorem contents?_plain {c : Char} (hquote : c ≠ '\x22') (hescape : c ≠ '\\') (t : Text) :
    contents? (c :: t) =
      if isLineBreak c then none else (contents? t).map (codeUnits c.toNat ++ ·) := by
  rw [contents?.eq_def]
  split <;> simp_all

theorem contents?_escaped {t rest : Text} {units : List UInt16}
    (h : escape? t = some (units, rest)) :
    contents? ('\\' :: t) = (contents? rest).map (units ++ ·) := by
  rw [contents?]
  split <;> simp_all

theorem contents?_escaped_none {t : Text} (h : escape? t = none) :
    contents? ('\\' :: t) = none := by
  rw [contents?]
  split <;> simp_all

/-- An escaped quote stands for a quote. -/
theorem contents?_quote (t : Text) :
    contents? ('\\' :: '\x22' :: t) = (contents? t).map (codeUnits '\x22'.toNat ++ ·) :=
  contents?_escaped rfl

/-- Behind a backslash of the quoted text a literal goes on behind some of its further characters,
and takes them for no more code units. -/
theorem of_escaped {t : Text} {value : List UInt16}
    (h : contents? ('\\' :: (quoted t ++ ['\x22'])) = some value) :
    ∃ (taken t' : Text) (units value' : List UInt16), t = taken ++ t' ∧ value = units ++ value' ∧
      units.length ≤ taken.length ∧ contents? (quoted t' ++ ['\x22']) = some value' := by
  cases hescape : escape? (quoted t ++ ['\x22']) with
  | none =>
    rw [contents?_escaped_none hescape] at h
    cases h
  | some p =>
    obtain ⟨units, rest⟩ := p
    rw [contents?_escaped hescape] at h
    obtain ⟨value', hvalue', rfl⟩ := Option.map_eq_some_iff.1 h
    obtain ⟨c, digits, hsplit, hdigits, hunits⟩ := of_escape? hescape
    -- The escape sequence cannot hold a quote: the literal would end before the closing one.
    have hquote : ∀ s : Text, '\x22' :: s = digits ++ rest → s = [] := by
      intro s hs
      cases digits with
      | nil =>
        rw [List.nil_append] at hs
        rw [← hs, contents?.eq_def] at hvalue'
        by_contra hne
        simp [hne] at hvalue'
      | cons d digits =>
        have hd := hdigits d List.mem_cons_self
        rw [← (List.cons.inj hs).1] at hd
        exact absurd hd (by decide)
    cases t with
    | nil =>
      obtain ⟨-, hnil⟩ := List.cons.inj hsplit
      rw [(List.append_eq_nil_iff.1 hnil.symm).2, contents?.eq_def] at hvalue'
      cases hvalue'
    | cons d t =>
      rw [quoted_cons] at hsplit
      split at hsplit
      · -- A quote is escaped by the quotation, so the sequence is that quote and the literal has
        -- not ended.
        have hnil := hquote _ (List.cons.inj hsplit).2
        exact absurd (List.append_eq_nil_iff.1 hnil).2 (List.cons_ne_nil _ _)
      · obtain ⟨-, hsplit⟩ := List.cons.inj hsplit
        obtain ⟨t', rfl, rfl⟩ := exists_of_quoted_eq hdigits hsplit
        exact ⟨d :: digits, t', units, value', rfl, rfl, by simpa using hunits, hvalue'⟩

/-- Any other character of the quoted text stands for itself. -/
theorem of_unescaped {c : Char} {t : Text} {value : List UInt16} (hc : c ≠ '\\')
    (h : contents? (quoted (c :: t) ++ ['\x22']) = some value) :
    ∃ value', contents? (quoted t ++ ['\x22']) = some value' ∧
      value = codeUnits c.toNat ++ value' := by
  rw [quoted_cons] at h
  split at h
  · rename_i hquote
    subst hquote
    obtain ⟨value', hvalue', rfl⟩ := Option.map_eq_some_iff.1 ((contents?_quote _).symm.trans h)
    exact ⟨value', hvalue', rfl⟩
  · rename_i hquote
    rw [List.append_assoc, List.singleton_append, contents?_plain hquote hc] at h
    split at h
    · cases h
    · obtain ⟨value', hvalue', rfl⟩ := Option.map_eq_some_iff.1 h
      exact ⟨value', hvalue', rfl⟩

/-- The value of a literal is no longer than the text that is quoted, and shorter when there is a
backslash in it. -/
theorem length_contents? {t : Text} {value : List UInt16}
    (h : contents? (quoted t ++ ['\x22']) = some value) :
    value.length ≤ (utf16 t).length ∧ ('\\' ∈ t → value.length < (utf16 t).length) := by
  induction hn : t.length using Nat.strongRecOn generalizing t value with
  | ind n ih =>
    cases t with
    | nil =>
      have hvalue : contents? (quoted [] ++ ['\x22']) = some [] := by decide +kernel
      rw [hvalue] at h
      rw [← Option.some.inj h]
      exact ⟨Nat.le_refl _, fun hmem => absurd hmem List.not_mem_nil⟩
    | cons c t =>
      rw [List.length_cons] at hn
      rw [length_utf16_cons]
      by_cases hescape : c = '\\'
      · -- The backslash is lost with the sequence it starts, which stands for no more than its
        -- characters.
        subst hescape
        obtain ⟨taken, t', units, value', rfl, rfl, hunits, hvalue'⟩ := of_escaped h
        rw [List.length_append] at hn
        obtain ⟨hle, -⟩ := ih t'.length (by omega) hvalue' rfl
        have htaken := length_utf16_append taken t'
        have hunit := (length_codeUnits '\\'.toNat).1
        rw [List.length_append]
        exact ⟨by omega, fun _ => by omega⟩
      · obtain ⟨value', hvalue', rfl⟩ := of_unescaped hescape h
        obtain ⟨hle, hlt⟩ := ih t.length (by omega) hvalue' rfl
        rw [List.length_append]
        refine ⟨by omega, fun hmem => ?_⟩
        have := hlt ((List.mem_cons.1 hmem).resolve_left (Ne.symm hescape))
        omega

/-- A text without backslashes is what its literal denotes, when there are no line breaks in it. -/
theorem contents?_quoted {t : Text} (h : '\\' ∉ t) :
    contents? (quoted t ++ ['\x22']) = if t.any isLineBreak then none else some (utf16 t) := by
  induction t with
  | nil => decide +kernel
  | cons c t ih =>
    rw [List.mem_cons, not_or] at h
    rw [quoted_cons, List.any_cons]
    split
    · rename_i hquote
      -- A quote is escaped, and the sequence denotes it.
      subst hquote
      have hbreak : isLineBreak '\x22' = false := by decide
      rw [hbreak, Bool.false_or]
      refine (contents?_quote (quoted t ++ ['\x22'])).trans ?_
      rw [ih h.2]
      split <;> rfl
    · rename_i hquote
      rw [List.append_assoc, List.singleton_append, contents?_plain hquote (Ne.symm h.1), ih h.2]
      cases isLineBreak c
      · cases t.any isLineBreak <;> rfl
      · rfl

end StringLiteral

namespace Emission

open StringLiteral

/-- The link target is the literal of the library with its quotes escaped. -/
theorem toList_linkTarget {o : Options} (h : o.importClass = none) :
    (linkTarget o).toList = '\x22' :: (quoted o.library.toList ++ ['\x22']) := by
  unfold linkTarget quoted
  rw [h]
  simp

/-- Without an import class the link target is a string literal that denotes the library exactly
when there is neither a backslash nor a line break in the library. -/
theorem value?_linkTarget_iff {o : Options} (h : o.importClass = none) :
    value? (linkTarget o).toList = some (utf16 o.library.toList) ↔
      ∀ c ∈ o.library.toList, c ≠ '\\' ∧ isLineBreak c = false := by
  rw [toList_linkTarget h]
  change contents? (quoted o.library.toList ++ ['\x22']) = _ ↔ _
  constructor
  · intro hvalue
    -- With a backslash the value is too short.
    have hescape : '\\' ∉ o.library.toList := fun hmem =>
      absurd ((length_contents? hvalue).2 hmem) (Nat.lt_irrefl _)
    rw [contents?_quoted hescape] at hvalue
    split at hvalue
    · cases hvalue
    · rename_i hbreak
      rw [Bool.not_eq_true, List.any_eq_false] at hbreak
      exact fun c hc =>
        ⟨ne_of_mem_of_not_mem hc hescape, Bool.eq_false_iff.2 (hbreak c hc)⟩
  · intro hall
    have hescape : '\\' ∉ o.library.toList := fun hmem => (hall _ hmem).1 rfl
    have hbreak : o.library.toList.any isLineBreak = false :=
      List.any_eq_false.2 fun c hc => Bool.eq_false_iff.1 (hall c hc).2
    rw [contents?_quoted hescape, hbreak, if_neg (by decide)]

/-- Quotes and characters outside the basic plane are no obstacle. -/
theorem value?_linkTarget_iff_quotes :
    let o : Options := { library := "native \"mesh\" 😀" }
    o.importClass = none ∧ value? (linkTarget o).toList = some (utf16 o.library.toList) := by
  intro o
  have ho : o.importClass = none := rfl
  have hplain : o.library.toList.all fun c => c != '\\' && !isLineBreak c := by decide
  exact ⟨ho, (value?_linkTarget_iff ho).2 (by simpa using hplain)⟩

/-- A backslash in front of a letter makes the literal of another library: here it denotes a line
break. -/
theorem linkTarget_denotes_other :
    let o : Options := { library := "bin\\native" }
    o.importClass = none ∧ linkTarget o = "\"bin\\native\"" ∧
      value? (linkTarget o).toList = some (utf16 "bin\native".toList) ∧
      value? (linkTarget o).toList ≠ some (utf16 o.library.toList) := by
  intro o
  exact ⟨rfl, by decide, by decide +kernel, by decide +kernel⟩

end Emission

end NativeBindings
