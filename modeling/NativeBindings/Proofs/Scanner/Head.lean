import NativeBindings.Proofs.Scanner.Prototype

/-!
# Heads with other text in front

Whatever stands in front of the head of a prototype, a function is read with the name and the
parameters of the prototype (`Prototype.WellFormed.read_behind`): the name is the last word of a
head, and a call of an attribute macro, which is taken out, ends with a parenthesis, so it lies in
the text in front (`stripAttributes_append`).
-/

namespace NativeBindings

/-- The normal spelling of a text with words is not empty. -/
theorem TypeText.tidy_ne_nil {t : Text} (h : t.collapse ≠ []) : TypeText.tidy t ≠ [] := by
  rw [TypeText.tidy]
  split
  · obtain ⟨c, cs, hc⟩ := List.exists_cons_of_ne_nil h
    -- The first character stays the first one.
    have hhead : (TypeText.tidyPlain t).head? = some c := by
      unfold TypeText.tidyPlain
      rw [TypeText.head?_spaceAfterMarks, Text.head?_dropSpaces, hc, List.head?_cons]
    intro hnil
    rw [hnil] at hhead
    cases hhead
  · dsimp only
    split <;> simp

/-- Words give a normal spelling that is not empty. -/
theorem TypeText.tidy_unwords_ne_nil {ws : List Text} (hne : ws ≠ [])
    (hws : ∀ w ∈ ws, w ≠ [] ∧ Text.Solid w) : TypeText.tidy (Text.unwords ws ++ [' ']) ≠ [] := by
  obtain ⟨hspaced, hnonempty⟩ := Text.SingleSpaced.unwords hws
  apply TypeText.tidy_ne_nil
  have hcollapse : Text.collapse (Text.unwords ws ++ [' ']) = Text.unwords ws := by
    unfold Text.collapse
    rw [Text.words_concat_blank (by decide)]
    exact hspaced.collapse_eq
  rw [hcollapse]
  exact hnonempty hne

/-! ## Prototypes -/

namespace Prototype

variable {p : Prototype}

/-- With any text in front, a prototype is read as a function with its name and its parameters. -/
theorem WellFormed.read_behind (h : p.WellFormed) (t : Text) (location : Location)
    (doc : Option Text) :
    ∃ d, Declaration.read location (t ++ p.head) p.params doc = .ok d ∧
      d.name = String.ofList p.name ∧ d.params = p.formals.map Formal.parameter := by
  obtain ⟨hne, hname⟩ := allIdent_of_isIdentifier h.ident
  obtain ⟨t', hstrip⟩ := stripAttributes_append t
    (h.not_mem_head (c := ')') (by decide) (by decide) (by decide))
  have hwords : Text.words (t' ++ p.head) = Text.words t' ++ Text.words p.head := by
    unfold head
    rw [Text.words_append_blank (by decide), Text.words_cons_blank (by decide)]
  -- Of the text in front some words are left; the words of the prototype stay behind them.
  let front := ((Text.words t').filter (String.ofList · ∉ linkageWords)).filter
    (!isConventionWord ·) ++ Text.words p.returnType
  have hothers : ((Text.words (t' ++ p.head)).filter (String.ofList · ∉ linkageWords)).filter
      (!isConventionWord ·) = front ++ [p.name] := by
    rw [hwords, List.filter_append, h.filter_linkage, List.filter_append, h.filter_others,
      List.append_assoc]
  have hfront : front ≠ [] := fun hnil =>
    h.type.singleSpaced.words_ne_nil h.type.ne_nil (List.append_eq_nil_iff.1 hnil).2
  have hunwords : Text.unwords (front ++ [p.name]) = Text.unwords front ++ ' ' :: p.name :=
    Text.unwords_concat hfront p.name
  have hmem : ∀ w ∈ front, w ≠ [] ∧ Text.Solid w := by
    intro w hw
    rcases List.mem_append.1 hw with hw | hw
    · exact Text.mem_words (List.mem_filter.1 (List.mem_filter.1 hw).1).1
    · exact Text.mem_words hw
  have hempty : (TypeText.tidy (Text.unwords front ++ [' '])).isEmpty = false := by
    simpa using TypeText.tidy_unwords_ne_nil hfront hmem
  unfold Declaration.read
  simp only [hstrip, hothers, hunwords, trailingWord_append hne hname, take_length_sub, h.ident,
    hempty]
  -- The text in front may say more of the return type and of the calling convention.
  refine ⟨⟨location, String.ofList (TypeText.tidy (Text.unwords front ++ [' '])),
    String.ofList p.name, p.formals.map Formal.parameter,
    (((Text.words (t' ++ p.head)).filter (String.ofList · ∉ linkageWords)).filter
      isConventionWord).getLast?.map String.ofList, doc.map String.ofList⟩, ?_, rfl, rfl⟩
  show (readParameters (String.ofList p.name) p.params).bind _ = _
  unfold params
  rw [readParameters_joined h.formals]
  rfl

end Prototype

end NativeBindings
