import NativeBindings.Proofs.Declaration.Attribute

/-!
# Declarations with attribute macros

The scanner passes over the calls of attribute macros in a head from left to right, whichever macros
are called and in which order, and collects the head as it is written
(`DecoratedHead.WellFormed.readText_front`). What is read from it is the declaration without the
calls exactly when the macros are called in order (`findingsFrom_attributes`): a macro that comes
late and is called early stays in the return type (`attributes_out_of_order`).
-/

namespace NativeBindings

open Scanner

/-! ## Names behind attribute macros -/

theorem IsHeadWord.trimRight_eq {w : Text} (h : IsHeadWord w) : w.trimRight = w :=
  Text.trimRight_eq h.solid.trimmed.last

/-- No attribute macro ends a word that a head may hold. -/
theorem IsHeadWord.trailingWord_not_mem {w : Text} (h : IsHeadWord w) :
    String.ofList (trailingWord w) ∉ attributeMacros := by
  intro hm
  obtain ⟨hne, hident⟩ := allIdent_of_mem_attributeMacros hm
  have hnone := h.noMacro _ hm
  rw [Text.findWord?_eq_none_iff hident hne, String.toList_ofList] at hnone
  let inWord : Char → Bool := fun c => isIdentChar c || 128 ≤ c.toNat
  have hsplit : w = dropTrailing inWord w ++ trailingWord w ++ [] := by
    unfold trailingWord
    rw [h.trimRight_eq, List.append_nil, dropTrailing_append_takeTrailing]
  refine hnone _ _ hsplit (Text.standsAlone_iff.2 ⟨fun c hc => ?_, fun c hc => by cases hc⟩)
  -- The run at the end stops behind a character of no identifier.
  exact (Bool.or_eq_false_iff.1 ((takeTrailing_spec inWord w).2 c hc)).1

theorem IsGap.endsHead {gap : Text} (h : IsGap gap) : ∀ c ∈ gap, endsHead c = false :=
  fun c hc => endsHead_of_isBlank (h c hc).1

/-! ## Reading a head -/

section Reading

variable {policy : ScanPolicy} {file : Path} {line : Nat} {doc : Option Text}

/-- A part goes to the head, whatever it is. -/
theorem HeadPart.WellFormed.readText_text {p : HeadPart} (h : p.WellFormed) {c : Candidate}
    (hc : StartsWord c.head.toList) (rest : Text) :
    readText policy file line doc (.inHead c) (p.text ++ rest) =
      readText policy file line doc (.inHead (c.addHead p.text)) rest := by
  cases h with
  | @word w gap hword hne hgap =>
    refine readText_head (fun ch hch => ?_) c rest
    rcases List.mem_append.1 hch with hch | hch
    · exact hword.keeps ch hch
    · exact hgap.endsHead ch hch
  | @call name gap arguments behind hname hgap harguments hnested hbehind =>
    obtain ⟨hne, hident⟩ := allIdent_of_mem_attributeMacros hname
    -- Neither the name of the macro nor the gap behind it ends the head.
    have hkeeps : ∀ ch ∈ name.toList ++ gap, endsHead ch = false := by
      intro ch hch
      rcases List.mem_append.1 hch with hch | hch
      · exact endsHead_of_isIdentChar (hident ch hch)
      · exact endsHead_of_isBlank (hgap ch hch)
    -- The last word in front of the parenthesis is the macro.
    have hmacro : String.ofList (trailingWord (c.addHead (name.toList ++ gap)).head.toList) ∈
        attributeMacros := by
      have htrim : Text.trimRight (name.toList ++ gap) ≠ [] := by
        obtain ⟨b, bs, hname⟩ := List.exists_cons_of_ne_nil hne
        rw [hname, List.cons_append]
        exact Text.trimRight_ne_nil (hident.solid b (by rw [hname]; exact .head _))
      rw [Candidate.toList_addHead, hc.trailingWord_append htrim, hident.trailingWord_append hgap,
        String.ofList_toList]
      exact hname
    -- The call as the scanner reads it, and as it stands in the head in the end.
    have htext : (HeadPart.call name gap arguments behind).text ++ rest =
        (name.toList ++ gap) ++ '(' :: (arguments ++ ')' :: (behind ++ rest)) := by
      simp [text]
    have hcollected : name.toList ++ gap ++ ('(' :: (arguments ++ [')']) ++ behind) =
        (HeadPart.call name gap arguments behind).text := by
      simp [text]
    rw [htext, readText_head hkeeps, readText_call hmacro harguments,
      readText_head hbehind.endsHead, ← Candidate.addHead_append, ← Candidate.addHead_append,
      hcollected]

/-- Parts go to the head one after the other. -/
theorem readText_flatMap_text {parts : List HeadPart} (hparts : ∀ p ∈ parts, p.WellFormed)
    {c : Candidate} (hc : StartsWord c.head.toList) (rest : Text) :
    readText policy file line doc (.inHead c) (parts.flatMap HeadPart.text ++ rest) =
      readText policy file line doc (.inHead (c.addHead (parts.flatMap HeadPart.text))) rest := by
  induction parts generalizing c with
  | nil =>
    unfold Candidate.addHead
    simp
  | cons p parts ih =>
    obtain ⟨hp, hparts⟩ := List.forall_mem_cons.1 hparts
    obtain ⟨hne, hstarts⟩ := hp.startsWord
    have hnext : StartsWord (c.addHead p.text).head.toList := by
      rw [Candidate.toList_addHead]
      exact hstarts.append hne
    rw [List.flatMap_cons, List.append_assoc, hp.readText_text hc, Candidate.addHead_append,
      ih hparts hnext]

namespace DecoratedHead

variable {h : DecoratedHead} {s : State} {front : Text} {k : Nat}

/-- Behind a marker a head is collected as it is written. -/
theorem WellFormed.readText_front (hh : h.WellFormed) (hlead : h.lead ≠ [])
    (hall : ∀ m ∈ policy.markers, isIdentifier m.toList)
    (hfront : (readText policy file line doc s front).1 = .inHead { line := k }) :
    readText policy file line doc s (front ++ h.text) =
      (.inHead (Candidate.addHead { line := k } h.text),
        (readText policy file line doc s front).2) := by
  obtain ⟨b, lead, hb⟩ := List.exists_cons_of_ne_nil hlead
  have htext : h.text = b :: (lead ++ (h.parts.flatMap HeadPart.text ++ h.last)) := by
    unfold text
    rw [hb, List.cons_append]
  -- The blank behind the front ends its last word, so no marker goes over from it.
  have hbreak : isIdentChar b = false := hh.lead.not_isIdentChar b (by rw [hb]; exact .head _)
  have hstarts : StartsWord (Candidate.addHead { line := k } h.lead).head.toList := by
    rw [Candidate.toList_addHead]
    exact hh.lead.startsWord.append hlead
  have hhead : readText policy file line doc (.inHead { line := k }) (h.text ++ []) =
      (.inHead (Candidate.addHead { line := k } h.text), []) := by
    unfold text
    rw [List.append_assoc, readText_head hh.lead.endsHead, List.append_assoc,
      readText_flatMap_text hh.parts hstarts, readText_head hh.last.keeps, readText_nil,
      Candidate.addHead_append, Candidate.addHead_append]
  rw [List.append_nil] at hhead
  rw [htext, readText_break hall hbreak, ← htext, hfront, hhead, List.append_nil]

/-- No attribute macro stands at the end of a head. -/
theorem WellFormed.trailingWord_not_mem (hh : h.WellFormed) :
    String.ofList (trailingWord h.text) ∉ attributeMacros := by
  have hstarts : StartsWord (h.lead ++ h.parts.flatMap HeadPart.text) :=
    HeadPart.startsWord_flatMap_text hh.parts hh.lead.startsWord
  have htrim : h.last.trimRight ≠ [] := by
    rw [hh.last.trimRight_eq]
    exact hh.last.ne_nil
  unfold text
  rw [← List.append_assoc, hstarts.trailingWord_append htrim]
  exact hh.last.trailingWord_not_mem

end DecoratedHead

end Reading

/-! ## Scanning -/

namespace Scanner

variable {policy : ScanPolicy} {file : Path} {s : State} {head : DecoratedHead} {n k : Nat}
  {comment : Option Text} {front list : Text}

/-- A declaration that ends with a semicolon gives its finding, between those around it. -/
theorem findingsFrom_semicolon (hall : ∀ m ∈ policy.markers, isIdentifier m.toList) {c : Candidate}
    {t : Text} {found : List Finding}
    (ht : readText policy file n comment (s.expire policy n).1 t = (.inHead c, found))
    (hname : String.ofList (trailingWord c.head.toList) ∉ attributeMacros) (hlist : Balanced list)
    (rest : Text) (more : List CodeLine) :
    findingsFrom policy file s (⟨n, codeWith t list (';' :: rest), comment⟩ :: more) =
      ((s.expire policy n).2.toList ++ found) ++ finish file (c.addParams list) comment ::
        ((readText policy file n comment .outside rest).2 ++
          findingsFrom policy file (readText policy file n comment .outside rest).1.endLine
            more) := by
  have hread : (State.afterParams (c.addParams list)).read file comment ';' =
      (.outside, some (finish file (c.addParams list) comment)) := by
    rw [State.read, if_pos (.inl rfl)]
  rw [findingsFrom_cons, feed_eq, readText_codeWith hall ht hname hlist, readText_cons (by simp),
    hread]
  simp [List.append_assoc]

/-- What is read gives the finding. -/
theorem finish_eq_declared_iff {c : Candidate} {d : Declaration} :
    finish file c comment = .declared d ↔
      Declaration.read ⟨file, c.line⟩ c.head.toList c.params.toList comment = .ok d := by
  unfold finish
  cases Declaration.read ⟨file, c.line⟩ c.head.toList c.params.toList comment <;> simp

/-- Two heads behind the same text give the same findings exactly when the declaration that is read
with one of them is read with the other as well. -/
theorem findingsFrom_semicolon_iff (hall : ∀ m ∈ policy.markers, isIdentifier m.toList)
    {h h' : Text} {found : List Finding} {d : Declaration}
    (ht : readText policy file n comment (s.expire policy n).1 (front ++ h) =
      (.inHead (Candidate.addHead { line := k } h), found))
    (ht' : readText policy file n comment (s.expire policy n).1 (front ++ h') =
      (.inHead (Candidate.addHead { line := k } h'), found))
    (hname : String.ofList
      (trailingWord (Candidate.addHead { line := k } h).head.toList) ∉ attributeMacros)
    (hname' : String.ofList
      (trailingWord (Candidate.addHead { line := k } h').head.toList) ∉ attributeMacros)
    (hlist : Balanced list) (hd : Declaration.read ⟨file, k⟩ h list comment = .ok d) (rest : Text)
    (more : List CodeLine) :
    findingsFrom policy file s (⟨n, codeWith (front ++ h) list (';' :: rest), comment⟩ :: more) =
        findingsFrom policy file s
          (⟨n, codeWith (front ++ h') list (';' :: rest), comment⟩ :: more) ↔
      Declaration.read ⟨file, k⟩ h' list comment = .ok d := by
  have hread : ∀ h : Text, finish file
      ((Candidate.addHead { line := k } h).addParams list) comment = .declared d ↔
        Declaration.read ⟨file, k⟩ h list comment = .ok d := by
    intro h
    rw [finish_eq_declared_iff]
    simp
  -- What is in front of the two findings and behind them is the same.
  rw [findingsFrom_semicolon hall ht hname hlist, findingsFrom_semicolon hall ht' hname' hlist,
    List.append_cancel_left_eq, List.cons.injEq, and_iff_left rfl, (hread h).2 hd, ← hread h']
  exact eq_comm

/-- Calls of attribute macros between the words of a head do not change what a declaration gives as
long as the macros are called in order: in the line of the declaration, with whatever follows it,
and over several lines without comments, but for line numbers. And for a declaration that is read
without them, it is only then that they do not. -/
theorem findingsFrom_attributes (hall : ∀ m ∈ policy.markers, isIdentifier m.toList)
    (hfront : (readText policy file n comment (s.expire policy n).1 front).1 =
      .inHead { line := k })
    (hhead : head.WellFormed) (hlead : head.lead ≠ []) (hlist : Balanced list) :
    (head.InOrder →
      (∀ rest more,
        findingsFrom policy file s (⟨n, codeWith (front ++ head.text) list rest, comment⟩ :: more) =
          findingsFrom policy file s
            (⟨n, codeWith (front ++ head.plain.text) list rest, comment⟩ :: more)) ∧
      ∀ rest lines lines', Text.unwords lines = codeWith (front ++ head.text) list rest →
        Text.unwords lines' = codeWith (front ++ head.plain.text) list rest →
        NoneExpires policy file s (numbered n lines) →
        NoneExpires policy file s (numbered n lines') →
        (findingsFrom policy file s (numbered n lines)).map Finding.unplaced =
          (findingsFrom policy file s (numbered n lines')).map Finding.unplaced) ∧
      ∀ d, Declaration.read ⟨file, k⟩ head.plain.text list comment = .ok d → ∀ rest more,
        (findingsFrom policy file s
            (⟨n, codeWith (front ++ head.text) list (';' :: rest), comment⟩ :: more) =
          findingsFrom policy file s
            (⟨n, codeWith (front ++ head.plain.text) list (';' :: rest), comment⟩ :: more) ↔
          head.InOrder) := by
  have hplain := hhead.plain
  -- The name behind the calls is no macro, and what is collected is read alike.
  have hname : ∀ {h : DecoratedHead}, h.WellFormed → String.ofList
      (trailingWord (Candidate.addHead { line := k } h.text).head.toList) ∉ attributeMacros := by
    intro h hh
    rw [Candidate.toList_addHead]
    exact hh.trailingWord_not_mem
  have halike : head.InOrder → ((Candidate.addHead { line := k } head.text).addParams list).Alike
      ((Candidate.addHead { line := k } head.plain.text).addParams list) := by
    intro horder
    refine ⟨rfl, fun location doc => Declaration.read_congr ?_ (fun _ => rfl) location doc⟩
    rw [Candidate.addParams_head, Candidate.addParams_head, Candidate.toList_addHead,
      Candidate.toList_addHead]
    exact hhead.words_stripAttributes horder
  -- In one line, for any comment: the several lines are joined to one without.
  have hline : ∀ {comment : Option Text},
      (readText policy file n comment (s.expire policy n).1 front).1 = .inHead { line := k } →
      head.InOrder → ∀ rest more,
      findingsFrom policy file s (⟨n, codeWith (front ++ head.text) list rest, comment⟩ :: more) =
        findingsFrom policy file s
          (⟨n, codeWith (front ++ head.plain.text) list rest, comment⟩ :: more) := by
    intro comment hfront horder rest more
    exact findingsFrom_codeWith hall (hhead.readText_front hlead hall hfront)
      (hplain.readText_front hlead hall hfront) (hname hhead) (hname hplain) hlist hlist
      (halike horder) more
  refine ⟨fun horder => ⟨hline hfront horder, ?_⟩, ?_⟩
  · -- Lines that are joined have no comment, so the line is read as if it had none.
    intro rest lines lines' hlines hlines' hgo hgo'
    have hfront' : (readText policy file n none (s.expire policy n).1 front).1 =
        .inHead { line := k } := by
      rw [readText_comment comment, hfront]
    exact findingsFrom_lines hall hlines hlines' hgo hgo' (hline hfront' horder rest [])
  · intro d hd rest more
    -- Reading the head without calls is what is known, so the two sides change places.
    rw [eq_comm, findingsFrom_semicolon_iff hall (hplain.readText_front hlead hall hfront)
      (hhead.readText_front hlead hall hfront) (hname hplain) (hname hhead) hlist hd,
      hhead.read_eq_iff hd]

/-- Three macros called in order, one with a parenthesis in its arguments, one with a blank in front
of them and one with a word right behind it: the return type is that without them, in one line and
in two. -/
theorem findingsFrom_attributes_three :
    let policy : ScanPolicy := {}
    let file : Path := ⟨"t.cpp"⟩
    let head : DecoratedHead := {
      lead := [' ']
      parts := [.call "__declspec" [] "dllexport".toList [' '], .word "extern".toList [' '],
        .call "__attribute__" [] "( aligned(8))".toList [], .word "const".toList [' '],
        .word "T*".toList [' '], .call "alignas" [' '] "8".toList [' ']]
      last := ['F'] }
    let front := "RH_C_FUNCTION".toList
    let list := "int a".toList
    let lines := ["RH_C_FUNCTION __declspec(dllexport) extern __attribute__((".toList,
      "aligned(8)))const T* alignas (8) F(int a);".toList]
    let plain := codeWith (front ++ head.plain.text) list [';']
    findingsFrom policy file .outside [⟨1, codeWith (front ++ head.text) list [';'], none⟩] =
        findingsFrom policy file .outside [⟨1, plain, none⟩] ∧
      (findingsFrom policy file .outside (numbered 1 lines)).map Finding.unplaced =
        (findingsFrom policy file .outside (numbered 1 [plain])).map Finding.unplaced ∧
      head.InOrder := by
  intro policy file head front list lines plain
  have hfront : (readText policy file 1 none (State.outside.expire policy 1).1 front).1 =
      .inHead { line := 1 } := by decide +kernel
  have hhead : head.WellFormed := by decide +kernel
  have hlist : Balanced list := by decide
  obtain ⟨hsame, horder⟩ := findingsFrom_attributes (by decide) hfront hhead (by decide) hlist
  obtain ⟨hline, hlines⟩ := hsame (by decide)
  refine ⟨hline [';'] [], ?_, ?_⟩
  · exact hlines [';'] lines [plain] (by decide +kernel) (by decide +kernel) (by decide +kernel)
      (by decide +kernel)
  · exact (horder ⟨⟨file, 1⟩, "const T*", "F", [⟨"int", "a"⟩], none, none⟩ (by decide +kernel) []
      []).1 (hline [';'] [])

/-- Behind the call of a macro that comes later `__declspec` is called: the later one is not taken
out, and stands in the return type. -/
theorem attributes_out_of_order :
    let head : DecoratedHead := {
      lead := [' ']
      parts := [.call "__attribute__" [] "(x)".toList [' '],
        .call "__declspec" [] "dllexport".toList [' '], .word "int".toList [' ']]
      last := ['F'] }
    let code (h : DecoratedHead) := codeWith ("RH_C_FUNCTION".toList ++ h.text) "int a".toList [';']
    let found (returnType : String) : Finding :=
      .declared ⟨⟨⟨"t.cpp"⟩, 1⟩, returnType, "F", [⟨"int", "a"⟩], none, none⟩
    head.WellFormed ∧ ¬ head.InOrder ∧
      findingsFrom {} ⟨"t.cpp"⟩ .outside [⟨1, code head.plain, none⟩] = [found "int"] ∧
      findingsFrom {} ⟨"t.cpp"⟩ .outside [⟨1, code head, none⟩] =
        [found "__attribute__((x)) int"] := by
  intro head code found
  exact ⟨by decide +kernel, by decide, by decide +kernel, by decide +kernel⟩

end Scanner

end NativeBindings
