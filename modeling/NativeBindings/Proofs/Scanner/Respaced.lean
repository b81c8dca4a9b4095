import NativeBindings.Proofs.Declaration.Respaced
import NativeBindings.Proofs.Scanner.Attribute

/-!
# Declarations with other spacing

While a head is collected the scanner looks at parentheses, at the last word in front of them and at
the characters that end a head (`openBehind?`). Blanks beside marks change none of these, so a head
with other spacing is collected, too (`openBehind?_respaced`). It gives the same findings as long as
the same words of linkage and of calling conventions have blanks around them
(`findingsFrom_respaced`); a word of a calling convention that stands right beside a mark goes to
the return type (`convention_at_mark`).
-/

namespace NativeBindings

open TypeText

namespace Scanner

/-! ## Collecting a head -/

/-- The number of parentheses that are open behind a text of a head, with the given text in front of
it; none when the head ends in it. -/
def openBehind? (front : Text) (depth : Nat) : Text → Option Nat
  | [] => some depth
  | ch :: t =>
    if depth = 0 ∧ ch = '(' then
      if String.ofList (trailingWord front) ∈ attributeMacros then openBehind? (front ++ [ch]) 1 t
      else none
    else if depth = 0 ∧ endsHead ch then none
    else openBehind? (front ++ [ch]) (depthAfter depth ch) t

/-- The state in a head with the given number of parentheses open. -/
def Candidate.collecting (c : Candidate) (depth : Nat) : State :=
  if depth = 0 then .inHead c else .inAttribute c depth

variable {policy : ScanPolicy} {file : Path} {line : Nat} {doc : Option Text} {c c' : Candidate}
  {depth : Nat} {front t u : Text}

theorem openBehind?_append (front : Text) (depth : Nat) (t u : Text) :
    openBehind? front depth (t ++ u) =
      (openBehind? front depth t).bind fun k => openBehind? (front ++ t) k u := by
  induction t generalizing front depth with
  | nil => rw [List.nil_append, List.append_nil, openBehind?, Option.bind_some]
  | cons ch t ih =>
    rw [List.cons_append, openBehind?, openBehind?]
    split_ifs
    · rw [ih, List.append_assoc, List.singleton_append]
    · rfl
    · rfl
    · rw [ih, List.append_assoc, List.singleton_append]

/-- Only the last words of the text in front matter. -/
theorem openBehind?_congr {front' : Text}
    (h : ∀ t, trailingWord (front ++ t) = trailingWord (front' ++ t)) :
    openBehind? front depth t = openBehind? front' depth t := by
  induction t generalizing front front' depth with
  | nil => rfl
  | cons ch t ih =>
    have hword := h []
    rw [List.append_nil, List.append_nil] at hword
    have hnext : ∀ t, trailingWord (front ++ [ch] ++ t) = trailingWord (front' ++ [ch] ++ t) := by
      intro t
      rw [List.append_assoc, List.append_assoc, h]
    rw [openBehind?, openBehind?, hword, ih hnext, ih hnext]

/-- A character that ends no head and closes no parenthesis is passed over. -/
theorem openBehind?_cons {ch : Char} (hkeeps : endsHead ch = false) (hclose : ch ≠ ')')
    (front : Text) (depth : Nat) (t : Text) :
    openBehind? front depth (ch :: t) = openBehind? (front ++ [ch]) depth t := by
  have hopen : ch ≠ '(' := by
    rintro rfl
    cases hkeeps
  have hsame : depthAfter depth ch = depth := by
    unfold depthAfter
    rw [if_neg hopen, if_neg hclose]
  rw [openBehind?, if_neg (by simp [hopen]), if_neg (by simp [hkeeps]), hsame]

/-- A blank beside a mark neither ends a head nor opens or closes a parenthesis in it. -/
theorem openBehind?_addBlank {a b : Text} {ch : Char} (hblank : isBlank ch)
    (hascii : ch.toNat < 128) (h : Beside a b) :
    openBehind? [] 0 (a ++ ch :: b) = openBehind? [] 0 (a ++ b) := by
  have hclose : ch ≠ ')' := by
    rintro rfl
    exact absurd hblank (by decide)
  -- What stands in front is read first, and the blank goes to the head.
  rw [openBehind?_append, openBehind?_append]
  congr 1
  funext depth
  rw [List.nil_append, openBehind?_cons (endsHead_of_isBlank hblank) hclose]
  rcases h.cases with ⟨a', m, rfl, hm⟩ | ⟨m, b', rfl, hm⟩
  · -- A mark stands in front of the blank: no word reaches over it.
    refine openBehind?_congr fun t => ?_
    have hbeside : Beside (a' ++ [m]) t := .inl ⟨m, List.getLast?_concat, hm⟩
    rw [← trailingWord_addBlank hblank hascii hbeside, List.append_assoc, List.singleton_append]
  · -- No word reaches over the mark that is read next.
    have hkeeps : endsHead m = false := endsHead_of_class (p := isMark) (by decide) hm
    have hmark : m ≠ ')' := by
      rintro rfl
      cases hm
    rw [openBehind?_cons hkeeps hmark, openBehind?_cons hkeeps hmark]
    have hbehind : ∀ s t : Text, trailingWord (s ++ [m] ++ t) = trailingWord t := by
      intro s t
      rw [List.append_assoc, List.singleton_append, trailingWord_append_mark hm]
    exact openBehind?_congr fun t => by rw [hbehind, hbehind]

theorem Candidate.collecting_ne_outside (c : Candidate) (depth : Nat) :
    c.collecting depth ≠ .outside := by
  unfold collecting
  split <;> simp

/-- What a character does while a head is collected. -/
theorem read_collecting (file : Path) (doc : Option Text) (c : Candidate) (depth : Nat)
    (ch : Char) :
    (c.collecting depth).read file doc ch =
      if depth = 0 ∧ ch = '(' then
        if String.ofList (trailingWord c.head.toList) ∈ attributeMacros then
          ((c.addHead [ch]).collecting 1, none)
        else (.inParams c 1, none)
      else if depth = 0 ∧ endsHead ch then (.outside, some (.skipped c.line .notAFunction))
      else ((c.addHead [ch]).collecting (depthAfter depth ch), none) := by
  unfold Candidate.collecting
  cases depth with
  | zero =>
    rw [if_pos rfl, State.read]
    -- In the head itself a parenthesis opens, or a character ends it, or the head goes on.
    simp only [Candidate.push_head]
    by_cases hopen : ch = '('
    · simp [hopen]
    · have hends : endsHead ch = true ↔ ch = ';' ∨ ch = '{' ∨ ch = '}' ∨ ch = '=' := by
        unfold endsHead
        simp [hopen, or_assoc]
      have hzero : depthAfter 0 ch = 0 := by
        unfold depthAfter
        rw [if_neg hopen]
        split <;> rfl
      rw [hzero]
      simp [hopen, hends]
  | succ depth =>
    have hdepth : ¬ depth + 1 = 0 := Nat.succ_ne_zero depth
    rw [if_neg hdepth, if_neg fun hand => hdepth hand.1, if_neg fun hand => hdepth hand.1,
      State.read]
    simp only [Candidate.push_head]
    unfold depthAfter
    -- Only the parenthesis that closes the last one leads back to the head.
    split_ifs <;> first | rfl | contradiction | omega

/-- A text in which a head goes on is collected. -/
theorem readText_collecting {k : Nat} (h : openBehind? c.head.toList depth t = some k) :
    readText policy file line doc (c.collecting depth) t = ((c.addHead t).collecting k, []) := by
  induction t generalizing c depth with
  | nil =>
    cases h
    rw [readText_nil, Candidate.addHead_nil]
  | cons ch t ih =>
    have hread := read_collecting file doc c depth ch
    rw [openBehind?] at h
    rw [← Candidate.toList_addHead] at h
    have happend : c.addHead (ch :: t) = (c.addHead [ch]).addHead t := by
      rw [← Candidate.addHead_append, List.singleton_append]
    rw [happend]
    split_ifs at h hread
    · rw [readText_step (c.collecting_ne_outside depth) hread, ih h]
    · rw [readText_step (c.collecting_ne_outside depth) hread, ih h]

/-- From a list the scanner does not come back to a head without a finding. -/
theorem readText_list_ne_inHead {s : State}
    (hs : (∃ c depth, s = .inParams c depth) ∨ ∃ c, s = .afterParams c) (t : Text) :
    readText policy file line doc s t ≠ (.inHead c', []) := by
  induction t generalizing s with
  | nil =>
    rw [readText_nil]
    rcases hs with ⟨c, depth, rfl⟩ | ⟨c, rfl⟩ <;> simp
  | cons ch t ih =>
    -- In a list and behind it a character gives a finding or leads to a list or behind it.
    have hstep : ∀ {s' : State}, s.read file doc ch = (s', none) →
        (∃ c depth, s' = .inParams c depth) ∨ ∃ c, s' = .afterParams c := by
      rcases hs with ⟨c, depth, rfl⟩ | ⟨c, rfl⟩ <;> intro s' hread <;> rw [State.read] at hread <;>
        split_ifs at hread <;> cases hread
      · exact .inr ⟨_, rfl⟩
      · exact .inl ⟨_, _, rfl⟩
      · exact .inl ⟨_, _, rfl⟩
      · exact .inl ⟨_, _, rfl⟩
      · exact .inr ⟨_, rfl⟩
    have hinside : s ≠ .outside := by
      rcases hs with ⟨c, depth, rfl⟩ | ⟨c, rfl⟩ <;> simp
    cases hread : s.read file doc ch with
    | mk s' found =>
      cases found with
      | none =>
        rw [readText_step hinside hread]
        exact ih (hstep hread)
      | some f =>
        rw [readText_cons hinside, hread]
        simp

/-- Where a head is collected it goes on. -/
theorem openBehind?_of_readText
    (h : readText policy file line doc (c.collecting depth) t = (.inHead c', [])) :
    openBehind? c.head.toList depth t = some 0 := by
  induction t generalizing c depth with
  | nil =>
    rw [readText_nil] at h
    unfold Candidate.collecting at h
    split at h
    · rename_i hzero
      rw [openBehind?, hzero]
    · cases h
  | cons ch t ih =>
    -- A parenthesis of attributes or of parameters, an end of the head, or another character of it.
    have hread := read_collecting file doc c depth ch
    rw [openBehind?, ← Candidate.toList_addHead]
    split_ifs at hread ⊢
    · rw [readText_step (c.collecting_ne_outside depth) hread] at h
      exact ih h
    · rw [readText_step (c.collecting_ne_outside depth) hread] at h
      exact absurd h (readText_list_ne_inHead (.inl ⟨c, 1, rfl⟩) t)
    · rw [readText_cons (c.collecting_ne_outside depth), hread] at h
      cases (Prod.mk.inj h).2
    · rw [readText_step (c.collecting_ne_outside depth) hread] at h
      exact ih h

/-! ## Heads with other spacing -/

/-- A head with other spacing is collected when the head is. -/
theorem openBehind?_respaced {head head' : Text} (h : Respaced head head') :
    openBehind? [] 0 head = openBehind? [] 0 head' := by
  refine h.congr (f := openBehind? [] 0) ?_
  rintro - - ⟨a, ch, b, rfl, rfl, ⟨hblank, hascii⟩, hbeside⟩
  exact (openBehind?_addBlank hblank hascii hbeside).symm

/-- Other spacing changes neither the last word of a head nor that no identifier is cut at its
start. -/
theorem ends_of_respaced {head head' : Text} (h : Respaced head head') :
    trailingWord head = trailingWord head' ∧ (EndsIdent head ↔ EndsIdent head') := by
  constructor
  · refine h.congr (f := trailingWord) ?_
    rintro - - ⟨a, ch, b, rfl, rfl, ⟨hblank, hascii⟩, hbeside⟩
    exact (trailingWord_addBlank hblank hascii hbeside).symm
  · refine iff_of_eq (h.congr (f := EndsIdent) ?_)
    rintro - - ⟨a, ch, b, rfl, rfl, ⟨hblank, -⟩, hbeside⟩
    cases a with
    | cons d a => rfl
    | nil =>
      -- A mark stands behind the blank, and neither belongs to an identifier.
      have hmark : EndsIdent b := by
        obtain ⟨m, hm, hmark⟩ := hbeside.resolve_left (by simp)
        intro d hd
        rw [hm] at hd
        cases hd
        exact not_isIdentChar_of_isMark hmark
      have hgap : EndsIdent (ch :: b) := fun d hd => by
        cases hd
        exact isIdentChar_of_isBlank hblank
      exact propext (iff_of_true hmark hgap)

variable {s : State} {head head' list : Text} {n k : Nat} {comment : Option Text}

/-- Behind a marker a head is collected. -/
theorem readText_front (hall : ∀ m ∈ policy.markers, isIdentifier m.toList)
    (hfront : (readText policy file line doc s front).1 = .inHead { line := k })
    (hends : EndsIdent head) (hopen : openBehind? [] 0 head = some 0) :
    readText policy file line doc s (front ++ head) =
      (.inHead (Candidate.addHead { line := k } head),
        (readText policy file line doc s front).2) := by
  have hhead : readText policy file line doc (.inHead { line := k }) head =
      (.inHead (Candidate.addHead { line := k } head), []) :=
    readText_collecting (c := { line := k }) hopen
  cases head with
  | nil => rw [List.append_nil, Candidate.addHead_nil, ← hfront]
  | cons ch head => rw [readText_break hall (hends ch rfl), hfront, hhead, List.append_nil]

/-- Heads of which the same tokens are taken out are read alike. -/
theorem alike_of_labels (hlabels : labels head = labels head')
    (hslash : '/' ∉ stripAttributes head) :
    ((Candidate.addHead { line := k } head).addParams list).Alike
      ((Candidate.addHead { line := k } head').addParams list) := by
  refine ⟨rfl, fun location doc => ?_⟩
  rw [Candidate.addParams_head, Candidate.addParams_head, Candidate.toList_addHead,
    Candidate.toList_addHead]
  exact Declaration.read_of_labels hlabels hslash _ location doc

/-- Blanks beside the marks of a head do not matter as long as the same words of linkage and of
calling conventions have blanks around them: in the line of the declaration, with whatever follows
it, and over several lines without comments, but for line numbers. And where all of them have, a
declaration is read from the head with other spacing exactly when they have there, too. -/
theorem findingsFrom_respaced (hall : ∀ m ∈ policy.markers, isIdentifier m.toList)
    (hfront : (readText policy file n comment (s.expire policy n).1 front).1 =
      .inHead { line := k })
    (hends : EndsIdent head)
    (hhead : readText policy file n comment (.inHead { line := k }) head =
      (.inHead (Candidate.addHead { line := k } head), []))
    (hplain : String.ofList (trailingWord head) ∉ attributeMacros) (hlist : Balanced list)
    (hslash : '/' ∉ stripAttributes head) (hspaced : Respaced head head') :
    (labels head = labels head' →
      (∀ rest more,
        findingsFrom policy file s (⟨n, codeWith (front ++ head) list rest, comment⟩ :: more) =
          findingsFrom policy file s
            (⟨n, codeWith (front ++ head') list rest, comment⟩ :: more)) ∧
      ∀ rest lines lines', Text.unwords lines = codeWith (front ++ head) list rest →
        Text.unwords lines' = codeWith (front ++ head') list rest →
        NoneExpires policy file s (numbered n lines) →
        NoneExpires policy file s (numbered n lines') →
        (findingsFrom policy file s (numbered n lines)).map Finding.unplaced =
          (findingsFrom policy file s (numbered n lines')).map Finding.unplaced) ∧
      (Loose head → (labels head = labels head' ↔ Loose head') ∧
        ∀ d, Declaration.read ⟨file, k⟩ head list comment = .ok d → ∀ rest more,
          (findingsFrom policy file s
              (⟨n, codeWith (front ++ head) list (';' :: rest), comment⟩ :: more) =
            findingsFrom policy file s
              (⟨n, codeWith (front ++ head') list (';' :: rest), comment⟩ :: more) ↔
            Loose head')) := by
  obtain ⟨hlast, hends'⟩ := ends_of_respaced hspaced
  have htokens := hspaced.tokens_stripAttributes
  -- Both heads are collected to their ends, where the same name stands.
  have hopen : openBehind? [] 0 head = some 0 :=
    openBehind?_of_readText (c := { line := k }) hhead
  have hopen' := hopen
  rw [openBehind?_respaced hspaced] at hopen'
  have hname : ∀ {t : Text}, trailingWord head = trailingWord t → String.ofList
      (trailingWord (Candidate.addHead { line := k } t).head.toList) ∉ attributeMacros := by
    intro t ht
    rw [Candidate.toList_addHead]
    exact ht ▸ hplain
  -- In one line, for any comment: the several lines are joined to one without.
  have hline : ∀ {comment : Option Text},
      (readText policy file n comment (s.expire policy n).1 front).1 = .inHead { line := k } →
      labels head = labels head' → ∀ rest more,
      findingsFrom policy file s (⟨n, codeWith (front ++ head) list rest, comment⟩ :: more) =
        findingsFrom policy file s
          (⟨n, codeWith (front ++ head') list rest, comment⟩ :: more) := by
    intro comment hfront hlabels rest more
    exact findingsFrom_codeWith hall (readText_front hall hfront hends hopen)
      (readText_front hall hfront (hends'.1 hends) hopen') (hname rfl) (hname hlast) hlist hlist
      (alike_of_labels hlabels hslash) more
  refine ⟨fun hlabels => ⟨hline hfront hlabels, ?_⟩, fun hloose =>
    ⟨hloose.labels_eq_iff htokens, ?_⟩⟩
  · -- Lines that are joined have no comment, so the line is read as if it had none.
    intro rest lines lines' hlines hlines' hgo hgo'
    have hfront' : (readText policy file n none (s.expire policy n).1 front).1 =
        .inHead { line := k } := by
      rw [readText_comment comment, hfront]
    exact findingsFrom_lines hall hlines hlines' hgo hgo' (hline hfront' hlabels rest [])
  · -- From a loose head the declaration is read, and from the other one only if that is loose.
    intro d hd rest more
    rw [findingsFrom_semicolon_iff hall (readText_front hall hfront hends hopen)
      (readText_front hall hfront (hends'.1 hends) hopen') (hname rfl) (hname hlast) hlist hd,
      Declaration.read_eq_iff_loose htokens hslash hloose hd]

/-- Without the blank in front of a mark, in one line and in two: the words around the mark have
blanks on their other sides. -/
theorem findingsFrom_respaced_pointer :
    let policy : ScanPolicy := {}
    let file : Path := ⟨"t.cpp"⟩
    let head := " extern const T * WINAPI F".toList
    let head' := " extern const T* WINAPI F".toList
    let front := "RH_C_FUNCTION".toList
    let list := "int a".toList
    let lines := ["RH_C_FUNCTION extern const T *".toList, "WINAPI F(int a);".toList]
    let plain := codeWith (front ++ head') list [';']
    findingsFrom policy file .outside [⟨1, codeWith (front ++ head) list [';'], none⟩] =
        findingsFrom policy file .outside [⟨1, plain, none⟩] ∧
      (findingsFrom policy file .outside (numbered 1 lines)).map Finding.unplaced =
        (findingsFrom policy file .outside (numbered 1 [plain])).map Finding.unplaced ∧
      Loose head' := by
  intro policy file head head' front list lines plain
  have hfront : (readText policy file 1 none (State.outside.expire policy 1).1 front).1 =
      .inHead { line := 1 } := by decide +kernel
  have hends : EndsIdent head := fun c hc => by
    cases hc
    decide
  -- One blank is taken out, in front of the mark.
  have hspaced : Respaced head head' := .symm _ _ (.rel _ _ ⟨" extern const T".toList, ' ',
    "* WINAPI F".toList, by decide, by decide, by decide, .inr ⟨'*', by decide, by decide⟩⟩)
  have hlist : Balanced list := by decide
  obtain ⟨hsame, hloose⟩ := findingsFrom_respaced (s := .outside) (by decide) hfront hends
    (by decide +kernel) (by decide) hlist (by decide +kernel) hspaced
  have hlabels : labels head = labels head' := by decide +kernel
  obtain ⟨hline, hlines⟩ := hsame hlabels
  refine ⟨hline [';'] [], ?_, ?_⟩
  · exact hlines [';'] lines [plain] (by decide +kernel) (by decide +kernel) (by decide +kernel)
      (by decide +kernel)
  · -- The declaration is the one that is read with the blank.
    exact ((hloose (by decide +kernel)).2
      ⟨⟨file, 1⟩, "const T*", "F", [⟨"int", "a"⟩], some "WINAPI", none⟩ (by decide +kernel) []
      []).1 (hline [';'] [])

/-- Without the blank between a mark and the word of a calling convention, the word is read as a
part of the return type. -/
theorem convention_at_mark :
    let head := " int* __stdcall F".toList
    let head' := " int*__stdcall F".toList
    let code (h : Text) := codeWith ("RH_C_FUNCTION".toList ++ h) "int a".toList [';']
    let found (returnType : String) (convention : Option String) : Finding :=
      .declared ⟨⟨⟨"t.cpp"⟩, 1⟩, returnType, "F", [⟨"int", "a"⟩], convention, none⟩
    Respaced head head' ∧
      findingsFrom {} ⟨"t.cpp"⟩ .outside [⟨1, code head, none⟩] =
        [found "int*" (some "__stdcall")] ∧
      findingsFrom {} ⟨"t.cpp"⟩ .outside [⟨1, code head', none⟩] =
        [found "int* __stdcall" none] := by
  intro head head' code found
  have hspaced : Respaced head head' := .symm _ _ (.rel _ _ ⟨" int*".toList, ' ',
    "__stdcall F".toList, by decide, by decide, by decide, .inl ⟨'*', by decide, by decide⟩⟩)
  exact ⟨hspaced, by decide +kernel, by decide +kernel⟩

end Scanner

end NativeBindings
