import NativeBindings.Proofs.Scanner.Alike

/-!
# Balanced parentheses

A text in which parentheses match each other leaves every list open as it is
(`Balanced.keepsOpen`). So the scanner reads it into the parameters, or into the arguments of an
attribute macro, as a whole (`readText_inParams`, `readText_inAttribute`), and finds the parenthesis
behind it that closes the list.
-/

namespace NativeBindings.Scanner

variable {policy : ScanPolicy} {file : Path} {line : Nat} {doc : Option Text} {depth : Nat}
  {t u : Text}

/-! ## Balanced parentheses -/

/-- The parentheses of a text inside a list match each other. -/
def Balanced (t : Text) : Prop := KeepsOpen 1 t ∧ t.foldl depthAfter 1 = 1

instance KeepsOpen.decidable : (depth : Nat) → (t : Text) → Decidable (KeepsOpen depth t)
  | _, [] => .isTrue trivial
  | depth, ch :: t =>
    have := KeepsOpen.decidable (depthAfter depth ch) t
    inferInstanceAs (Decidable ((ch = ')' → depth ≠ 1) ∧ KeepsOpen (depthAfter depth ch) t))

instance (t : Text) : Decidable (Balanced t) :=
  inferInstanceAs (Decidable (KeepsOpen 1 t ∧ t.foldl depthAfter 1 = 1))

theorem KeepsOpen.append_iff : KeepsOpen depth (t ++ u) ↔
    KeepsOpen depth t ∧ KeepsOpen (t.foldl depthAfter depth) u := by
  induction t generalizing depth with
  | nil => exact (and_iff_right trivial).symm
  | cons ch t ih =>
    rw [List.cons_append, KeepsOpen, KeepsOpen, ih, List.foldl_cons, and_assoc]

/-- A list that is kept open stays open. -/
theorem KeepsOpen.one_le (h : KeepsOpen depth t) (hdepth : 1 ≤ depth) :
    1 ≤ t.foldl depthAfter depth := by
  induction t generalizing depth with
  | nil => exact hdepth
  | cons ch t ih =>
    refine ih h.2 ?_
    unfold depthAfter
    split_ifs with hopen hclose
    · omega
    · have hne := h.1 hclose
      omega
    · exact hdepth

/-- With more parentheses open around it a text does the same. -/
theorem KeepsOpen.add (h : KeepsOpen depth t) (hdepth : 1 ≤ depth) (k : Nat) :
    KeepsOpen (depth + k) t ∧ t.foldl depthAfter (depth + k) = t.foldl depthAfter depth + k := by
  induction t generalizing depth with
  | nil => exact ⟨trivial, rfl⟩
  | cons ch t ih =>
    have hstep : depthAfter (depth + k) ch = depthAfter depth ch + k := by
      unfold depthAfter
      split_ifs <;> omega
    have hone : 1 ≤ depthAfter depth ch := KeepsOpen.one_le (t := [ch]) ⟨h.1, trivial⟩ hdepth
    obtain ⟨hkeeps, hsame⟩ := ih h.2 hone
    refine ⟨⟨fun hclose => ?_, ?_⟩, ?_⟩
    · have hne := h.1 hclose
      omega
    · rwa [hstep]
    · rw [List.foldl_cons, List.foldl_cons, hstep, hsame]

/-- A balanced text leaves every list open as it is. -/
theorem Balanced.keepsOpen (h : Balanced t) (hdepth : 1 ≤ depth) :
    KeepsOpen depth t ∧ t.foldl depthAfter depth = depth := by
  obtain ⟨hkeeps, hsame⟩ := h.1.add (le_refl 1) (depth - 1)
  rw [h.2] at hsame
  have hdepth' : 1 + (depth - 1) = depth := by omega
  rw [hdepth'] at hkeeps hsame
  exact ⟨hkeeps, hsame⟩

/-! ## Reading a list -/

/-- The parameters are read from the opening parenthesis to the closing one. -/
theorem readText_list {c : Candidate}
    (hc : String.ofList (trailingWord c.head.toList) ∉ attributeMacros) (h : Balanced t)
    (rest : Text) :
    readText policy file line doc (.inHead c) ('(' :: (t ++ ')' :: rest)) =
      readText policy file line doc (.afterParams (c.addParams t)) rest := by
  have hclose : (State.inParams (c.addParams t) 1).read file doc ')' =
      (.afterParams (c.addParams t), none) := by
    rw [State.read, if_pos ⟨rfl, rfl⟩]
  rw [readText_opening hc, readText_inParams h.1, h.2, readText_step (by simp) hclose]

/-- A text that keeps the list open goes to the arguments of an attribute macro. -/
theorem readText_inAttribute (h : KeepsOpen depth t) (c : Candidate) (rest : Text) :
    readText policy file line doc (.inAttribute c depth) (t ++ rest) =
      readText policy file line doc (.inAttribute (c.addHead t) (t.foldl depthAfter depth))
        rest := by
  induction t generalizing c depth with
  | nil => rw [Candidate.addHead_nil, List.nil_append, List.foldl_nil]
  | cons ch t ih =>
    have hread : (State.inAttribute c depth).read file doc ch =
        (.inAttribute (c.addHead [ch]) (depthAfter depth ch), none) := by
      -- The parenthesis that would close the attribute is not among them.
      have hlast := h.1
      rw [State.read]
      simp only [Candidate.push_head]
      unfold depthAfter
      split_ifs with hopen hclose hone
      · rfl
      · exact absurd hone (hlast hclose)
      · rfl
      · rfl
    rw [List.cons_append, readText_step (by simp) hread, ih h.2, List.foldl_cons,
      ← Candidate.addHead_append, List.singleton_append]

/-- The call of an attribute macro is read into the head, up to its closing parenthesis. -/
theorem readText_call {c : Candidate}
    (hc : String.ofList (trailingWord c.head.toList) ∈ attributeMacros) (h : Balanced t)
    (rest : Text) :
    readText policy file line doc (.inHead c) ('(' :: (t ++ ')' :: rest)) =
      readText policy file line doc (.inHead (c.addHead ('(' :: (t ++ [')'])))) rest := by
  have hopen : (State.inHead c).read file doc '(' = (.inAttribute (c.addHead ['(']) 1, none) := by
    rw [State.read, if_pos rfl, if_pos hc, Candidate.push_head]
  have hclose : ∀ c : Candidate, (State.inAttribute c 1).read file doc ')' =
      (.inHead (c.addHead [')']), none) := by
    intro c
    rw [State.read, if_neg (by decide), if_pos rfl, if_pos rfl, Candidate.push_head]
  rw [readText_step (by simp) hopen, readText_inAttribute h.1, h.2,
    readText_step (by simp) (hclose _), ← Candidate.addHead_append, ← Candidate.addHead_append,
    List.singleton_append]

/-- The parenthesis that closes the innermost list is found behind a text that keeps it open. -/
theorem afterClosing?_append (h : KeepsOpen depth t) (hdepth : 1 ≤ depth)
    (hsame : t.foldl depthAfter depth = 1) (rest : Text) :
    afterClosing? depth (t ++ ')' :: rest) = some rest := by
  induction t generalizing depth with
  | nil =>
    obtain rfl : depth = 1 := hsame
    rfl
  | cons ch t ih =>
    -- Behind the first character the list is still open.
    have hone : 1 ≤ depthAfter depth ch := KeepsOpen.one_le (t := [ch]) ⟨h.1, trivial⟩ hdepth
    have hrest := ih h.2 hone hsame
    have hlast := h.1
    unfold depthAfter at hrest
    rw [List.cons_append]
    unfold afterClosing?
    split
    · rename_i heq
      cases heq
    · rename_i heq
      cases heq
      exact hrest
    · rename_i heq
      cases heq
      -- This parenthesis is not the last one, for the text keeps the list open.
      rw [if_neg (hlast rfl)]
      exact hrest
    · rename_i hopen hclose heq
      cases heq
      rw [if_neg hopen, if_neg hclose] at hrest
      exact hrest

/-! ## Reading a declaration -/

/-- The code of a declaration with the given parameters. -/
def codeWith (front list rest : Text) : Text := front ++ '(' :: (list ++ ')' :: rest)

/-- Behind its head a declaration is read to its parameters. -/
theorem readText_codeWith (hall : ∀ m ∈ policy.markers, isIdentifier m.toList) {s : State}
    {c : Candidate} {front : Text} {found : List Finding}
    (hfront : readText policy file line doc s front = (.inHead c, found))
    (hname : String.ofList (trailingWord c.head.toList) ∉ attributeMacros) (ht : Balanced t)
    (rest : Text) :
    readText policy file line doc s (codeWith front t rest) =
      ((readText policy file line doc (.afterParams (c.addParams t)) rest).1,
        found ++ (readText policy file line doc (.afterParams (c.addParams t)) rest).2) := by
  unfold codeWith
  rw [readText_break hall (by decide), hfront, readText_list hname ht]

/-- Declarations that are read alike behind the same findings give the same findings up to the end
of the file. -/
theorem findingsFrom_codeWith (hall : ∀ m ∈ policy.markers, isIdentifier m.toList) {s : State}
    {c c' : Candidate} {front front' rest : Text} {found : List Finding}
    (hfront : readText policy file line doc (s.expire policy line).1 front = (.inHead c, found))
    (hfront' : readText policy file line doc (s.expire policy line).1 front' = (.inHead c', found))
    (hname : String.ofList (trailingWord c.head.toList) ∉ attributeMacros)
    (hname' : String.ofList (trailingWord c'.head.toList) ∉ attributeMacros) (ht : Balanced t)
    (hu : Balanced u) (halike : (c.addParams t).Alike (c'.addParams u)) (more : List CodeLine) :
    findingsFrom policy file s (⟨line, codeWith front t rest, doc⟩ :: more) =
      findingsFrom policy file s (⟨line, codeWith front' u rest, doc⟩ :: more) := by
  obtain ⟨hfound, hstate⟩ := (State.Alike.afterParams halike).readText policy file line doc rest
  refine findingsFrom_alike ?_ ?_ more
  · rw [readText_codeWith hall hfront hname ht, readText_codeWith hall hfront' hname' hu, hfound]
  · rwa [readText_codeWith hall hfront hname ht, readText_codeWith hall hfront' hname' hu]

/-- Lines that join to two declarations give the same findings as these, but for line numbers. -/
theorem findingsFrom_lines (hall : ∀ m ∈ policy.markers, isIdentifier m.toList) {s : State}
    {front front' rest rest' : Text} {lines lines' : List Text}
    (hlines : Text.unwords lines = codeWith front t rest)
    (hlines' : Text.unwords lines' = codeWith front' u rest')
    (hgo : NoneExpires policy file s (numbered line lines))
    (hgo' : NoneExpires policy file s (numbered line lines'))
    (hsame : findingsFrom policy file s [⟨line, codeWith front t rest, none⟩] =
      findingsFrom policy file s [⟨line, codeWith front' u rest', none⟩]) :
    (findingsFrom policy file s (numbered line lines)).map Finding.unplaced =
      (findingsFrom policy file s (numbered line lines')).map Finding.unplaced := by
  have hne : ∀ {ls : List Text} {front t rest : Text},
      Text.unwords ls = codeWith front t rest → ls ≠ [] := by
    rintro ls front t rest heq rfl
    simp [codeWith] at heq
  rw [findingsFrom_numbered hall s line lines (hne hlines) hgo,
    findingsFrom_numbered hall s line lines' (hne hlines') hgo', hlines, hlines', hsame]

end NativeBindings.Scanner
