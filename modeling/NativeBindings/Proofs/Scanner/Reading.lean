import NativeBindings.Proofs.Text.Word
import NativeBindings.Scanner

/-!
# Reading a declaration from one line

A marker that the text starts with is the first one (`afterMarker?_append`). Behind it the scanner
collects the head and the parameters character by character; the lemmas below say what it collects
from a whole piece of text. `feed_declaration` puts them together: a marker, a head, balanced
parameters in parentheses and a semicolon give exactly one finding, which is what `finish` makes of
the head and the parameters.
-/

namespace NativeBindings.Scanner

variable {policy : ScanPolicy} {file : Path} {line : Nat} {doc : Option Text}

/-! ## The first marker -/

/-- The earlier of two marks is one of them, and does not start behind either. -/
theorem Mark.earlier_spec (a b : Mark) :
    (a.earlier b = a ∨ a.earlier b = b) ∧ (a.earlier b).start ≤ a.start ∧
      (a.earlier b).start ≤ b.start := by
  unfold Mark.earlier
  split
  · refine ⟨.inr rfl, ?_, le_refl _⟩
    omega
  · refine ⟨.inl rfl, le_refl _, ?_⟩
    omega

/-- The earliest of several marks is one of them, and starts behind none. -/
theorem Mark.foldl_earlier_spec (m : Mark) (ms : List Mark) :
    ms.foldl Mark.earlier m ∈ m :: ms ∧
      ∀ x ∈ m :: ms, (ms.foldl Mark.earlier m).start ≤ x.start := by
  induction ms generalizing m with
  | nil => simp
  | cons b ms ih =>
    -- The earliest one of the rest and of the earlier one of the first two.
    obtain ⟨hmem, hle⟩ := ih (m.earlier b)
    obtain ⟨hone, hm, hb⟩ := m.earlier_spec b
    have hfirst := hle _ (.head _)
    rw [List.foldl_cons]
    constructor
    · rcases List.mem_cons.1 hmem with heq | hmem
      · rw [heq]
        rcases hone with h | h <;> rw [h] <;> simp
      · exact .tail _ (.tail _ hmem)
    · intro x hx
      rcases List.mem_cons.1 hx with rfl | hx
      · exact hfirst.trans hm
      · rcases List.mem_cons.1 hx with rfl | hx
        · exact hfirst.trans hb
        · exact hle x (.tail _ hx)

/-- A marker that the text starts with is the first one, when all markers are identifiers. -/
theorem afterMarker?_append {marker : String} {rest : Text} (hmarker : marker ∈ policy.markers)
    (hall : ∀ m ∈ policy.markers, isIdentifier m.toList) (hrest : EndsIdent rest) :
    afterMarker? policy (marker.toList ++ rest) = some rest := by
  have hfirst : Mark.find? (marker.toList ++ rest) marker = some ⟨0, marker.length, rest⟩ := by
    unfold Mark.find?
    rw [Text.findWord?_append hrest]
    rfl
  -- Another marker at the start of the text is the same run of identifier characters.
  have hothers : ∀ x ∈ policy.markers.filterMap (Mark.find? (marker.toList ++ rest)),
      x.start = 0 → x.rest = rest := by
    intro x hx hstart
    obtain ⟨m, hm, hfind⟩ := List.mem_filterMap.1 hx
    obtain ⟨⟨before, after⟩, hword, rfl⟩ := Option.map_eq_some_iff.1 hfind
    obtain ⟨hsplit, halone⟩ := Text.standsAlone_of_findWord? hword
    obtain rfl : before = [] := List.length_eq_zero_iff.1 hstart
    rw [Text.standsAlone_nil_iff] at halone
    have hm' := (allIdent_of_isIdentifier (hall m hm)).2
    have hmarker' := (allIdent_of_isIdentifier (hall marker hmarker)).2
    exact (eq_of_append_eq_append hmarker' hm' hrest halone hsplit).2.symm
  -- The marker at the start is among the marks found, so the earliest of them starts there too.
  have hmem : ⟨0, marker.length, rest⟩ ∈
      policy.markers.filterMap (Mark.find? (marker.toList ++ rest)) :=
    List.mem_filterMap.2 ⟨marker, hmarker, hfirst⟩
  unfold afterMarker?
  cases hmarks : policy.markers.filterMap (Mark.find? (marker.toList ++ rest)) with
  | nil =>
    rw [hmarks] at hmem
    cases hmem
  | cons m ms =>
    rw [hmarks] at hmem hothers
    obtain ⟨hfold, hle⟩ := Mark.foldl_earlier_spec m ms
    have hzero : (ms.foldl Mark.earlier m).start = 0 := Nat.le_zero.1 (hle _ hmem)
    exact congrArg some (hothers _ hfold hzero)

/-! ## Reading text -/

@[simp] theorem readText_nil (s : State) : readText policy file line doc s [] = (s, []) := by
  rw [readText]

/-- Outside declarations reading goes on behind the next marker. -/
theorem readText_outside {text rest : Text} (hne : text ≠ [])
    (h : afterMarker? policy text = some rest) :
    readText policy file line doc .outside text =
      readText policy file line doc (.inHead { line }) rest := by
  cases text with
  | nil => exact absurd rfl hne
  | cons c cs =>
    rw [readText, if_pos rfl]
    split
    · rename_i hnone
      rw [h] at hnone
      cases hnone
    · rename_i rest' hsome
      rw [h] at hsome
      cases hsome
      rfl

/-- Outside declarations nothing more is read when no marker is left. -/
theorem readText_outside_none {text : Text} (h : afterMarker? policy text = none) :
    readText policy file line doc .outside text = (.outside, []) := by
  cases text with
  | nil => exact readText_nil .outside
  | cons c cs =>
    rw [readText, if_pos rfl]
    split
    · rfl
    · rename_i rest hsome
      rw [h] at hsome
      cases hsome

/-- Inside a declaration the next character is read. -/
theorem readText_cons {s : State} (hs : s ≠ .outside) (c : Char) (cs : Text) :
    readText policy file line doc s (c :: cs) =
      ((readText policy file line doc (s.read file doc c).1 cs).1,
        (s.read file doc c).2.toList ++
          (readText policy file line doc (s.read file doc c).1 cs).2) := by
  rw [readText, if_neg hs]

/-- A character that only changes the state. -/
theorem readText_step {s s' : State} {c : Char} (hs : s ≠ .outside)
    (h : s.read file doc c = (s', none)) (cs : Text) :
    readText policy file line doc s (c :: cs) = readText policy file line doc s' cs := by
  rw [readText_cons hs, h]
  rfl

/-- The candidate with more text in its head. -/
def Candidate.addHead (c : Candidate) (t : Text) : Candidate :=
  { c with head := c.head ++ String.ofList t }

/-- The candidate with more text in its parameters. -/
def Candidate.addParams (c : Candidate) (t : Text) : Candidate :=
  { c with params := c.params ++ String.ofList t }

namespace Candidate

variable (c : Candidate) (t u : Text)

@[simp] theorem toList_addHead : (c.addHead t).head.toList = c.head.toList ++ t := by
  unfold addHead
  rw [String.toList_append, String.toList_ofList]

@[simp] theorem toList_addParams : (c.addParams t).params.toList = c.params.toList ++ t := by
  unfold addParams
  rw [String.toList_append, String.toList_ofList]

@[simp] theorem addHead_params : (c.addHead t).params = c.params := rfl

@[simp] theorem addParams_head : (c.addParams t).head = c.head := rfl

@[simp] theorem addHead_line : (c.addHead t).line = c.line := rfl

@[simp] theorem addParams_line : (c.addParams t).line = c.line := rfl

@[simp] theorem addHead_nil : c.addHead [] = c := by
  unfold addHead
  simp

@[simp] theorem addParams_nil : c.addParams [] = c := by
  unfold addParams
  simp

/-- One character goes to the head like a text of one. -/
theorem push_head (ch : Char) : { c with head := c.head.push ch } = c.addHead [ch] := by
  unfold addHead
  simp

/-- One character goes to the parameters like a text of one. -/
theorem push_params (ch : Char) : { c with params := c.params.push ch } = c.addParams [ch] := by
  unfold addParams
  simp

/-- Text is added to the head in one piece or in two. -/
theorem addHead_append : c.addHead (t ++ u) = (c.addHead t).addHead u := by
  unfold addHead
  rw [String.ofList_append, String.append_assoc]

/-- Text is added to the parameters in one piece or in two. -/
theorem addParams_append : c.addParams (t ++ u) = (c.addParams t).addParams u := by
  unfold addParams
  rw [String.ofList_append, String.append_assoc]

end Candidate

/-- A character that ends a head or opens parentheses. -/
def endsHead (c : Char) : Bool := c == '(' || c == ';' || c == '{' || c == '}' || c == '='

/-- One of five characters ends a head. -/
theorem mem_of_endsHead {ch : Char} (h : endsHead ch) : ch ∈ ['(', ';', '{', '}', '='] := by
  unfold endsHead at h
  simp only [Bool.or_eq_true, beq_iff_eq] at h
  rcases h with (((rfl | rfl) | rfl) | rfl) | rfl <;> simp

/-- Text is added to the head up to a character that ends it. -/
theorem readText_head {t : Text} (ht : ∀ ch ∈ t, endsHead ch = false) (c : Candidate)
    (rest : Text) :
    readText policy file line doc (.inHead c) (t ++ rest) =
      readText policy file line doc (.inHead (c.addHead t)) rest := by
  induction t generalizing c with
  | nil => rw [Candidate.addHead_nil, List.nil_append]
  | cons ch t ih =>
    have hch := ht ch (.head _)
    unfold endsHead at hch
    simp only [Bool.or_eq_false_iff, beq_eq_false_iff_ne] at hch
    obtain ⟨⟨⟨⟨hopen, hsemi⟩, hbrace⟩, hclose⟩, heq⟩ := hch
    -- None of the characters that end a head is read, so the character goes to the head.
    have hread : (State.inHead c).read file doc ch = (.inHead (c.addHead [ch]), none) := by
      rw [State.read, if_neg hopen, if_neg (by simp [hsemi, hbrace, hclose, heq]),
        Candidate.push_head]
    rw [List.cons_append, readText_step (by simp) hread, ih fun x hx => ht x (.tail _ hx),
      ← Candidate.addHead_append, List.singleton_append]

/-- An opening parenthesis starts the parameters, unless an attribute macro stands in front. -/
theorem readText_opening {c : Candidate}
    (hc : String.ofList (trailingWord c.head.toList) ∉ attributeMacros) (rest : Text) :
    readText policy file line doc (.inHead c) ('(' :: rest) =
      readText policy file line doc (.inParams c 1) rest := by
  have hread : (State.inHead c).read file doc '(' = (.inParams c 1, none) := by
    rw [State.read, if_pos rfl, if_neg hc]
  exact readText_step (by simp) hread rest

/-- How a character changes the number of open parentheses. -/
def depthAfter (depth : Nat) (ch : Char) : Nat :=
  if ch = '(' then depth + 1 else if ch = ')' then depth - 1 else depth

/-- No character of the text closes the last of the open parentheses. -/
def KeepsOpen : Nat → Text → Prop
  | _, [] => True
  | depth, ch :: cs => (ch = ')' → depth ≠ 1) ∧ KeepsOpen (depthAfter depth ch) cs

/-- One text after the other keeps a list open. -/
theorem KeepsOpen.append {depth : Nat} {t u : Text} (ht : KeepsOpen depth t)
    (hu : KeepsOpen (t.foldl depthAfter depth) u) : KeepsOpen depth (t ++ u) := by
  induction t generalizing depth with
  | nil => exact hu
  | cons ch t ih => exact ⟨ht.1, ih ht.2 hu⟩

/-- A text without parentheses leaves their number as it is. -/
theorem keepsOpen_of_plain {t : Text} (ht : ∀ ch ∈ t, ch ≠ '(' ∧ ch ≠ ')') (depth : Nat) :
    KeepsOpen depth t ∧ t.foldl depthAfter depth = depth := by
  induction t with
  | nil => exact ⟨trivial, rfl⟩
  | cons ch t ih =>
    obtain ⟨hopen, hclose⟩ := ht ch (.head t)
    have hsame : depthAfter depth ch = depth := by
      unfold depthAfter
      rw [if_neg hopen, if_neg hclose]
    obtain ⟨hkeeps, hdepth⟩ := ih fun x hx => ht x (.tail ch hx)
    refine ⟨⟨fun heq => absurd heq hclose, ?_⟩, ?_⟩
    · rwa [hsame]
    · rwa [List.foldl_cons, hsame]

/-- A text that keeps the list open goes to the parameters. -/
theorem readText_inParams {depth : Nat} {t : Text} (h : KeepsOpen depth t) (c : Candidate)
    (rest : Text) :
    readText policy file line doc (.inParams c depth) (t ++ rest) =
      readText policy file line doc (.inParams (c.addParams t) (t.foldl depthAfter depth))
        rest := by
  induction t generalizing c depth with
  | nil => rw [Candidate.addParams_nil, List.nil_append, List.foldl_nil]
  | cons ch t ih =>
    have hread : (State.inParams c depth).read file doc ch =
        (.inParams (c.addParams [ch]) (depthAfter depth ch), none) := by
      rw [State.read, if_neg fun hand => h.1 hand.1 hand.2]
      simp only [Candidate.push_params]
      unfold depthAfter
      split_ifs <;> rfl
    rw [List.cons_append, readText_step (by simp) hread, ih h.2, List.foldl_cons,
      ← Candidate.addParams_append, List.singleton_append]

/-- Text without parentheses is added to the parameters. -/
theorem readText_params {t : Text} (ht : ∀ ch ∈ t, ch ≠ '(' ∧ ch ≠ ')') (c : Candidate)
    (depth : Nat) (rest : Text) :
    readText policy file line doc (.inParams c depth) (t ++ rest) =
      readText policy file line doc (.inParams (c.addParams t) depth) rest := by
  obtain ⟨hkeeps, hsame⟩ := keepsOpen_of_plain ht depth
  rw [readText_inParams hkeeps, hsame]

/-- The end of the parameters and a semicolon complete the declaration. -/
theorem readText_end (c : Candidate) :
    readText policy file line doc (.inParams c 1) [')', ';'] = (.outside, [finish file c doc]) := by
  have hclose : (State.inParams c 1).read file doc ')' = (.afterParams c, none) := by
    rw [State.read, if_pos ⟨rfl, rfl⟩]
  have hsemi : (State.afterParams c).read file doc ';' = (.outside, some (finish file c doc)) := by
    rw [State.read, if_pos (.inl rfl)]
  rw [readText_step (by simp) hclose, readText_cons (by simp), hsemi, readText_nil]
  rfl

/-! ## Reading lines -/

/-- A line gives up what is too long, is read, and ends. -/
theorem feed_eq (s : State) (l : CodeLine) :
    feed policy file s l =
      ((readText policy file l.number l.comment (s.expire policy l.number).1 l.code).1.endLine,
        (s.expire policy l.number).2.toList ++
          (readText policy file l.number l.comment (s.expire policy l.number).1 l.code).2) := rfl

/-- The first line is read, and then the others. -/
theorem feedAll_cons (s : State) (l : CodeLine) (ls : List CodeLine) :
    feedAll policy file s (l :: ls) =
      ((feedAll policy file (feed policy file s l).1 ls).1,
        (feed policy file s l).2 ++ (feedAll policy file (feed policy file s l).1 ls).2) := rfl

/-- Further lines are read from the state behind the first ones. -/
theorem feedAll_append (s : State) (ls ms : List CodeLine) :
    feedAll policy file s (ls ++ ms) =
      ((feedAll policy file (feedAll policy file s ls).1 ms).1,
        (feedAll policy file s ls).2 ++
          (feedAll policy file (feedAll policy file s ls).1 ms).2) := by
  induction ls generalizing s with
  | nil => rfl
  | cons l ls ih =>
    rw [List.cons_append, feedAll_cons, feedAll_cons, ih, List.append_assoc]

/-- Outside declarations a line is read as it is: there is no declaration that could be too long. -/
theorem feed_outside (l : CodeLine) :
    feed policy file .outside l =
      ((readText policy file l.number l.comment .outside l.code).1.endLine,
        (readText policy file l.number l.comment .outside l.code).2) := rfl

/-- A line with one whole declaration gives one finding. -/
theorem feed_declaration {marker : String} {head params : Text} {comment : Option Text}
    (hmarker : marker ∈ policy.markers) (hall : ∀ m ∈ policy.markers, isIdentifier m.toList)
    (hhead : ∀ ch ∈ head, endsHead ch = false) (hends : EndsIdent (head ++ ['(']))
    (hattribute : String.ofList (trailingWord head) ∉ attributeMacros)
    (hparams : ∀ ch ∈ params, ch ≠ '(' ∧ ch ≠ ')') :
    feed policy file .outside
        ⟨line, marker.toList ++ (head ++ '(' :: (params ++ [')', ';'])), comment⟩ =
      (.outside, [finish file ⟨line, String.ofList head, String.ofList params⟩ comment]) := by
  have hends' : EndsIdent (head ++ '(' :: (params ++ [')', ';'])) := by
    cases head <;> exact hends
  -- What is collected in two steps is the head and the parameters as they are written.
  have hcollected : (({ line } : Candidate).addHead head).addParams params =
      ⟨line, String.ofList head, String.ofList params⟩ := by
    unfold Candidate.addHead Candidate.addParams
    simp
  have hattribute' :
      String.ofList (trailingWord (({ line } : Candidate).addHead head).head.toList) ∉
        attributeMacros := by
    unfold Candidate.addHead
    simpa using hattribute
  -- The marker, the head, the parenthesis, the parameters and the end are read in turn.
  have hread : readText policy file line comment .outside
      (marker.toList ++ (head ++ '(' :: (params ++ [')', ';']))) =
        (.outside, [finish file ⟨line, String.ofList head, String.ofList params⟩ comment]) := by
    rw [readText_outside (by simp) (afterMarker?_append hmarker hall hends'), readText_head hhead,
      readText_opening hattribute', readText_params hparams, readText_end, hcollected]
  rw [feed_outside, hread]
  rfl

end NativeBindings.Scanner
