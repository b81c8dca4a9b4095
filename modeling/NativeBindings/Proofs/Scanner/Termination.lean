import NativeBindings.Config.OfToml
import NativeBindings.Proofs.Scanner.Marker

/-!
# Whether a line comes to its end

Two loops read a line: the search for a word, and around it the reading, which outside declarations
takes the next marker without promising that any text goes with it. `Text.Searches` and `ReadsText`
say what these loops come to, round by round, with nothing assumed about their end. A search ends
unless the word is empty and does not stand alone (`Text.exists_searches_iff`): every other round of
it leaves a shorter text. So reading ends for every policy whose markers are not empty
(`readsText_readText`). The empty word as a marker is taken wherever it stands alone, which is in
front of every character outside declarations that belongs to no identifier, and the search for it
goes on forever in front of every one that does (`exists_readsText_iff`).
-/

namespace NativeBindings

namespace Text

/-! ## Searching -/

/-- What the search for a word in `rest` comes to, where `past` is the text already passed. -/
inductive Searches (word : Text) : Text → Text → Option (Text × Text) → Prop
  /-- The word does not occur. -/
  | absent {past rest : Text} (h : splitFirst? word rest = none) : Searches word past rest none
  /-- Its first occurrence stands alone. -/
  | found {past rest skipped after : Text} (h : splitFirst? word rest = some (skipped, after))
      (halone : standsAlone (past ++ skipped) after) :
      Searches word past rest (some (past ++ skipped, after))
  /-- Its first occurrence does not, and the search goes on behind it. -/
  | passed {past rest skipped after : Text} {found : Option (Text × Text)}
      (h : splitFirst? word rest = some (skipped, after))
      (hnot : standsAlone (past ++ skipped) after = false)
      (hnext : Searches word (past ++ skipped ++ word) after found) :
      Searches word past rest found

variable {word past rest : Text} {found : Option (Text × Text)}

theorem splitFirst?_nil (t : Text) : splitFirst? [] t = some ([], t) := by
  cases t <;> rfl

/-- The search for a word that is not empty ends. -/
theorem searches_findWordAfter (hword : word ≠ []) (past rest : Text) :
    Searches word past rest (findWordAfter word past rest) := by
  fun_induction findWordAfter word past rest with
  | case1 past rest hnone => exact .absent hnone
  | case2 past rest skipped after hfirst halone => exact .found hfirst halone
  | case3 past rest skipped after hfirst hnot hempty => exact absurd hempty hword
  | case4 past rest skipped after hfirst hnot hne hshorter ih =>
    exact .passed hfirst (by simpa using hnot) ih

/-- A search that ends gives what is found. -/
theorem Searches.eq (h : Searches word past rest found) :
    findWordAfter word past rest = found := by
  induction h with
  | absent h => exact findWordAfter_of_none h
  | found h halone => rw [findWordAfter_of_some h, if_pos halone]
  | @passed past rest skipped after found h hnot hnext ih =>
    by_cases hword : word = []
    · -- The search came back to the same text.
      subst hword
      rw [splitFirst?_nil] at h
      cases h
      rwa [List.append_nil, List.append_nil] at ih
    · rw [findWordAfter_of_some h, if_neg (by simp [hnot]), if_neg hword]
      exact ih

/-- The empty word occurs first where a text starts, so the search for it ends when it stands alone
there, and comes back to the same text when it does not. -/
theorem Searches.standsAlone (h : Searches [] past rest found) :
    Text.standsAlone past rest := by
  induction h with
  | absent h =>
    rw [splitFirst?_nil] at h
    cases h
  | found h halone =>
    rw [splitFirst?_nil] at h
    cases h
    rwa [List.append_nil] at halone
  | passed h hnot hnext ih =>
    rw [splitFirst?_nil] at h
    cases h
    rwa [List.append_nil, List.append_nil] at ih

/-- The search for a word ends, unless the word is empty and does not stand alone. -/
theorem exists_searches_iff :
    (∃ found, Searches word past rest found) ↔ word ≠ [] ∨ Text.standsAlone past rest := by
  by_cases hword : word = []
  · subst hword
    refine ⟨fun ⟨found, h⟩ => .inr h.standsAlone, fun h => ?_⟩
    have halone := h.resolve_left fun hne => hne rfl
    exact ⟨_, .found (splitFirst?_nil rest) (by rwa [List.append_nil])⟩
  · exact iff_of_true ⟨_, searches_findWordAfter hword past rest⟩ (.inl hword)

end Text

namespace Scanner

variable {policy : ScanPolicy} {file : Path} {line : Nat} {doc : Option Text} {s : State}
  {text : Text} {r : State × List Finding}

/-! ## Reading -/

/-- The searches for all markers in a text end. They are made before one of the markers is taken. -/
def SearchesEnd (policy : ScanPolicy) (text : Text) : Prop :=
  ∀ marker ∈ policy.markers, ∃ found, Text.Searches marker.toList [] text found

/-- What the reading of a text comes to: the state behind it and the findings in it. -/
inductive ReadsText (policy : ScanPolicy) (file : Path) (line : Nat) (doc : Option Text) :
    State → Text → State × List Finding → Prop
  /-- Nothing is left. -/
  | done (s : State) : ReadsText policy file line doc s [] (s, [])
  /-- Outside declarations no marker is left. -/
  | unmarked {c : Char} {cs : Text} (hends : SearchesEnd policy (c :: cs))
      (h : afterMarker? policy (c :: cs) = none) :
      ReadsText policy file line doc .outside (c :: cs) (.outside, [])
  /-- Outside declarations reading goes on behind the next marker. -/
  | marked {c : Char} {cs rest : Text} {r : State × List Finding}
      (hends : SearchesEnd policy (c :: cs)) (h : afterMarker? policy (c :: cs) = some rest)
      (hrest : ReadsText policy file line doc (.inHead { line }) rest r) :
      ReadsText policy file line doc .outside (c :: cs) r
  /-- Inside a declaration the next character is read. -/
  | char {s : State} {c : Char} {cs : Text} {r : State × List Finding} (hs : s ≠ .outside)
      (hrest : ReadsText policy file line doc (s.read file doc c).1 cs r) :
      ReadsText policy file line doc s (c :: cs) (r.1, (s.read file doc c).2.toList ++ r.2)

/-- What feeding a line comes to. -/
def FeedsLine (policy : ScanPolicy) (file : Path) (s : State) (l : CodeLine)
    (r : State × List Finding) : Prop :=
  ∃ read, ReadsText policy file l.number l.comment (s.expire policy l.number).1 l.code read ∧
    r = (read.1.endLine, (s.expire policy l.number).2.toList ++ read.2)

/-- All searches end when the empty word is no marker, or stands alone. -/
theorem searchesEnd_iff : SearchesEnd policy text ↔ "" ∈ policy.markers → EndsIdent text := by
  unfold SearchesEnd
  simp only [Text.exists_searches_iff, ne_eq, String.toList_eq_nil_iff, Text.standsAlone_nil_iff]
  constructor
  · exact fun h hempty => (h "" hempty).resolve_left fun hne => hne rfl
  · exact fun h marker hmarker => or_iff_not_imp_left.2 fun heq => h (not_not.1 heq ▸ hmarker)

/-- What is read to the end is what `readText` reads. -/
theorem ReadsText.eq (h : ReadsText policy file line doc s text r) :
    readText policy file line doc s text = r := by
  induction h with
  | done s => exact readText_nil s
  | unmarked _ h => exact readText_outside_none h
  | marked _ h _ ih => rw [readText_outside (List.cons_ne_nil _ _) h, ih]
  | char hs _ ih => rw [readText_cons hs, ih]

/-- Without an empty marker each search ends, and behind each marker taken a declaration is read,
which takes a character each time. -/
theorem readsText_readText (hempty : "" ∉ policy.markers) (s : State) (text : Text) :
    ReadsText policy file line doc s text (readText policy file line doc s text) := by
  have hends : ∀ text, SearchesEnd policy text := fun text =>
    searchesEnd_iff.2 fun hmem => absurd hmem hempty
  fun_induction readText policy file line doc s text with
  | case1 s => exact .done s
  | case2 c cs hnone => exact .unmarked (hends _) hnone
  | case3 c cs rest hsome hshorter ih => exact .marked (hends _) hsome ih
  | case4 s c cs hs s' found hread s'' more hrest ih =>
    rw [hrest] at ih
    have hchar := ReadsText.char (r := (s'', more)) hs (by rwa [hread])
    rwa [hread] at hchar

/-! ## The empty word as a marker -/

/-- Of two marks at one place the earlier one is no longer than the other. -/
theorem Mark.length_earlier_le (a b : Mark) :
    (a.start ≤ (a.earlier b).start → (a.earlier b).length ≤ a.length) ∧
      (b.start ≤ (a.earlier b).start → (a.earlier b).length ≤ b.length) := by
  unfold Mark.earlier
  split <;> omega

/-- Of several marks the earliest is no longer than another one at its place. -/
theorem Mark.length_foldl_earlier_le {m x : Mark} {ms : List Mark} (hx : x ∈ m :: ms)
    (hstart : x.start ≤ (ms.foldl Mark.earlier m).start) :
    (ms.foldl Mark.earlier m).length ≤ x.length := by
  induction ms generalizing m x with
  | nil =>
    rw [List.mem_singleton.1 hx]
    exact le_refl _
  | cons b ms ih =>
    rw [List.foldl_cons] at hstart ⊢
    obtain ⟨-, hm, hb⟩ := m.earlier_spec b
    obtain ⟨hlengthm, hlengthb⟩ := m.length_earlier_le b
    have hfirst := (Mark.foldl_earlier_spec (m.earlier b) ms).2 _ (.head _)
    rcases List.mem_cons.1 hx with rfl | hx
    · exact (ih (.head _) (hm.trans hstart)).trans (hlengthm (hstart.trans hfirst))
    rcases List.mem_cons.1 hx with rfl | hx
    · exact (ih (.head _) (hb.trans hstart)).trans (hlengthb (hstart.trans hfirst))
    · exact ih (.tail _ hx) hstart

section Empty

variable (hempty : "" ∈ policy.markers)

include hempty

/-- Where the empty word stands alone it is taken, and no text with it. -/
theorem afterMarker?_of_empty {text : Text} (htext : EndsIdent text) :
    afterMarker? policy text = some text := by
  -- The empty word is found at the start of the text.
  have hfound : Mark.find? text "" = some ⟨0, 0, text⟩ := by
    have hword : Text.findWord? [] text = some ([], text) := Text.findWord?_append htext
    unfold Mark.find?
    rw [show "".toList = [] from rfl, hword]
    rfl
  have hmem : ⟨0, 0, text⟩ ∈ policy.markers.filterMap (Mark.find? text) :=
    List.mem_filterMap.2 ⟨"", hempty, hfound⟩
  unfold afterMarker?
  cases hmarks : policy.markers.filterMap (Mark.find? text) with
  | nil =>
    rw [hmarks] at hmem
    cases hmem
  | cons m ms =>
    -- The mark taken starts where the text does and is as short as the empty word.
    rw [hmarks] at hmem
    obtain ⟨htaken, hle⟩ := Mark.foldl_earlier_spec m ms
    have hstart := Nat.le_zero.1 (hle _ hmem)
    have hlength := Nat.le_zero.1 (Mark.length_foldl_earlier_le hmem (Nat.zero_le _))
    rw [← hmarks] at htaken
    obtain ⟨marker, -, hmarker⟩ := List.mem_filterMap.1 htaken
    obtain ⟨before, hbefore, hsplit, -⟩ := Mark.find?_spec hmarker
    rw [hstart, List.length_eq_zero_iff] at hbefore
    have hword : marker = "" := by
      obtain ⟨_, -, heq⟩ := Option.map_eq_some_iff.1 hmarker
      rw [← heq] at hlength
      exact String.length_eq_zero_iff.1 hlength
    rw [hbefore, hword] at hsplit
    exact congrArg some hsplit.symm

/-- With the empty word among the markers a character outside declarations begins one, unless it
belongs to an identifier. -/
theorem readsText_cons_iff_of_empty {c : Char} {cs : Text} :
    ReadsText policy file line doc s (c :: cs) r ↔
      ¬(s = .outside ∧ isIdentChar c) ∧ ∃ read,
        ReadsText policy file line doc
          ((if s = .outside then .inHead { line } else s).read file doc c).1 cs read ∧
        r = (read.1,
          ((if s = .outside then .inHead { line } else s).read file doc c).2.toList ++ read.2) := by
  have hhead : State.inHead { line } ≠ .outside := by simp
  have hends : EndsIdent (c :: cs) ↔ ¬isIdentChar c := by
    unfold EndsIdent
    simp
  constructor
  · intro h
    cases h with
    | unmarked hsearch h =>
      have halone := searchesEnd_iff.1 hsearch hempty
      rw [afterMarker?_of_empty hempty halone] at h
      cases h
    | marked hsearch h hrest =>
      have halone := searchesEnd_iff.1 hsearch hempty
      rw [afterMarker?_of_empty hempty halone] at h
      cases h
      -- The declaration begins with the character.
      cases hrest with
      | char _ hrest =>
        rw [if_pos rfl]
        exact ⟨fun hand => hends.1 halone hand.2, _, hrest, rfl⟩
    | char hs hrest =>
      rw [if_neg hs]
      exact ⟨fun hand => hs hand.1, _, hrest, rfl⟩
  · -- Outside declarations the marker comes first, and then the character in the head it opens.
    rintro ⟨hnot, read, hread, rfl⟩
    by_cases hs : s = .outside
    · subst hs
      have halone : EndsIdent (c :: cs) := hends.2 fun hc => hnot ⟨rfl, hc⟩
      rw [if_pos rfl] at hread ⊢
      exact .marked (searchesEnd_iff.2 fun _ => halone) (afterMarker?_of_empty hempty halone)
        (.char hhead hread)
    · rw [if_neg hs] at hread ⊢
      exact .char hs hread

/-- Reading ends unless the scanner comes to stand outside declarations in front of an identifier
character. -/
theorem exists_readsText_iff_of_empty (s : State) (text : Text) :
    (∃ r, ReadsText policy file line doc s text r) ↔
      ¬∃ before c rest found, text = before ++ c :: rest ∧ isIdentChar c ∧
        ReadsText policy file line doc s before (.outside, found) := by
  induction text generalizing s with
  | nil => exact iff_of_true ⟨_, .done s⟩ (by simp)
  | cons c cs ih =>
    by_cases hstuck : s = .outside ∧ isIdentChar c
    · refine iff_of_false (fun ⟨r, h⟩ => ?_) (not_not.2 ?_)
      · exact ((readsText_cons_iff_of_empty hempty).1 h).1 hstuck
      · exact ⟨[], c, cs, [], rfl, hstuck.2, hstuck.1 ▸ .done s⟩
    · -- Otherwise the character is read, and reading ends exactly when it does behind it.
      have hstep : (∃ r, ReadsText policy file line doc s (c :: cs) r) ↔
          ∃ r, ReadsText policy file line doc
            ((if s = .outside then .inHead { line } else s).read file doc c).1 cs r := by
        constructor
        · rintro ⟨r, h⟩
          obtain ⟨-, read, hread, -⟩ := (readsText_cons_iff_of_empty hempty).1 h
          exact ⟨read, hread⟩
        · rintro ⟨read, hread⟩
          exact ⟨_, (readsText_cons_iff_of_empty hempty).2 ⟨hstuck, read, hread, rfl⟩⟩
      rw [hstep, ih, not_iff_not]
      constructor
      · -- The place where it does not go on lies behind the character in both.
        rintro ⟨before, d, rest, found, rfl, hd, hbefore⟩
        exact ⟨c :: before, d, rest, _, rfl, hd,
          (readsText_cons_iff_of_empty hempty).2 ⟨hstuck, _, hbefore, rfl⟩⟩
      · rintro ⟨before, d, rest, found, hsplit, hd, hbefore⟩
        cases before with
        | nil =>
          -- The scanner does not stand there yet.
          obtain ⟨rfl, -⟩ := List.cons.inj hsplit
          cases hbefore
          exact absurd ⟨rfl, hd⟩ hstuck
        | cons e before =>
          obtain ⟨rfl, hrest⟩ := List.cons.inj hsplit
          obtain ⟨-, read, hread, heq⟩ := (readsText_cons_iff_of_empty hempty).1 hbefore
          obtain ⟨hstate, -⟩ := Prod.mk.inj heq
          rw [← Prod.eta read, ← hstate] at hread
          exact ⟨before, d, rest, read.2, hrest, hd, hread⟩

end Empty

/-- Reading a text goes on forever exactly when the empty word is a marker and the scanner comes to
stand outside declarations in front of an identifier character. -/
theorem exists_readsText_iff :
    (∃ r, ReadsText policy file line doc s text r) ↔
      ¬("" ∈ policy.markers ∧ ∃ before c rest found, text = before ++ c :: rest ∧ isIdentChar c ∧
        ReadsText policy file line doc s before (.outside, found)) := by
  by_cases hempty : "" ∈ policy.markers
  · rw [exists_readsText_iff_of_empty hempty]
    simp [hempty]
  · exact iff_of_true ⟨_, readsText_readText hempty s text⟩ fun h => hempty h.1

/-- So does feeding a line. -/
theorem exists_feedsLine_iff {l : CodeLine} :
    (∃ r, FeedsLine policy file s l r) ↔
      ¬("" ∈ policy.markers ∧ ∃ before c rest found, l.code = before ++ c :: rest ∧
        isIdentChar c ∧ ReadsText policy file l.number l.comment (s.expire policy l.number).1
          before (.outside, found)) := by
  rw [← exists_readsText_iff]
  exact ⟨fun ⟨_, read, hread, _⟩ => ⟨read, hread⟩, fun ⟨read, hread⟩ => ⟨_, read, hread, rfl⟩⟩

/-- What is fed to the end is what `feed` reads. -/
theorem FeedsLine.eq {l : CodeLine} (h : FeedsLine policy file s l r) :
    feed policy file s l = r := by
  obtain ⟨read, hread, rfl⟩ := h
  rw [feed_eq, hread.eq]

/-! ## When scanning ends -/

/-- The search for a word ends unless the word is empty and the text begins with an identifier
character, and gives what is found. Feeding ends for every line exactly when no marker is empty;
with an empty one it goes on forever where the scanner comes to stand outside declarations in front
of an identifier character. -/
theorem scanning_ends_iff (policy : ScanPolicy) :
    (∀ word text : Text,
        ((∃ found, Text.Searches word [] text found) ↔ word ≠ [] ∨ EndsIdent text) ∧
          ∀ found, Text.Searches word [] text found → Text.findWord? word text = found) ∧
      ((∀ file s l, ∃ r, FeedsLine policy file s l r) ↔ "" ∉ policy.markers) ∧
      ∀ file s l, (∀ r, FeedsLine policy file s l r → feed policy file s l = r) ∧
        ((∃ r, FeedsLine policy file s l r) ↔
          ¬("" ∈ policy.markers ∧ ∃ before c rest found, l.code = before ++ c :: rest ∧
            isIdentChar c ∧ ReadsText policy file l.number l.comment
              (s.expire policy l.number).1 before (.outside, found))) := by
  refine ⟨fun word text => ⟨?_, fun found h => h.eq⟩,
    ⟨fun hends hempty => ?_, fun hempty file s l => ?_⟩,
    fun file s l => ⟨fun r h => h.eq, exists_feedsLine_iff⟩⟩
  · rw [Text.exists_searches_iff, Text.standsAlone_nil_iff]
  · -- A line that is an identifier is never read to its end.
    exact exists_feedsLine_iff.1 (hends ⟨"f.h"⟩ .outside ⟨1, ['a'], none⟩)
      ⟨hempty, [], 'a', [], [], rfl, by decide, .done _⟩
  · exact exists_feedsLine_iff.2 fun h => hempty h.1

/-- A configuration may make the empty word a marker. Then no line that begins with an identifier is
ever read to its end, for the search for that marker is not. -/
theorem empty_marker_hangs :
    ((Config.ofToml? "[scan]\nmarkers = [\"\"]".toList).map (·.scanPolicy.markers)) = some [""] ∧
      (¬∃ found, Text.Searches "".toList [] "int F(int a);".toList found) ∧
      ¬∃ r, FeedsLine { markers := [""] } ⟨"f.h"⟩ .outside
        ⟨1, "int F(int a);".toList, none⟩ r := by
  refine ⟨by decide +kernel, ?_, ?_⟩
  · rw [Text.exists_searches_iff]
    decide
  · rw [exists_feedsLine_iff, not_not]
    exact ⟨by decide, [], 'i', "nt F(int a);".toList, [], rfl, by decide, .done _⟩

end Scanner

end NativeBindings
