import NativeBindings.Proofs.Scanner.Head
import NativeBindings.Proofs.Scanner.OpenList

/-!
# What a malformed declaration costs

A declaration that does not end stays open, and the lines behind it are read as more of it until the
lookahead gives it up. How much of them is lost depends on where the scanner is. In a head a further
prototype is still found, because the name of a function is the last word of its head, whatever
stands in front (`Prototype.WellFormed.feed_inHead`). With parentheses open the prototype is read
into the list, and its own parentheses match each other, so as many stay open as before
(`Prototype.WellFormed.keepsOpen`). Every state that a run reaches is one of these kinds, which
`feedAll_recovers` puts together.
-/

namespace NativeBindings

namespace Prototype

open Scanner

variable {p : Prototype} {policy : ScanPolicy} {marker : String} {file : Path} {line : Nat}
  {doc : Option Text}

/-- Neither parenthesis stands in the head. -/
theorem WellFormed.head_plain (h : p.WellFormed) {c : Char} (hc : c ∈ p.head) :
    c ≠ '(' ∧ c ≠ ')' := by
  constructor
  · exact ne_of_mem_of_not_mem hc (h.not_mem_head (by decide) (by decide) (by decide))
  · exact ne_of_mem_of_not_mem hc (h.not_mem_head (by decide) (by decide) (by decide))

/-- A prototype in a list keeps the list open, as it was before. -/
theorem WellFormed.keepsOpen (h : p.WellFormed) (hmarker : isIdentifier marker.toList)
    {depth : Nat} (hdepth : 1 ≤ depth) :
    KeepsOpen depth (p.text marker) ∧ (p.text marker).foldl depthAfter depth = depth := by
  have hident := (allIdent_of_isIdentifier hmarker).2
  -- The marker and the head have no parentheses, and those of the parameters match.
  have hfront : ∀ c ∈ marker.toList ++ p.head, c ≠ '(' ∧ c ≠ ')' := by
    intro c hc
    rcases List.mem_append.1 hc with hc | hc
    · exact ⟨ne_of_mem_of_not_mem hc (hident.not_mem (by decide)),
        ne_of_mem_of_not_mem hc (hident.not_mem (by decide))⟩
    · exact h.head_plain hc
  have htext : p.text marker = marker.toList ++ p.head ++ ('(' :: p.params ++ [')', ';']) := by
    unfold text
    simp only [List.append_assoc, List.cons_append]
  obtain ⟨hkeeps, hsame⟩ := keepsOpen_of_plain hfront depth
  obtain ⟨hkeeps', hsame'⟩ := keepsOpen_of_plain (fun c hc => h.params_plain hc) (depth + 1)
  -- The list of the prototype is one parenthesis deeper, and closes again.
  have hopening : ('(' :: p.params).foldl depthAfter depth = depth + 1 := hsame'
  have hclosing : KeepsOpen (depth + 1) [')', ';'] :=
    ⟨fun _ => by omega, fun heq => absurd heq (by decide), trivial⟩
  have hlist : KeepsOpen depth ('(' :: p.params ++ [')', ';']) := by
    refine KeepsOpen.append ⟨fun heq => absurd heq (by decide), hkeeps'⟩ ?_
    rwa [hopening]
  rw [htext]
  refine ⟨hkeeps.append (by rwa [hsame]), ?_⟩
  rw [List.foldl_append, hsame, List.foldl_append, hopening]
  rfl

/-- In the head of a declaration a prototype completes it, with what the head holds in front. -/
theorem WellFormed.readText_inHead (h : p.WellFormed) {t : Text}
    (ht : ∀ c ∈ t, endsHead c = false) {c : Candidate} (hc : c.params = "") :
    readText policy file line doc (.inHead c) (t ++ (p.head ++ '(' :: (p.params ++ [')', ';']))) =
      (.outside, [finish file
        ⟨c.line, c.head ++ String.ofList (t ++ p.head), String.ofList p.params⟩ doc]) := by
  obtain ⟨hne, hident⟩ := allIdent_of_isIdentifier h.ident
  -- Nothing up to the parenthesis ends the head.
  have hhead : ∀ x ∈ t ++ p.head, endsHead x = false := by
    intro x hx
    rcases List.mem_append.1 hx with hx | hx
    · exact ht x hx
    · exact h.endsHead_eq_false hx
  -- The last word of the head is the name, which is no attribute macro.
  have hname : trailingWord (c.addHead (t ++ p.head)).head.toList = p.name := by
    have hsplit : (c.addHead (t ++ p.head)).head.toList =
        (c.head.toList ++ (t ++ ' ' :: p.returnType)) ++ ' ' :: p.name := by
      unfold Candidate.addHead head
      simp
    rw [hsplit]
    exact trailingWord_append hne hident _
  have hattribute : String.ofList (trailingWord (c.addHead (t ++ p.head)).head.toList) ∉
      attributeMacros := by
    rw [hname]
    exact h.notAttribute
  have hcollected : (c.addHead (t ++ p.head)).addParams p.params =
      ⟨c.line, c.head ++ String.ofList (t ++ p.head), String.ofList p.params⟩ := by
    unfold Candidate.addHead Candidate.addParams
    simp [hc]
  -- The head, the parenthesis, the parameters and the end of the prototype, one after the other.
  rw [← List.append_assoc, readText_head hhead, readText_opening hattribute,
    readText_params (fun x hx => h.params_plain hx), readText_end, hcollected]

/-- Outside declarations the line of a prototype gives the prototype. -/
theorem WellFormed.readText_outside (h : p.WellFormed)
    (hall : ∀ m ∈ policy.markers, isIdentifier m.toList) (hmarker : marker ∈ policy.markers) :
    readText policy file line doc .outside (p.text marker) =
      (.outside, [.declared (p.declaration ⟨file, line⟩ doc)]) := by
  have hends : EndsIdent (p.head ++ '(' :: (p.params ++ [')', ';'])) := by
    intro c hc
    obtain rfl : ' ' = c := Option.some.inj hc
    decide
  have hread : readText policy file line doc (.inHead { line })
      (p.head ++ '(' :: (p.params ++ [')', ';'])) =
        (.outside, [finish file ⟨line, "" ++ String.ofList p.head, String.ofList p.params⟩ doc]) :=
    h.readText_inHead (t := []) (fun _ hc => absurd hc List.not_mem_nil) rfl
  have hfinish : finish file ⟨line, "" ++ String.ofList p.head, String.ofList p.params⟩ doc =
      .declared (p.declaration ⟨file, line⟩ doc) := by
    unfold finish
    simp only [String.empty_append, String.toList_ofList, h.read]
  unfold text
  rw [Scanner.readText_outside (by simp) (afterMarker?_append hmarker hall hends), hread, hfinish]

/-- In the head of a declaration the line of a prototype gives a function with its name and its
parameters, at the place of that declaration. -/
theorem WellFormed.feed_inHead (h : p.WellFormed) (hmarker : isIdentifier marker.toList)
    {c : Candidate} (hc : c.params = "") (hlate : line - c.line < policy.lookahead) :
    ∃ d, feed policy file (.inHead c) ⟨line, p.text marker, doc⟩ = (.outside, [.declared d]) ∧
      d.location = ⟨file, c.line⟩ ∧ d.name = String.ofList p.name ∧
        d.params = p.formals.map Formal.parameter := by
  have hident : ∀ x ∈ marker.toList, endsHead x = false := by
    intro x hx
    exact endsHead_of_isIdentChar ((allIdent_of_isIdentifier hmarker).2 x hx)
  -- The text in front of the prototype is read as more of its return type.
  obtain ⟨d, hread, hname, hparams⟩ :=
    h.read_behind (c.head.toList ++ marker.toList) ⟨file, c.line⟩ doc
  have hfinish : finish file
      ⟨c.line, c.head ++ String.ofList (marker.toList ++ p.head), String.ofList p.params⟩ doc =
        .declared d := by
    unfold finish
    rw [String.toList_append, String.toList_ofList, String.toList_ofList, ← List.append_assoc,
      hread]
  refine ⟨d, ?_, Declaration.location_of_read hread, hname, hparams⟩
  rw [feed_eq, State.expire_of_lt rfl hlate]
  unfold text
  rw [h.readText_inHead hident hc, hfinish]
  rfl

/-- Behind the parameters of a declaration the line of a prototype, when it has no other marker,
ends that declaration with a warning, and nothing more is found. -/
theorem WellFormed.feed_afterParams (h : p.WellFormed) (hmarker : isIdentifier marker.toList)
    (hone : ∀ before rest, MarkerBetween policy (p.text marker) before rest → before = [])
    {c : Candidate} (hlate : line - c.line < policy.lookahead) :
    feed policy file (.afterParams c) ⟨line, p.text marker, doc⟩ =
      (.outside, [.skipped c.line .badEnd]) := by
  have hfront : ∀ x ∈ marker.toList ++ p.head, endsHead x = false := by
    intro x hx
    rcases List.mem_append.1 hx with hx | hx
    · exact endsHead_of_isIdentChar ((allIdent_of_isIdentifier hmarker).2 x hx)
    · exact h.endsHead_eq_false hx
  have htext : p.text marker = (marker.toList ++ p.head) ++ '(' :: (p.params ++ [')', ';']) := by
    unfold text
    rw [List.append_assoc]
  -- The earlier declaration ends at the latest where the list of the prototype opens.
  obtain ⟨past, ch, u, hsplit, hch, hread⟩ : ∃ past ch u, p.text marker = past ++ ch :: u ∧
      isIdentChar ch = false ∧ ∀ c, readText policy file line doc (.afterParams c) (p.text marker) =
        ((readText policy file line doc .outside u).1,
          .skipped c.line .badEnd :: (readText policy file line doc .outside u).2) := by
    rw [htext]
    exact readText_afterParams hfront _
  -- A marker in the rest would be a further one of the line.
  have hnone : readText policy file line doc .outside u = (.outside, []) := by
    cases hafter : afterMarker? policy u with
    | none => exact readText_outside_none hafter
    | some rest =>
      obtain ⟨before, hbetween⟩ := exists_markerBetween hafter
      have hline := hbetween.append_left (startsIdent_concat past hch)
      rw [← List.append_cons, ← hsplit] at hline
      have hempty := hone _ _ hline
      simp at hempty
  rw [feed_eq, State.expire_of_lt rfl hlate, hread c, hnone]
  rfl

/-- Where the lookahead gives up the open declaration, a line is read as it is outside. -/
theorem feed_of_late {s : State} {l : CodeLine} {c : Candidate} (hc : s.candidate? = some c)
    (hlate : policy.lookahead ≤ l.number - c.line) :
    feed policy file s l = ((feed policy file .outside l).1,
      .skipped c.line (.tooLong policy.lookahead) :: (feed policy file .outside l).2) := by
  rw [feed_eq, State.expire_of_le hc hlate, feed_outside]
  rfl

/-- The line of a prototype behind any lines. It gives the prototype where the scanner is outside
declarations, and where the open declaration is as old as the lookahead, which is given up with the
warning that it is too long. It gives a function with the name and the parameters of the prototype
in the head of an earlier declaration. With parentheses open it is read into their list and gives
nothing, and as many stay open. Behind the parameters of an earlier declaration it gives the warning
that this one does not end well. -/
theorem feedAll_recovers (hall : ∀ m ∈ policy.markers, isIdentifier m.toList)
    (hmarker : marker ∈ policy.markers) (h : p.WellFormed) (file : Path)
    (before after : List CodeLine) (number : Nat) (comment : Option Text) :
    let s := (feedAll policy file .outside before).1
    let line : CodeLine := ⟨number, p.text marker, comment⟩
    let found := declarations (feedAll policy file .outside (before ++ line :: after)).2
    (s = .outside ∨ (∃ c, s.candidate? = some c ∧ policy.lookahead ≤ number - c.line) →
      p.declaration ⟨file, number⟩ comment ∈ found) ∧
    (s = .outside → feed policy file s line =
      (.outside, [.declared (p.declaration ⟨file, number⟩ comment)])) ∧
    (∀ c, s.candidate? = some c → policy.lookahead ≤ number - c.line →
      feed policy file s line = (.outside, [.skipped c.line (.tooLong policy.lookahead),
        .declared (p.declaration ⟨file, number⟩ comment)])) ∧
    (∀ c, s = .inHead c →
      ∃ d ∈ found, d.name = String.ofList p.name ∧ d.params = p.formals.map Formal.parameter) ∧
    (∀ c depth, s = .inAttribute c depth ∨ s = .inParams c depth →
      number - c.line < policy.lookahead →
        ∃ s', feed policy file s line = (s', []) ∧ s'.line? = some c.line ∧
          s'.depth? = some depth) ∧
    ∀ c, s = .afterParams c → number - c.line < policy.lookahead →
      (∀ b r, MarkerBetween policy (p.text marker) b r → b = []) →
        feed policy file s line = (.outside, [.skipped c.line .badEnd]) := by
  intro s line found
  have hsound : s.Sound := State.Sound.feedAll (s := .outside) trivial before
  -- What the line gives is among what all lines give.
  have hfound : ∀ d, .declared d ∈ (feed policy file s line).2 → d ∈ found := by
    intro d hd
    refine List.mem_filterMap.2 ⟨.declared d, ?_, rfl⟩
    rw [feedAll_append]
    exact List.mem_append_right _ (List.mem_append_left _ hd)
  -- Outside declarations the line is read by itself.
  have houtside : s = .outside → feed policy file s line =
      (.outside, [.declared (p.declaration ⟨file, number⟩ comment)]) := by
    intro hs
    rw [hs, feed_outside, h.readText_outside hall hmarker]
    rfl
  -- Giving up the open declaration leads outside.
  have hlate : ∀ c, s.candidate? = some c → policy.lookahead ≤ number - c.line →
      feed policy file s line = (.outside, [.skipped c.line (.tooLong policy.lookahead),
        .declared (p.declaration ⟨file, number⟩ comment)]) := by
    intro c hc hnumber
    rw [feed_of_late hc hnumber, feed_outside, h.readText_outside hall hmarker]
    rfl
  refine ⟨?_, houtside, hlate, ?_, ?_, ?_⟩
  · -- Both times the prototype is among what the line gives.
    rintro (hs | ⟨c, hc, hnumber⟩)
    · apply hfound
      rw [houtside hs]
      exact .head []
    · apply hfound
      rw [hlate c hc hnumber]
      exact .tail _ (.head [])
  · -- In a head the prototype completes the earlier declaration, unless that is given up.
    intro c hs
    by_cases hnumber : policy.lookahead ≤ number - c.line
    · refine ⟨p.declaration ⟨file, number⟩ comment, hfound _ ?_, rfl, rfl⟩
      rw [hlate c (by rw [hs]; rfl) hnumber]
      exact .tail _ (.head [])
    · have hparams : c.params = "" := by
        rw [hs] at hsound
        exact hsound
      obtain ⟨d, hfeed, -, hname, hformals⟩ : ∃ d, feed policy file (.inHead c) line =
          (.outside, [.declared d]) ∧ d.location = ⟨file, c.line⟩ ∧
            d.name = String.ofList p.name ∧ d.params = p.formals.map Formal.parameter :=
        h.feed_inHead (hall marker hmarker) hparams (by omega)
      refine ⟨d, hfound d ?_, hname, hformals⟩
      rw [hs, hfeed]
      exact .head []
  · -- With parentheses open those of the prototype match each other.
    intro c depth hs hnumber
    have hopen : s.OpenAt c.line depth := by
      rcases hs with hs | hs <;> rw [hs] <;> exact ⟨rfl, rfl⟩
    have hdepth : 1 ≤ depth := by
      rcases hs with hs | hs
      · rw [hs] at hsound
        exact hsound.2
      · rw [hs] at hsound
        exact hsound
    obtain ⟨hkeeps, hsame⟩ := h.keepsOpen (hall marker hmarker) hdepth
    obtain ⟨s', hfeed, hline, hdepth'⟩ := hopen.feed (l := line) hkeeps hnumber
    refine ⟨s', hfeed, hline, ?_⟩
    rw [hdepth']
    exact congrArg some hsame
  · -- Behind parameters the marker can be no part of the declaration, which ends there.
    intro c hs hnumber hone
    rw [hs]
    exact h.feed_afterParams (hall marker hmarker) hone hnumber

/-- A prototype of one parameter, with plain words for its types. -/
theorem wellFormed_good :
    (⟨"void".toList, "Good".toList, [⟨"int".toList, "b".toList, []⟩]⟩ : Prototype).WellFormed := by
  refine ⟨.of_isIdentifier (by decide), ?_, by decide, ?_, by decide, ?_⟩
  · unfold IsPlain
    decide +kernel
  · unfold IsPlain
    decide
  · refine List.forall_mem_singleton.2 ⟨.of_isIdentifier (by decide), by decide, by decide, ?_⟩
    exact fun d hd => absurd hd List.not_mem_nil

/-- Behind a head that does not end, behind parameters that have been open for as many lines as the
lookahead says, and behind such that have been open for one line. -/
theorem feedAll_recovers_good :
    let p : Prototype := ⟨"void".toList, "Good".toList, [⟨"int".toList, "b".toList, []⟩]⟩
    let head : CodeLine := ⟨1, "RH_C_FUNCTION class Bad".toList, none⟩
    let params : CodeLine := ⟨1, "RH_C_FUNCTION void Bad(int a".toList, none⟩
    let line (number : Nat) : CodeLine := ⟨number, p.text "RH_C_FUNCTION", none⟩
    (∃ d ∈ declarations (feedAll {} ⟨"a.h"⟩ .outside [head, line 2]).2, d.name = "Good" ∧
      d.params = [⟨"int", "b"⟩]) ∧
    p.declaration ⟨⟨"a.h"⟩, 33⟩ none ∈
      declarations (feedAll {} ⟨"a.h"⟩ .outside [params, line 33]).2 ∧
    (feed {} ⟨"a.h"⟩ (feedAll {} ⟨"a.h"⟩ .outside [params]).1 (line 33)).2 =
      [.skipped 1 (.tooLong 32), .declared (p.declaration ⟨⟨"a.h"⟩, 33⟩ none)] ∧
    (feed {} ⟨"a.h"⟩ (feedAll {} ⟨"a.h"⟩ .outside [params]).1 (line 2)).2 = [] := by
  intro p head params line
  have hall : ∀ m ∈ ({} : ScanPolicy).markers, isIdentifier m.toList := by decide
  have hmarker : "RH_C_FUNCTION" ∈ ({} : ScanPolicy).markers := by decide
  have hrecovers (before : List CodeLine) (number : Nat) := feedAll_recovers hall hmarker
    wellFormed_good ⟨"a.h"⟩ before [] number none
  -- The states behind the two lines.
  have hhead : (feedAll {} ⟨"a.h"⟩ .outside [head]).1 = .inHead ⟨1, " class Bad ", ""⟩ := by
    decide +kernel
  have hparams : (feedAll {} ⟨"a.h"⟩ .outside [params]).1 =
      .inParams ⟨1, " void Bad", "int a "⟩ 1 := by decide +kernel
  have hcandidate : (feedAll {} ⟨"a.h"⟩ .outside [params]).1.candidate? =
      some ⟨1, " void Bad", "int a "⟩ := by rw [hparams]; rfl
  obtain ⟨hfound, -, hlate, -⟩ := hrecovers [params] 33
  obtain ⟨-, -, -, -, hopen, -⟩ := hrecovers [params] 2
  -- In the head, as late as the lookahead says, and one line behind the open parameters.
  refine ⟨(hrecovers [head] 2).2.2.2.1 _ hhead,
    hfound (.inr ⟨_, hcandidate, by decide⟩),
    congrArg Prod.snd (hlate _ hcandidate (by decide)), ?_⟩
  obtain ⟨s', hfeed, -, -⟩ := hopen _ 1 (.inr hparams) (by decide)
  exact congrArg Prod.snd hfeed

/-- A parameter list that is not closed on its line takes the next declaration with it: the only
thing that is found is the warning at the end of the file. -/
theorem feedAll_swallows_good :
    let p : Prototype := ⟨"void".toList, "Good".toList, [⟨"int".toList, "b".toList, []⟩]⟩
    let before : List CodeLine := [⟨1, "RH_C_FUNCTION void Bad(int a".toList, none⟩]
    let line : CodeLine := ⟨2, "RH_C_FUNCTION void Good(int b);".toList, none⟩
    p.WellFormed ∧ line.code = p.text "RH_C_FUNCTION" ∧ 1 ≤ ({} : ScanPolicy).lookahead ∧
      (¬∃ d ∈ declarations (feedAll {} ⟨"a.h"⟩ .outside (before ++ [line])).2, d.name = "Good") ∧
      (feedAll {} ⟨"a.h"⟩ .outside (before ++ [line])).1.atEnd = [.skipped 1 .endOfFile] := by
  intro p before line
  refine ⟨wellFormed_good, by decide +kernel, by decide, ?_, by decide +kernel⟩
  have hnone : declarations (feedAll {} ⟨"a.h"⟩ .outside (before ++ [line])).2 = [] := by
    decide +kernel
  rw [hnone]
  simp

end Prototype

end NativeBindings
