import NativeBindings.Proofs.Scanner.Reading
import NativeBindings.Proofs.Text.WordSearch

/-!
# Markers that stand alone

`MarkerBetween` says where a marker of a policy stands alone in a text. What the scanner takes for
a marker is one (`exists_markerBetween`), and it still is one in a longer text when an identifier
may start where the searched part starts (`MarkerBetween.append_left`). When all markers are
identifiers the scanner takes the first of them that stands alone (`afterMarker?_eq_some_iff`).
-/

namespace NativeBindings.Scanner

variable {policy : ScanPolicy}

/-- A marker stands alone in a text, with `before` in front of it and `rest` behind it. -/
def MarkerBetween (policy : ScanPolicy) (text before rest : Text) : Prop :=
  ∃ m ∈ policy.markers, text = before ++ m.toList ++ rest ∧ Text.standsAlone before rest

/-- A mark that is found is a marker that stands alone. -/
theorem Mark.find?_spec {text : Text} {marker : String} {mark : Mark}
    (h : Mark.find? text marker = some mark) :
    ∃ before, before.length = mark.start ∧ text = before ++ marker.toList ++ mark.rest ∧
      Text.standsAlone before mark.rest := by
  obtain ⟨⟨before, after⟩, hfind, rfl⟩ := Option.map_eq_some_iff.1 h
  exact ⟨before, rfl, Text.standsAlone_of_findWord? hfind⟩

/-- What the scanner takes is one of the marks found, and none of them starts earlier. -/
theorem exists_mark_of_afterMarker? {text rest : Text} (h : afterMarker? policy text = some rest) :
    ∃ mark ∈ policy.markers.filterMap (Mark.find? text), mark.rest = rest ∧
      ∀ x ∈ policy.markers.filterMap (Mark.find? text), mark.start ≤ x.start := by
  unfold afterMarker? at h
  split at h
  · cases h
  · rename_i mark marks hmarks
    obtain ⟨hmem, hle⟩ := Mark.foldl_earlier_spec mark marks
    rw [← hmarks] at hmem hle
    exact ⟨_, hmem, Option.some.inj h, hle⟩

/-- The scanner takes a marker that stands alone. -/
theorem exists_markerBetween {text rest : Text} (h : afterMarker? policy text = some rest) :
    ∃ before, MarkerBetween policy text before rest := by
  obtain ⟨mark, hmark, rfl, -⟩ := exists_mark_of_afterMarker? h
  obtain ⟨m, hm, hfind⟩ := List.mem_filterMap.1 hmark
  obtain ⟨before, -, hsplit, halone⟩ := Mark.find?_spec hfind
  exact ⟨before, m, hm, hsplit, halone⟩

/-- A marker that stands alone in the rest of a text stands alone in the text, when an identifier
may start where the rest starts. -/
theorem MarkerBetween.append_left {past text before rest : Text}
    (h : MarkerBetween policy text before rest) (hpast : StartsIdent past) :
    MarkerBetween policy (past ++ text) (past ++ before) rest := by
  obtain ⟨m, hm, rfl, halone⟩ := h
  refine ⟨m, hm, by simp, ?_⟩
  rw [Text.standsAlone_iff] at halone ⊢
  refine ⟨?_, halone.2⟩
  by_cases hbefore : before = []
  · rw [hbefore, List.append_nil]
    exact hpast
  · exact (startsIdent_append hbefore).2 halone.1

/-! ## Markers that are identifiers -/

section Identifiers

variable (hall : ∀ m ∈ policy.markers, isIdentifier m.toList)

include hall

/-- What lies behind a marker is settled by what lies in front of it. -/
theorem MarkerBetween.rest_eq {text b r b' r' : Text} (h : MarkerBetween policy text b r)
    (h' : MarkerBetween policy text b' r') (hlength : b.length = b'.length) : r = r' := by
  obtain ⟨m, hm, hsplit, halone⟩ := h
  obtain ⟨m', hm', hsplit', halone'⟩ := h'
  have hsame : b ++ (m.toList ++ r) = b' ++ (m'.toList ++ r') := by
    rw [← List.append_assoc, ← hsplit, hsplit', List.append_assoc]
  have hrest := (List.append_inj hsame hlength).2
  exact (eq_of_append_eq_append (allIdent_of_isIdentifier (hall m hm)).2
    (allIdent_of_isIdentifier (hall m' hm')).2 (Text.standsAlone_iff.1 halone).2
    (Text.standsAlone_iff.1 halone').2 hrest).2

/-- Where a marker stands alone a mark is found that starts no later. -/
theorem MarkerBetween.exists_mark {text before rest : Text}
    (h : MarkerBetween policy text before rest) :
    ∃ mark ∈ policy.markers.filterMap (Mark.find? text), mark.start ≤ before.length := by
  obtain ⟨m, hm, hsplit, halone⟩ := h
  obtain ⟨hne, hident⟩ := allIdent_of_isIdentifier (hall m hm)
  obtain ⟨b, a, hfind, hle⟩ := Text.findWord?_of_standsAlone hne hident hsplit halone
  refine ⟨⟨b.length, m.length, a⟩, List.mem_filterMap.2 ⟨m, hm, ?_⟩, hle⟩
  unfold Mark.find?
  rw [hfind]
  rfl

/-- The scanner takes no marker exactly when none stands alone. -/
theorem afterMarker?_eq_none_iff {text : Text} :
    afterMarker? policy text = none ↔ ∀ before rest, ¬ MarkerBetween policy text before rest := by
  constructor
  · intro hnone before rest h
    obtain ⟨mark, hmark, -⟩ := h.exists_mark hall
    unfold afterMarker? at hnone
    split at hnone
    · rename_i hempty
      rw [hempty] at hmark
      cases hmark
    · cases hnone
  · intro hno
    cases h : afterMarker? policy text with
    | none => rfl
    | some rest =>
      obtain ⟨before, hbetween⟩ := exists_markerBetween h
      exact absurd hbetween (hno before rest)

/-- There is no marker in nothing. -/
theorem afterMarker?_nil : afterMarker? policy [] = none := by
  refine (afterMarker?_eq_none_iff hall).2 fun before rest ⟨m, hm, hsplit, _⟩ => ?_
  have hempty := (List.append_eq_nil_iff.1 (List.append_eq_nil_iff.1 hsplit.symm).1).2
  exact (allIdent_of_isIdentifier (hall m hm)).1 hempty

/-- The scanner takes the first marker that stands alone. -/
theorem afterMarker?_eq_some_iff {text rest : Text} :
    afterMarker? policy text = some rest ↔
      ∃ before, MarkerBetween policy text before rest ∧
        ∀ b r, MarkerBetween policy text b r → before.length ≤ b.length := by
  have hsome : ∀ {r : Text}, afterMarker? policy text = some r →
      ∃ before, MarkerBetween policy text before r ∧
        ∀ b r', MarkerBetween policy text b r' → before.length ≤ b.length := by
    intro r h
    obtain ⟨mark, hmark, rfl, hle⟩ := exists_mark_of_afterMarker? h
    obtain ⟨m, hm, hfind⟩ := List.mem_filterMap.1 hmark
    obtain ⟨before, hstart, hsplit, halone⟩ := Mark.find?_spec hfind
    refine ⟨before, ⟨m, hm, hsplit, halone⟩, fun b r' hbetween => ?_⟩
    obtain ⟨other, hother, hstarts⟩ := hbetween.exists_mark hall
    calc before.length = mark.start := hstart
      _ ≤ other.start := hle other hother
      _ ≤ b.length := hstarts
  refine ⟨hsome, fun ⟨before, hbetween, hfirst⟩ => ?_⟩
  cases h : afterMarker? policy text with
  | none => exact absurd hbetween ((afterMarker?_eq_none_iff hall).1 h before rest)
  | some r =>
    -- Two first markers start at one place, so the same text lies behind them.
    obtain ⟨b, hb, hbfirst⟩ := hsome h
    have hlength := le_antisymm (hbfirst before rest hbetween) (hfirst b r hb)
    rw [hb.rest_eq hall hbetween hlength]

/-- A marker lies on one side of a character that belongs to no identifier. -/
theorem markerBetween_break {c : Char} (hbreak : isIdentChar c = false)
    {t u before rest : Text} :
    MarkerBetween policy (t ++ c :: u) before rest ↔
      (∃ r, rest = r ++ c :: u ∧ MarkerBetween policy t before r) ∨
        ∃ b, before = t ++ c :: b ∧ MarkerBetween policy u b rest := by
  have hident : ∀ {m : String}, m ∈ policy.markers → AllIdent m.toList :=
    fun hm => (allIdent_of_isIdentifier (hall _ hm)).2
  constructor
  · rintro ⟨m, hm, hwhole⟩
    rcases (Text.standsAlone_break (hident hm) hbreak).1 hwhole with ⟨r, rfl, h⟩ | ⟨b, rfl, h⟩
    · exact .inl ⟨r, rfl, m, hm, h⟩
    · exact .inr ⟨b, rfl, m, hm, h⟩
  · rintro (⟨r, rfl, m, hm, h⟩ | ⟨b, rfl, m, hm, h⟩)
    · exact ⟨m, hm, (Text.standsAlone_break (hident hm) hbreak).2 (.inl ⟨r, rfl, h⟩)⟩
    · exact ⟨m, hm, (Text.standsAlone_break (hident hm) hbreak).2 (.inr ⟨b, rfl, h⟩)⟩

/-- In two texts with a character of no identifier between them, the first marker is the first one
of the first text that has any. -/
theorem afterMarker?_break {c : Char} (hbreak : isIdentChar c = false) (t u : Text) :
    afterMarker? policy (t ++ c :: u) =
      match afterMarker? policy t with
      | some rest => some (rest ++ c :: u)
      | none => afterMarker? policy u := by
  cases ht : afterMarker? policy t with
  | some rest =>
    -- The first marker of the first text comes before every other one.
    obtain ⟨before, hbetween, hfirst⟩ := (afterMarker?_eq_some_iff hall).1 ht
    refine (afterMarker?_eq_some_iff hall).2
      ⟨before, (markerBetween_break hall hbreak).2 (.inl ⟨rest, rfl, hbetween⟩), fun b r h => ?_⟩
    rcases (markerBetween_break hall hbreak).1 h with ⟨r', -, h'⟩ | ⟨b', rfl, -⟩
    · exact hfirst b r' h'
    · -- The second text lies behind all of the first one.
      obtain ⟨m, -, rfl, -⟩ := hbetween
      simp only [List.length_append]
      omega
  | none =>
    -- Every marker lies in the second text.
    have hno := (afterMarker?_eq_none_iff hall).1 ht
    cases hu : afterMarker? policy u with
    | none =>
      have hno' := (afterMarker?_eq_none_iff hall).1 hu
      refine (afterMarker?_eq_none_iff hall).2 fun before rest h => ?_
      rcases (markerBetween_break hall hbreak).1 h with ⟨r, -, h'⟩ | ⟨b, -, h'⟩
      · exact hno before r h'
      · exact hno' b rest h'
    | some rest =>
      obtain ⟨before, hbetween, hfirst⟩ := (afterMarker?_eq_some_iff hall).1 hu
      refine (afterMarker?_eq_some_iff hall).2
        ⟨_, (markerBetween_break hall hbreak).2 (.inr ⟨before, rfl, hbetween⟩), fun b r h => ?_⟩
      rcases (markerBetween_break hall hbreak).1 h with ⟨r', -, h'⟩ | ⟨b', rfl, h'⟩
      · exact absurd h' (hno b r')
      · have hle := hfirst b' r h'
        simp only [List.length_append, List.length_cons]
        omega

end Identifiers

end NativeBindings.Scanner
