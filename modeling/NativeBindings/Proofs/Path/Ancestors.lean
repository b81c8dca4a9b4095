import Mathlib.Data.List.Nodup
import NativeBindings.Proofs.Path.Join
import NativeBindings.Proofs.Text.Words

/-!
# The parents of a path

The parent of a path has its components but for the last one (`components_of_parent?`), so a
directory is the parent of the names in it (`parent?_join`). Each further parent is shorter. For
this reason all of them are different places (`eq_of_mem_ancestors`), and the bound on their number
takes none away (`ancestors_of_some`).
-/

namespace NativeBindings.Path

/-! ## One parent -/

theorem intercalate_pieces (t : Text) : ['/'].intercalate (pieces t) = t :=
  List.intercalate_splitOn '/'

theorem not_mem_of_mem_pieces {t piece : Text} (h : piece ∈ pieces t) : '/' ∉ piece := by
  intro hslash
  have hnot := eq_false_of_mem_splitOnP h '/' hslash
  cases hnot

/-- Pieces put together with separators stand for the components that they stand for. -/
theorem steps_intercalate {ps : List Text} (h : ∀ piece ∈ ps, '/' ∉ piece) :
    steps (['/'].intercalate ps) = ps.filterMap Component.ofPiece? := by
  by_cases hne : ps = []
  · rw [hne]
    rfl
  · have hpieces : pieces (['/'].intercalate ps) = ps := List.splitOn_intercalate '/' h hne
    unfold steps
    rw [hpieces]

/-- Void pieces at the end stand for nothing. -/
theorem filterMap_dropTrailing (ps : List Text) :
    (dropTrailing isVoid ps).filterMap Component.ofPiece? = ps.filterMap Component.ofPiece? := by
  have hvoid : (takeTrailing isVoid ps).filterMap Component.ofPiece? = [] := by
    refine List.filterMap_eq_nil_iff.2 fun piece hpiece => ?_
    have hnone := (takeTrailing_spec isVoid ps).1 piece hpiece
    unfold isVoid at hnone
    exact Option.isNone_iff_eq_none.1 hnone
  conv_rhs => rw [← dropTrailing_append_takeTrailing isVoid ps, List.filterMap_append, hvoid,
    List.append_nil]

/-- A piece that is not void stands for a component. -/
theorem filterMap_dropLast {ps : List Text} (hne : ps ≠ [])
    (hlast : ∀ piece ∈ ps.getLast?, isVoid piece = false) :
    ∃ c, ps.filterMap Component.ofPiece? = ps.dropLast.filterMap Component.ofPiece? ++ [c] := by
  have hvoid := hlast _ (List.getLast?_eq_some_getLast hne)
  unfold isVoid at hvoid
  obtain ⟨c, hc⟩ : ∃ c, Component.ofPiece? (ps.getLast hne) = some c :=
    Option.isSome_iff_exists.1 (by rw [← Option.not_isNone, hvoid]; rfl)
  refine ⟨c, ?_⟩
  conv_lhs => rw [← List.dropLast_concat_getLast hne]
  rw [List.filterMap_append, List.filterMap_cons_some hc, List.filterMap_nil]

theorem prefix_dropTrailing {α : Type} (p : α → Bool) (xs : List α) : dropTrailing p xs <+: xs :=
  ⟨_, dropTrailing_append_takeTrailing p xs⟩

/-- Two lists of pieces are put together with one more separator. -/
theorem intercalate_append {ps qs : List Text} (hps : ps ≠ []) (hqs : qs ≠ []) :
    ['/'].intercalate (ps ++ qs) = ['/'].intercalate ps ++ '/' :: ['/'].intercalate qs := by
  obtain ⟨q, qs, rfl⟩ := List.exists_cons_of_ne_nil hqs
  induction ps with
  | nil => exact absurd rfl hps
  | cons p ps ih =>
    cases ps with
    | nil => simp
    | cons p' ps =>
      have hrest := ih (List.cons_ne_nil p' ps)
      rw [List.cons_append] at hrest
      rw [List.cons_append, List.cons_append, List.intercalate_cons_cons, hrest,
        List.intercalate_cons_cons, List.append_assoc, List.append_assoc, List.append_assoc]

theorem start_start (t : Text) : start (start t).1 = ((start t).1, []) := by
  rw [start.eq_def t]
  split <;> rfl

/-- Behind the start of a path some of its first pieces, with no void one last, have the same start
in front. -/
theorem start_intercalate {t : Text} {ps : List Text} (hstarts : ps <+: pieces (start t).2)
    (hlast : ∀ piece ∈ ps.getLast?, isVoid piece = false) :
    start ((start t).1 ++ ['/'].intercalate ps) = ((start t).1, ['/'].intercalate ps) := by
  have hseparated : ∀ piece ∈ ps, '/' ∉ piece := fun piece hpiece =>
    not_mem_of_mem_pieces (hstarts.subset hpiece)
  obtain ⟨qs, hqs⟩ := hstarts
  have hrest : (start t).2 = ['/'].intercalate (ps ++ qs) := by rw [hqs, intercalate_pieces]
  by_cases hps : ps = []
  · -- No pieces are taken, or all of them.
    rw [hps, List.intercalate_nil, List.append_nil]
    exact start_start t
  by_cases hnil : qs = []
  · rw [hnil, List.append_nil] at hrest
    rw [← hrest, start_fst_append_snd]
  · -- The pieces left out stand behind a separator.
    rw [intercalate_append hps hnil] at hrest
    have hne : (start t).1 ++ ['/'].intercalate ps ≠ [] := by
      intro hempty
      obtain ⟨c, hc⟩ := filterMap_dropLast hps hlast
      rw [← steps_intercalate hseparated, (List.append_eq_nil_iff.1 hempty).2] at hc
      exact List.append_ne_nil_of_right_ne_nil _ (List.cons_ne_nil c []) hc.symm
    have happend := start_append hne (s := '/' :: ['/'].intercalate qs) (.inl rfl)
    rw [List.append_assoc, ← hrest, start_fst_append_snd] at happend
    have hfst := congrArg Prod.fst happend
    have hsnd := congrArg Prod.snd happend
    rw [hrest] at hsnd
    exact Prod.ext hfst.symm (List.append_cancel_right hsnd).symm

/-- The pieces of a path up to its last component. -/
def ownPieces (p : Path) : List Text := dropTrailing isVoid (pieces (start p.text.toList).2)

theorem components_eq_ownPieces (p : Path) : p.components =
    Component.ofStart (start p.text.toList).1 ++ p.ownPieces.filterMap Component.ofPiece? := by
  unfold ownPieces
  rw [filterMap_dropTrailing]
  rfl

/-- The parent of a path has its components but for the last one. -/
theorem components_of_parent? {p q : Path} (h : p.parent? = some q) :
    p.components ≠ [] ∧ q.components = p.components.dropLast := by
  have hown : dropTrailing isVoid (pieces (start p.text.toList).2) = p.ownPieces := rfl
  have hlast := (takeTrailing_spec isVoid (pieces (start p.text.toList).2)).2
  have hstarts := prefix_dropTrailing isVoid (pieces (start p.text.toList).2)
  unfold parent? at h
  rw [components_eq_ownPieces]
  simp only [hown] at h hlast hstarts
  cases hps : p.ownPieces with
  | nil =>
    simp only [hps] at h
    split at h
    · -- Only the start is left, and its parent is the empty path.
      rename_i hstart
      cases h
      rw [hstart]
      exact ⟨List.cons_ne_nil _ _, rfl⟩
    · cases h
  | cons piece rest =>
    rw [hps] at hlast hstarts
    simp only [hps] at h
    cases h
    -- The last piece is a component, and the void ones in front of it are none.
    obtain ⟨c, hc⟩ := filterMap_dropLast (List.cons_ne_nil piece rest) hlast
    have hbefore : (piece :: rest).dropLast <+: piece :: rest := List.dropLast_prefix _
    have hkept := (prefix_dropTrailing isVoid (piece :: rest).dropLast).trans
      (hbefore.trans hstarts)
    have hseparated : ∀ kept ∈ dropTrailing isVoid (piece :: rest).dropLast, '/' ∉ kept :=
      fun kept hmem => not_mem_of_mem_pieces (hkept.subset hmem)
    rw [hc, ← List.append_assoc, List.dropLast_concat]
    refine ⟨List.append_ne_nil_of_right_ne_nil _ (List.cons_ne_nil c []), ?_⟩
    rw [components_eq, String.toList_ofList,
      start_intercalate hkept (takeTrailing_spec isVoid _).2, steps_intercalate hseparated,
      filterMap_dropTrailing]

/-- Only the root and the empty path have no parent. -/
theorem components_of_parent?_eq_none {p : Path} (h : p.parent? = none) :
    p.components = [] ∨ p.components = [.root] := by
  have hown : dropTrailing isVoid (pieces (start p.text.toList).2) = p.ownPieces := rfl
  unfold parent? at h
  rw [components_eq_ownPieces]
  simp only [hown] at h
  cases hps : p.ownPieces with
  | nil =>
    simp only [hps] at h
    rw [List.filterMap_nil, List.append_nil]
    -- Without pieces of its own the path is its start.
    unfold Component.ofStart
    split
    · exact .inr rfl
    · rename_i hstart
      rw [if_pos hstart] at h
      cases h
    · exact .inl rfl
  | cons piece rest =>
    simp only [hps] at h
    cases h

/-- A directory is the parent of a name in it. -/
theorem parent?_join (d : Path) {name : String} (h : IsPlain name) :
    ∃ q, (d.join ⟨name⟩).parent? = some q ∧ q.components = d.components := by
  have hjoin := components_join d h
  cases hparent : (d.join ⟨name⟩).parent? with
  | none =>
    have hlast := getLast?_components_join d h
    obtain hnil | hroot := components_of_parent?_eq_none hparent
    · rw [hnil] at hlast
      cases hlast
    · rw [hroot] at hlast
      cases hlast
  | some q =>
    have hcomponents := (components_of_parent? hparent).2
    rw [hjoin, List.dropLast_concat] at hcomponents
    exact ⟨q, rfl, hcomponents⟩

/-! ## All parents -/

/-- Every parent has fewer components. -/
theorem length_components_lt {p q : Path} (h : p.parent? = some q) :
    q.components.length < p.components.length := by
  obtain ⟨hne, hcomponents⟩ := components_of_parent? h
  have hpos := List.length_pos_iff.2 hne
  rw [hcomponents, List.length_dropLast]
  omega

/-- What holds of the paths without a parent, and of a path when it holds of its parent, holds of
all paths. -/
theorem parent_induction {motive : Path → Prop} (top : ∀ p, p.parent? = none → motive p)
    (below : ∀ p q, p.parent? = some q → motive q → motive p) (p : Path) : motive p := by
  induction hn : p.components.length using Nat.strongRecOn generalizing p with
  | ind n ih =>
    cases hparent : p.parent? with
    | none => exact top p hparent
    | some q => exact below p q hparent (ih _ (hn ▸ length_components_lt hparent) q rfl)

/-- More steps than a path has components find no further parent. -/
theorem go_eq_go {n m : Nat} {p : Path} (hn : p.components.length < n)
    (hm : p.components.length < m) : ancestors.go n p = ancestors.go m p := by
  induction n generalizing m p with
  | zero => exact absurd hn (Nat.not_lt_zero _)
  | succ n ih =>
    cases m with
    | zero => exact absurd hm (Nat.not_lt_zero _)
    | succ m =>
      rw [ancestors.go, ancestors.go]
      cases hparent : p.parent? with
      | none => rfl
      | some q =>
        have hshorter := length_components_lt hparent
        exact congrArg (p :: ·) (ih (by omega) (by omega))

theorem ancestors_of_none {p : Path} (h : p.parent? = none) : p.ancestors = [p] := by
  unfold ancestors
  rw [ancestors.go, h]

/-- The parents of a path are its parent and the parents of that. -/
theorem ancestors_of_some {p q : Path} (h : p.parent? = some q) :
    p.ancestors = p :: q.ancestors := by
  unfold ancestors
  rw [ancestors.go, h]
  have hshorter := length_components_lt h
  exact congrArg (p :: ·) (go_eq_go hshorter (Nat.lt_succ_self _))

theorem self_mem_ancestors (p : Path) : p ∈ p.ancestors := by
  cases hparent : p.parent? with
  | none =>
    rw [ancestors_of_none hparent]
    exact .head []
  | some q =>
    rw [ancestors_of_some hparent]
    exact .head _

/-- No parent has more components. -/
theorem length_components_le {p q : Path} (h : q ∈ p.ancestors) :
    q.components.length ≤ p.components.length := by
  induction p using parent_induction with
  | top p hparent =>
    rw [ancestors_of_none hparent, List.mem_singleton] at h
    rw [h]
  | below p parent hparent ih =>
    rw [ancestors_of_some hparent] at h
    have hshorter := length_components_lt hparent
    rcases List.mem_cons.1 h with rfl | h
    · exact Nat.le_refl _
    · have := ih h
      omega

/-- A path and its parents are different places. -/
theorem nodup_ancestors (p : Path) : (p.ancestors.map components).Nodup := by
  induction p using parent_induction with
  | top p hparent =>
    rw [ancestors_of_none hparent]
    exact List.nodup_singleton _
  | below p parent hparent ih =>
    rw [ancestors_of_some hparent, List.map_cons, List.nodup_cons]
    refine ⟨fun hmem => ?_, ih⟩
    obtain ⟨q, hq, hsame⟩ := List.mem_map.1 hmem
    have hle := length_components_le hq
    have hlt := length_components_lt hparent
    rw [hsame] at hle
    omega

/-- Among a path and its parents only one is at a given place. -/
theorem eq_of_mem_ancestors {p q r : Path} (hq : q ∈ p.ancestors) (hr : r ∈ p.ancestors)
    (h : q.components = r.components) : q = r :=
  List.inj_on_of_nodup_map (nodup_ancestors p) hq hr h

end NativeBindings.Path
