import NativeBindings.Proofs.Declaration.Head
import NativeBindings.Proofs.Declaration.TagPlace
import NativeBindings.Proofs.Scanner.Completion

/-!
# The names in a declaration

A head without an identifier at its end is refused, and so is a parameter without one. So the names
of a declaration that is read are identifiers (`Declaration.named_of_read`), and those of every
declaration of a file are (`Scanner.named_of_mem_scan`).
-/

namespace NativeBindings

/-- What comes out along a list comes out of one of its elements. -/
theorem exists_of_mem_mapM {α β ε : Type} {f : α → Except ε β} {xs : List α} {ys : List β} {y : β}
    (h : xs.mapM f = .ok ys) (hy : y ∈ ys) : ∃ x ∈ xs, f x = .ok y := by
  induction xs generalizing ys with
  | nil =>
    cases h
    cases hy
  | cons x xs ih =>
    rw [List.mapM_cons] at h
    cases hx : f x with
    | error e =>
      rw [hx] at h
      cases h
    | ok first =>
      cases hxs : xs.mapM f with
      | error e =>
        rw [hx, hxs] at h
        cases h
      | ok rest =>
        rw [hx, hxs] at h
        cases h
        -- It comes out of the first element, or of one of the rest.
        rcases List.mem_cons.1 hy with rfl | hrest
        · exact ⟨x, .head xs, hx⟩
        · obtain ⟨x', hmem, hx'⟩ := ih hxs hrest
          exact ⟨x', .tail x hmem, hx'⟩

/-- The name of a parameter is an identifier. -/
theorem isIdentifier_of_readParameter {function : String} {piece : Text} {p : Parameter}
    (h : readParameter function piece = .ok p) : isIdentifier p.name.toList := by
  unfold readParameter at h
  dsimp only at h
  split at h
  · cases h
  · split at h
    · rename_i p' hparse
      cases h
      obtain ⟨type, name, dimensions, -, -, hident, -, -, rfl⟩ := Parameter.exists_of_parse? hparse
      rwa [String.toList_ofList]
    · cases h

/-- The names of the parameters in a list are identifiers. -/
theorem isIdentifier_of_mem_readParameters {function : String} {params : Text} {ps : List Parameter}
    {p : Parameter} (h : readParameters function params = .ok ps) (hp : p ∈ ps) :
    isIdentifier p.name.toList := by
  unfold readParameters at h
  dsimp only at h
  split at h
  · cases h
    cases hp
  · obtain ⟨piece, -, hread⟩ := exists_of_mem_mapM h hp
    exact isIdentifier_of_readParameter hread

/-- The names of the function and of its parameters are identifiers. -/
structure Declaration.Named (d : Declaration) : Prop where
  /-- The name of the function. -/
  function : isIdentifier d.name.toList
  /-- The names of the parameters. -/
  params : ∀ p ∈ d.params, isIdentifier p.name.toList

/-- All names of a declaration that is read are identifiers. -/
theorem Declaration.named_of_read {location : Location} {head params : Text} {doc : Option Text}
    {d : Declaration} (h : Declaration.read location head params doc = .ok d) : d.Named := by
  obtain ⟨type, name, -, hident, hname, -, hparams⟩ := Declaration.read_ok h
  refine ⟨?_, fun p hp => isIdentifier_of_mem_readParameters hparams hp⟩
  rwa [hname, String.toList_ofList]

/-- All names in the declarations of a file are identifiers. -/
theorem Scanner.named_of_mem_scan {policy : ScanPolicy} {file : Path}
    {lines : List Conditional.SourceLine} {d : Declaration}
    (h : d ∈ declarations (scan policy file lines)) : d.Named := by
  obtain ⟨doc, c, hread⟩ := exists_readFrom_of_mem_scan h
  exact Declaration.named_of_read hread

end NativeBindings
