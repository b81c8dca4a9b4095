import NativeBindings.Proofs.Emission.Appearance
import NativeBindings.Proofs.Marshal.OutBuffer

/-!
# Conflicts that show

A catalogue refuses a second declaration of a name when the two bind differently. Whether the
difference shows in the generated file is another question: how a value crosses the boundary is
compared as a whole, but the file shows only its shape. So a conflict is about something that shows
exactly when the appearances differ (`conflict_shows_iff`). All types that the mapper gives are
compact, as soon as the configured names of structures are (`compactTypes_signature`).
-/

namespace NativeBindings

open Emission (Compact CompactTypes appearance bareBlock)

namespace Mapper

variable {m : Mapper} {t : CType} {native : String} {type : ManagedType}

/-! ## Managed types are compact -/

/-- The configured names of managed structures are compact. -/
def CompactStructs (m : Mapper) : Prop := ∀ p ∈ m.policy.valueStructs, Compact p.2

instance (m : Mapper) : Decidable m.CompactStructs := List.decidableBAll _ m.policy.valueStructs

theorem compact_int : Compact "int" := by decide

theorem compact_intPtr : Compact "IntPtr" := by decide

theorem compact_scalarManaged? {managed : String} (h : t.scalarManaged? = some managed) :
    Compact managed := by
  unfold CType.scalarManaged? at h
  split at h
  · rename_i s
    cases h
    cases s <;> decide
  · cases h

theorem compact_mapValue? (hm : m.CompactStructs) (h : m.mapValue? t native = some type) :
    Compact type.managed := by
  rcases mapValue?_cases h with ⟨_, hscalar, rfl⟩ | ⟨-, rfl⟩ | ⟨-, rfl⟩ | ⟨_, hstruct, rfl⟩
  · exact compact_scalarManaged? hscalar
  · exact compact_int
  · exact compact_intPtr
  · exact valueStruct?_of_forall hm hstruct

theorem compact_mapIndirect? (hm : m.CompactStructs) {writable : Bool} {extent : Extent}
    (h : m.mapIndirect? t writable extent native = some type) : Compact type.managed := by
  rcases mapIndirect?_cases h with ⟨_, hscalar, rfl⟩ | ⟨_, -, hstruct, rfl⟩ |
    ⟨-, -, ⟨-, rfl⟩ | ⟨-, rfl⟩⟩
  · exact compact_scalarManaged? hscalar
  · exact valueStruct?_of_forall hm hstruct
  · exact compact_int
  · exact compact_intPtr

theorem compact_mapString (encoding : Encoding) (writable : Bool) (native : String) :
    Compact (mapString encoding writable native).managed := by
  rcases managed_mapString encoding writable native with h | h <;> rw [h] <;> decide

theorem compact_mapType? (hm : m.CompactStructs) {encoding : Option Encoding} {extent : Extent}
    (h : m.mapType? encoding extent native t = some type) : Compact type.managed := by
  rcases mapType?_cases h with hvalue | ⟨_, _, _, -, helement, rfl⟩ | ⟨_, _, _, -, -, rfl⟩ |
    ⟨_, _, -, -, hindirect⟩ | ⟨_, _, -, hindirect⟩
  · exact compact_mapValue? hm hvalue
  · rcases Option.or_eq_some_iff.1 helement with hscalar | ⟨-, hstruct⟩
    · exact compact_scalarManaged? hscalar
    · exact valueStruct?_of_forall hm hstruct
  · exact compact_mapString _ _ native
  · exact compact_mapIndirect? hm hindirect
  · exact compact_mapIndirect? hm hindirect

/-- The default type is compact, so a type is when it is one that a rule gives. -/
theorem compact_getD {type? : Option ManagedType} (h : ∀ type ∈ type?, Compact type.managed) :
    Compact (type?.getD (.unresolved native)).managed := by
  cases type? with
  | none => exact compact_intPtr
  | some type => exact h type rfl

theorem compact_mapParam (hm : m.CompactStructs) (text : String) :
    Compact (m.mapParam text).managed := by
  refine compact_getD fun type htype => ?_
  rw [mapParam?_eq] at htype
  exact compact_mapType? hm htype

theorem compact_mapReturn (hm : m.CompactStructs) (text : String) :
    Compact (m.mapReturn text).managed := by
  refine compact_getD fun type htype => ?_
  rcases mapReturn?_cases htype with ⟨-, rfl⟩ | hvalue | ⟨_, _, -, -, rfl⟩
  · show Compact "void"
    decide
  · exact compact_mapValue? hm hvalue
  · exact compact_intPtr

/-- An output buffer is a string builder. -/
theorem managed_outBuffer? {texts : List String} {types : List ManagedType} {i : Nat}
    (h : m.outBuffer? texts types i = some type) : type.managed = stringBuilder := by
  obtain ⟨text, own, encoding, j, -, -, -, -, rfl⟩ := outBuffer?_eq_some_iff.1 h
  rfl

theorem compact_bindOutBuffers {texts : List String} {types : List ManagedType}
    (h : ∀ type ∈ types, Compact type.managed) :
    ∀ type ∈ m.bindOutBuffers texts types, Compact type.managed := by
  intro type htype
  unfold bindOutBuffers at htype
  obtain ⟨⟨own, i⟩, hown, rfl⟩ := List.mem_map.1 htype
  dsimp only
  cases hbuffer : m.outBuffer? texts types i with
  | none => exact h own (List.fst_mem_of_mem_zipIdx hown)
  | some buffer =>
    rw [Option.getD_some, managed_outBuffer? hbuffer]
    unfold stringBuilder
    decide

/-- All managed types of a declaration are compact. -/
theorem compactTypes_signature (hm : m.CompactStructs) (d : Declaration) :
    CompactTypes (m.signature d) where
  returned := compact_mapReturn hm d.returnType
  params := by
    intro p hp
    unfold signature at hp
    obtain ⟨⟨own, type⟩, htype, rfl⟩ := List.mem_map.1 hp
    refine compact_bindOutBuffers (fun type htype => ?_) type (List.of_mem_zip htype).2
    obtain ⟨text, -, rfl⟩ := List.mem_map.1 htype
    exact compact_mapParam hm text

/-! ## Conflicts -/

/-- Signatures that look alike but bind differently have a value that crosses the boundary
differently. -/
theorem directive_ne_of_appearance {s t : Signature} (hname : s.name = t.name)
    (hconvention : s.convention = t.convention) (h : appearance s = appearance t)
    (hbinding : ¬s.sameBinding t) :
    s.returnType.directive ≠ t.returnType.directive ∨
      s.params.map (·.type.directive) ≠ t.params.map (·.type.directive) := by
  by_contra hsame
  rw [not_or, not_not, not_not] at hsame
  obtain ⟨hreturned, hdirectives⟩ := hsame
  obtain ⟨hmanaged, hlooks⟩ := Emission.Appearance.mk.inj h
  have htypes : s.params.map (·.type.managed) = t.params.map (·.type.managed) := by
    have hfirsts := congrArg (List.map Prod.fst) hlooks
    rwa [List.map_map, List.map_map] at hfirsts
  have hbound : ∀ s : Signature, s.params.map (·.type.bound) =
      (s.params.map (·.type.managed)).zip (s.params.map (·.type.directive)) :=
    fun s => List.zip_map'.symm
  refine hbinding (Signature.sameBinding_iff.2 ?_)
  unfold Signature.binding
  rw [hbound, hbound, htypes, hdirectives, hname, hconvention]
  unfold ManagedType.bound
  rw [hmanaged, hreturned]

/-- Where two declarations of one name are in conflict, they bind differently. When they look alike
all the same, this is about how a value crosses the boundary, and their lines are the same, apart
from remarks and names of parameters. When they do not look alike, the lines differ, as long as the
configured names of structures are compact. -/
theorem conflict_shows_iff (m : Mapper) (c : Catalogue) (d e : Declaration) (conflict : Conflict)
    (hname : e.name = d.name) (hfirst : c.get? d.name = some (m.signature d))
    (hconflict : c.add (m.signature e) = .error conflict) (o : Emission.Options) (depth : Nat) :
    ¬(m.signature d).sameBinding (m.signature e) ∧
      (appearance (m.signature d) = appearance (m.signature e) →
        bareBlock o depth (m.signature d) = bareBlock o depth (m.signature e) ∧
          ((m.signature d).returnType.directive ≠ (m.signature e).returnType.directive ∨
            (m.signature d).params.map (·.type.directive) ≠
              (m.signature e).params.map (·.type.directive))) ∧
      (m.CompactStructs →
        (bareBlock o depth (m.signature d) ≠ bareBlock o depth (m.signature e) ↔
          appearance (m.signature d) ≠ appearance (m.signature e))) := by
  have hnames : (m.signature d).name = (m.signature e).name := hname.symm
  -- A signature with the same binding would have been taken for a duplicate.
  have hbinding : ¬(m.signature d).sameBinding (m.signature e) := by
    intro hsame
    have hget : c.get? (m.signature e).name = some (m.signature d) := by
      rw [← hnames]
      exact hfirst
    rw [Catalogue.add_eq, hget] at hconflict
    dsimp only at hconflict
    rw [if_pos hsame] at hconflict
    cases hconflict
  -- What is written depends on the appearance alone.
  have hbare : appearance (m.signature d) = appearance (m.signature e) →
      bareBlock o depth (m.signature d) = bareBlock o depth (m.signature e) :=
    fun h => Emission.bareBlock_eq_of_appearance hnames rfl h o depth
  refine ⟨hbinding, fun h => ⟨hbare h, directive_ne_of_appearance hnames rfl h hbinding⟩,
    fun hm => not_congr ⟨?_, hbare⟩⟩
  exact Emission.appearance_eq_of_bareBlock (compactTypes_signature hm d)
    (compactTypes_signature hm e) hnames

/-- A header lets the callee write to an array, and the source only read it. This shows. -/
theorem conflict_shows_iff_array :
    let m : Mapper := ⟨.default, .cdecl⟩
    let d : Declaration := ⟨⟨⟨"f.h"⟩, 1⟩, "void", "F", [⟨"/*ARRAY*/ int*", "p"⟩], none, none⟩
    let e : Declaration :=
      ⟨⟨⟨"f.cpp"⟩, 1⟩, "void", "F", [⟨"/*ARRAY*/ const int*", "p"⟩], none, none⟩
    let c := Catalogue.empty.append (m.signature d)
    let conflict : Conflict := ⟨"F", ⟨⟨"f.h"⟩, 1⟩, ⟨⟨"f.cpp"⟩, 1⟩,
      "void F(int pointer-to-mutable-buffer)", "void F(int pointer-to-mutable-buffer)"⟩
    c.add (m.signature e) = .error conflict ∧
      bareBlock {} 0 (m.signature d) ≠ bareBlock {} 0 (m.signature e) := by
  intro m d e c conflict
  have hconflict : c.add (m.signature e) = .error conflict := by decide +kernel
  obtain ⟨-, -, hshows⟩ :=
    conflict_shows_iff m c d e conflict rfl (by decide +kernel) hconflict {} 0
  exact ⟨hconflict, (hshows (by decide +kernel)).2 (by decide +kernel)⟩

/-- A header says that the callee writes through a pointer to a number, and the source that it only
reads. Both are declared as a reference, and no rule is missing for either. They are refused all the
same, by a report that describes them in the same words. -/
theorem conflict_does_not_show :
    let m : Mapper := ⟨.default, .cdecl⟩
    let d : Declaration := ⟨⟨⟨"f.h"⟩, 1⟩, "void", "F", [⟨"int*", "p"⟩], none, none⟩
    let e : Declaration := ⟨⟨⟨"f.cpp"⟩, 1⟩, "void", "F", [⟨"const int*", "p"⟩], none, none⟩
    m.warnings d = [] ∧ m.warnings e = [] ∧
      (Catalogue.empty.append (m.signature d)).add (m.signature e) =
        .error ⟨"F", ⟨⟨"f.h"⟩, 1⟩, ⟨⟨"f.cpp"⟩, 1⟩, "void F(int pointer-to-mutable-buffer)",
          "void F(int pointer-to-mutable-buffer)"⟩ ∧
      bareBlock {} 0 (m.signature d) = bareBlock {} 0 (m.signature e) := by
  decide +kernel

end Mapper

end NativeBindings
