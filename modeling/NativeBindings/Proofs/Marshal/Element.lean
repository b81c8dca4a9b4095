import NativeBindings.Proofs.Marshal.Counterpart

/-!
# Elements of arrays

There are two ways to write that a parameter is an array: a pointer with the tag in front, and a
dimension behind the element. Either way the counterpart is that of the element, with its typedefs
expanded alike (`elementType`), but the rules are different ones: `mapIndirect?` knows scalars,
structures and enumerations behind a pointer, `elementName?` knows scalars and structures in front
of a dimension. `sizedArray_agrees` says that the two ways agree on all elements but enumerations,
whose arrays have no counterpart when they are written with a dimension.
-/

namespace NativeBindings.Mapper

open CType (parse isConstant)

variable {m : Mapper} {element : String} {n : Nat}

/-- A pointer to the element with the tag in front. -/
def taggedPointer (m : Mapper) (element : String) : String :=
  "/*" ++ m.policy.arrayTag ++ "*/ " ++ element ++ "*"

/-- The element with a dimension behind it. -/
def sizedArray (element : String) (n : Nat) : String := element ++ "[" ++ toString n ++ "]"

/-- The type of an element, its typedefs expanded as far as they are behind a pointer or in an
array. -/
def elementType (m : Mapper) (element : String) : CType :=
  expandWithin m.policy.typedefs (expansionSteps - 1)
    (parse (Tag.replaceAll m.policy.arrayTag.toList element.toList))

/-! ## Tagged pointers -/

theorem toList_taggedPointer (m : Mapper) (element : String) :
    (m.taggedPointer element).toList = ['/', '*'] ++ m.policy.arrayTag.toList ++ ['*', '/'] ++
      ' ' :: (element.toList ++ ['*']) := by
  unfold taggedPointer
  simp

theorem occurs_taggedPointer (m : Mapper) (element : String) :
    Tag.occurs m.policy.arrayTag.toList (m.taggedPointer element).toList = true := by
  rw [toList_taggedPointer, Tag.occurs_iff]
  exact ⟨_, ⟨[], [], by simp, by simp, rfl⟩, [], _, by simp; rfl⟩

/-- Spaces in front of an element change nothing. -/
theorem parse_blanks (t : Text) : parse (' ' :: ' ' :: t) = parse t := by
  apply CType.parse_congr
  unfold Text.collapse
  rw [Text.words_cons_blank (by decide), Text.words_cons_blank (by decide)]

/-- A tagged pointer is read as a pointer to the element. -/
theorem mapParam?_taggedPointer (m : Mapper) (element : String) : ∃ writable native,
    m.mapParam? (m.taggedPointer element) =
      m.mapIndirect? (m.elementType element) writable .array native := by
  have hreplace : Tag.replaceAll m.policy.arrayTag.toList (m.taggedPointer element).toList =
      ' ' :: ' ' :: Tag.replaceAll m.policy.arrayTag.toList element.toList ++ ['*'] := by
    have hblank : Tag.replaceAll m.policy.arrayTag.toList (' ' :: (element.toList ++ ['*'])) =
        ' ' :: Tag.replaceAll m.policy.arrayTag.toList (element.toList ++ ['*']) :=
      Tag.replaceAll_append_left (s := [' ']) (by decide) _
    rw [toList_taggedPointer, Tag.replaceAll_tag, hblank, Tag.replaceAll_append (by decide)]
    rfl
  rw [mapParam?_eq]
  dsimp only
  rw [occurs_taggedPointer, hreplace, if_pos rfl, if_pos rfl,
    CType.parse_congr (Text.collapse_trim _), CType.parse_concat_star, parse_blanks]
  exact ⟨_, _, rfl⟩

/-! ## Dimensions -/

/-- A dimension is read as an array of the element. -/
theorem mapParam?_sizedArray (m : Mapper) (element : String) (hn : n < Nat.pow 2 64) :
    ∃ native, m.mapParam? (sizedArray element n) =
      (m.elementName? (m.elementType element)).map fun managed =>
        { managed, directive := .fixedArray n, native } := by
  have htext : (sizedArray element n).toList = element.toList ++ CType.dimension n := by
    unfold sizedArray CType.dimension
    simp
  rw [mapParam?_eq]
  dsimp only
  rw [htext, Tag.replaceAll_append (CType.not_mem_dimension (by decide) (by decide) (by decide) n),
    CType.parse_congr (Text.collapse_trim _), CType.parse_append_dimension _ hn]
  exact ⟨_, rfl⟩

/-! ## Elements -/

/-- What an array of the caller consists of has a name as an element, enumerations apart. -/
theorem elementName?_of_buffer {u : CType} {writable : Bool} {native : String} {type : ManagedType}
    (h : m.mapIndirect? u writable .array native = some type)
    (hbuffer : type.directive ≠ .opaquePointer) :
    m.elementName? u = some type.managed ∨
      m.elementName? u = none ∧ m.isEnum u = true ∧ type.managed = "int" := by
  unfold elementName?
  rcases mapIndirect?_cases h with ⟨_, hscalar, rfl⟩ | ⟨_, hscalar, hstruct, rfl⟩ |
    ⟨hscalar, hstruct, ⟨henum, rfl⟩ | ⟨-, rfl⟩⟩
  · exact .inl (by rw [hscalar, Option.some_or])
  · exact .inl (by rw [hscalar, hstruct, Option.none_or])
  · exact .inr ⟨by rw [hscalar, hstruct, Option.none_or], henum, rfl⟩
  · exact absurd rfl hbuffer

/-- Enumerations are no scalars, so only those that are structures as well have a name as an
element. -/
theorem elementName?_of_isEnum {u : CType} (h : m.isEnum u = true) :
    m.elementName? u = m.valueStruct? u := by
  cases u with
  | scalar s => cases h
  | _ => rfl

/-- An array that the caller provides has elements of the same managed type whether it is written as
a tagged pointer or with a dimension, unless the element is an enumeration that is no structure as
well. Arrays of those are arrays of integers as tagged pointers, and get the default with a
dimension. -/
theorem sizedArray_agrees (m : Mapper) (element : String) (n : Nat) (hn : n < Nat.pow 2 64)
    (type : ManagedType) (htype : m.mapParam? (m.taggedPointer element) = some type)
    (writable : Bool) (hbuffer : type.directive = .buffer .array writable) :
    let u := m.elementType element
    ((∃ sized, m.mapParam? (sizedArray element n) = some sized ∧
        sized.directive = .fixedArray n ∧ sized.managed = type.managed) ↔
      m.isEnum u = false ∨ (m.valueStruct? u).isSome) ∧
    (∀ sized, m.mapParam? (sizedArray element n) = some sized →
      sized.directive = .fixedArray n ∧ sized.managed = type.managed) ∧
    (m.isEnum u = true → m.valueStruct? u = none →
      type.managed = "int" ∧ m.mapParam? (sizedArray element n) = none) := by
  intro u
  obtain ⟨writable', native, hpointer⟩ := mapParam?_taggedPointer m element
  obtain ⟨native', hsized⟩ := mapParam?_sizedArray m element hn
  have hname : m.elementName? u = some type.managed ∨
      m.elementName? u = none ∧ m.isEnum u = true ∧ type.managed = "int" :=
    elementName?_of_buffer (hpointer.symm.trans htype) (by rw [hbuffer]; nofun)
  have hmap : m.mapParam? (sizedArray element n) = (m.elementName? u).map fun managed =>
      { managed, directive := .fixedArray n, native := native' } := hsized
  -- The elements have a name, or are an enumeration without one.
  rcases hname with hname | ⟨hnone, henum, hint⟩
  · rw [hname, Option.map_some] at hmap
    -- An enumeration gets a name only as a structure.
    have hstruct : m.isEnum u = true → (m.valueStruct? u).isSome := by
      intro henum
      rw [← elementName?_of_isEnum henum, hname, Option.isSome_some]
    refine ⟨iff_of_true ⟨_, hmap, rfl, rfl⟩ ?_, fun sized h => ?_, fun henum hnone => ?_⟩
    · cases henum : m.isEnum u with
      | false => exact .inl rfl
      | true => exact .inr (hstruct henum)
    · obtain rfl := Option.some.inj (hmap.symm.trans h)
      exact ⟨rfl, rfl⟩
    · have hsome := hstruct henum
      rw [hnone] at hsome
      cases hsome
  · rw [hnone, Option.map_none] at hmap
    have hstruct : m.valueStruct? u = none := (elementName?_of_isEnum henum).symm.trans hnone
    refine ⟨iff_of_false ?_ ?_, fun sized h => ?_, fun _ _ => ⟨hint, hmap⟩⟩
    · rintro ⟨sized, h, -⟩
      rw [hmap] at h
      cases h
    · rw [henum, hstruct]
      rintro (h | h) <;> cases h
    · rw [hmap] at h
      cases h

/-- An array of typedefs of integers, written in both ways. -/
theorem sizedArray_agrees_typedef :
    let m : Mapper := ⟨.default, .cdecl⟩
    m.mapParam? "/*ARRAY*/ const UINT*" =
        some ⟨"uint", .buffer .array false, "const UINT*", true⟩ ∧
      ∃ sized, m.mapParam? "const UINT[16]" = some sized ∧ sized.directive = .fixedArray 16 ∧
        sized.managed = "uint" := by
  intro m
  have htype : m.mapParam? (m.taggedPointer "const UINT") =
      some ⟨"uint", .buffer .array false, "const UINT*", true⟩ := by
    decide +kernel
  exact ⟨htype, (sizedArray_agrees m "const UINT" 16 (by decide) _ htype false rfl).1.2
    (.inl (by decide +kernel))⟩

/-- An array of an enumeration is an array of integers as a tagged pointer, and has the default when
it is written with a dimension. -/
theorem sizedArray_of_enum :
    let m : Mapper := ⟨.default, .cdecl⟩
    m.mapParam? "/*ARRAY*/ enum Color*" =
        some ⟨"int", .buffer .array true, "enum Color*", true⟩ ∧
      m.mapParam? "enum Color[3]" = none ∧
      m.mapParam "enum Color[3]" = .unresolved "enum Color[3]" := by
  decide +kernel

end NativeBindings.Mapper
