import NativeBindings.Marshal.Mapper
import NativeBindings.Proofs.Catalogue.Agreement
import NativeBindings.Proofs.CType.Qualifier
import NativeBindings.Proofs.Marshal.Tag

/-!
# What a parameter's type binds by itself

A text without tags binds what the type binds that it spells (`bound_mapParam`). Of that type two
things decide: what it is with its typedefs expanded, and the encoding of the strings that it points
to, which is looked up before typedefs are expanded. `boundType` is this function of the two. For a
pointer to something constant it tells the encoding (`boundType_constant_iff`), and no type is a
buffer by itself (`directive_mapParam`).

What each rule asks for and gives is said once (`mapValue?_cases`, `mapIndirect?_cases`,
`mapType?_cases`, `mapReturn?_cases`); what holds of all counterparts follows from that.
-/

namespace NativeBindings.Mapper

variable {m : Mapper} {t : String}

/-- The encoding of the strings that a type points to. The element is looked up before its typedefs
are expanded, when the type is written as a pointer. -/
def stringEncoding? (m : Mapper) (parsed : CType) : Option Encoding :=
  match m.expand parsed with
  | .pointer _ target => m.encoding? (parsed.target?.getD target)
  | _ => none

/-- The counterpart of an expanded type whose strings have the given encoding. -/
def mapType? (m : Mapper) (encoding : Option Encoding) (extent : Extent) (native : String)
    (expanded : CType) : Option ManagedType :=
  (m.mapValue? expanded native).or <|
    match expanded with
    | .array element length => (m.elementName? element).map fun managed =>
      { managed, directive := .fixedArray length, native }
    | .pointer constant target =>
      match encoding with
      | some encoding => some (mapString encoding (!constant) native)
      | none => m.mapIndirect? target (!constant) extent native
    | .reference constant target => m.mapIndirect? target (!constant) .single native
    | _ => none

/-- The counterpart of a text is that of the type it spells; a tag stands for an array instead of a
string. -/
theorem mapParam?_eq (m : Mapper) (text : String) :
    m.mapParam? text =
      let word := m.policy.arrayTag.toList
      let tagged := Tag.occurs word text.toList
      let native := (Tag.replaceAll word text.toList).trim
      let parsed := CType.parse native
      m.mapType? (if tagged then none else m.stringEncoding? parsed)
        (if tagged then .array else .single) (String.ofList native) (m.expand parsed) := by
  unfold mapParam? mapType? stringEncoding?
  dsimp only
  generalize CType.parse _ = parsed
  generalize m.expand parsed = expanded
  cases Tag.occurs m.policy.arrayTag.toList text.toList <;> cases expanded <;> rfl

/-- What a counterpart binds, when there is one, does not depend on its text. -/
theorem bound_mapValue? (m : Mapper) (t : CType) (native native' : String) :
    (m.mapValue? t native).map ManagedType.bound =
      (m.mapValue? t native').map ManagedType.bound := by
  unfold mapValue?
  split
  · rfl
  · split
    · rfl
    · split
      · rfl
      · rw [Option.map_map, Option.map_map]
        rfl

theorem bound_mapIndirect? (m : Mapper) (t : CType) (writable : Bool) (extent : Extent)
    (native native' : String) :
    (m.mapIndirect? t writable extent native).map ManagedType.bound =
      (m.mapIndirect? t writable extent native').map ManagedType.bound := by
  unfold mapIndirect?
  dsimp only
  split
  · rfl
  · rfl
  · split
    · rfl
    · split <;> rfl

theorem bound_mapType? (m : Mapper) (encoding : Option Encoding) (extent : Extent)
    (native native' : String) (expanded : CType) :
    (m.mapType? encoding extent native expanded).map ManagedType.bound =
      (m.mapType? encoding extent native' expanded).map ManagedType.bound := by
  unfold mapType?
  rw [Option.map_or, Option.map_or, bound_mapValue? m expanded native native']
  congr 1
  cases expanded with
  | pointer constant target =>
    cases encoding with
    | some encoding => cases constant <;> rfl
    | none => exact bound_mapIndirect? m target _ extent native native'
  | reference constant target => exact bound_mapIndirect? m target _ .single native native'
  | array element length =>
    simp only [Option.map_map]
    rfl
  | _ => rfl

/-- What is bound for an expanded type whose strings have the given encoding. -/
def boundType (m : Mapper) (encoding : Option Encoding) (expanded : CType) : String × Directive :=
  ((m.mapType? encoding .single "" expanded).map ManagedType.bound).getD ("IntPtr", .opaquePointer)

/-- What is bound for a type that no rule knows does not depend on its text. -/
theorem bound_getD_unresolved (type? : Option ManagedType) (native : String) :
    (type?.getD (.unresolved native)).bound =
      (type?.map ManagedType.bound).getD ("IntPtr", .opaquePointer) := by
  cases type? <;> rfl

/-- Without a tag a text binds what the type binds that it spells. -/
theorem bound_mapParam (h : Tag.occurs m.policy.arrayTag.toList t.toList = false) :
    (m.mapParam t).bound =
      m.boundType (m.stringEncoding? (CType.parse t.toList)) (m.expand (CType.parse t.toList)) := by
  unfold mapParam boundType
  rw [bound_getD_unresolved, mapParam?_eq]
  dsimp only
  rw [h, Tag.replaceAll_eq h, if_neg Bool.false_ne_true, if_neg Bool.false_ne_true,
    CType.parse_congr (Text.collapse_trim t.toList), bound_mapType? m _ _ _ ""]

/-! ## Rules -/

/-- The rules for values. -/
theorem mapValue?_cases {u : CType} {native : String} {type : ManagedType}
    (h : m.mapValue? u native = some type) :
    (∃ managed, u.scalarManaged? = some managed ∧
      type = { managed, directive := .scalar, native }) ∨
    (m.isEnum u = true ∧ type = { managed := "int", directive := .scalar, native }) ∨
    (m.isHandle u = true ∧ type = { managed := "IntPtr", directive := .opaquePointer, native }) ∨
    ∃ managed, m.valueStruct? u = some managed ∧
      type = { managed, directive := .structValue, native } := by
  unfold mapValue? at h
  split at h
  · rename_i managed hscalar
    exact .inl ⟨managed, hscalar, (Option.some.inj h).symm⟩
  · split at h
    · rename_i henum
      exact .inr (.inl ⟨henum, (Option.some.inj h).symm⟩)
    · split at h
      · rename_i hhandle
        exact .inr (.inr (.inl ⟨hhandle, (Option.some.inj h).symm⟩))
      · obtain ⟨managed, hstruct, rfl⟩ := Option.map_eq_some_iff.1 h
        exact .inr (.inr (.inr ⟨managed, hstruct, rfl⟩))

/-- The rules for what pointers and references lead to. -/
theorem mapIndirect?_cases {u : CType} {writable : Bool} {extent : Extent} {native : String}
    {type : ManagedType} (h : m.mapIndirect? u writable extent native = some type) :
    (∃ managed, u.scalarManaged? = some managed ∧
      type = { managed, directive := .buffer extent writable, native }) ∨
    (∃ managed, u.scalarManaged? = none ∧ m.valueStruct? u = some managed ∧
      let directive := if extent = .array then .buffer extent writable else .structPointer
      type = { managed, directive, native }) ∨
    (u.scalarManaged? = none ∧ m.valueStruct? u = none ∧
      (m.isEnum u = true ∧
          type = { managed := "int", directive := .buffer extent writable, native } ∨
        m.isOpaque u = true ∧
          type = { managed := "IntPtr", directive := .opaquePointer, native })) := by
  unfold mapIndirect? at h
  dsimp only at h
  split at h
  · rename_i _ managed hscalar
    exact .inl ⟨managed, hscalar, (Option.some.inj h).symm⟩
  · rename_i managed hscalar hstruct
    exact .inr (.inl ⟨managed, hscalar, hstruct, (Option.some.inj h).symm⟩)
  · rename_i hscalar hstruct
    refine .inr (.inr ⟨hscalar, hstruct, ?_⟩)
    split at h
    · rename_i henum
      exact .inl ⟨henum, (Option.some.inj h).symm⟩
    · split at h
      · rename_i hcarried
        exact .inr ⟨hcarried, (Option.some.inj h).symm⟩
      · cases h

/-- The rules for parameters: by value, arrays, strings, pointers and references. -/
theorem mapType?_cases {encoding : Option Encoding} {extent : Extent} {native : String}
    {expanded : CType} {type : ManagedType}
    (h : m.mapType? encoding extent native expanded = some type) :
    m.mapValue? expanded native = some type ∨
    (∃ element length managed, expanded = .array element length ∧
      m.elementName? element = some managed ∧
        type = { managed, directive := .fixedArray length, native }) ∨
    (∃ constant target e, expanded = .pointer constant target ∧ encoding = some e ∧
      type = mapString e (!constant) native) ∨
    (∃ constant target, expanded = .pointer constant target ∧ encoding = none ∧
      m.mapIndirect? target (!constant) extent native = some type) ∨
    ∃ constant target, expanded = .reference constant target ∧
      m.mapIndirect? target (!constant) .single native = some type := by
  unfold mapType? at h
  rcases Option.or_eq_some_iff.1 h with hvalue | ⟨-, hother⟩
  · exact .inl hvalue
  · split at hother
    · rename_i element length
      obtain ⟨managed, helement, rfl⟩ := Option.map_eq_some_iff.1 hother
      exact .inr (.inl ⟨element, length, managed, rfl, helement, rfl⟩)
    · rename_i constant target
      split at hother
      · rename_i e
        exact .inr (.inr (.inl ⟨constant, target, e, rfl, rfl, (Option.some.inj hother).symm⟩))
      · exact .inr (.inr (.inr (.inl ⟨constant, target, rfl, rfl, hother⟩)))
    · rename_i constant target
      exact .inr (.inr (.inr (.inr ⟨constant, target, rfl, hother⟩)))
    · cases hother

/-- The rules for return values: none, by value, and pointers to what a rule knows. -/
theorem mapReturn?_cases {type : ManagedType} (h : m.mapReturn? t = some type) :
    let native := Text.trim t.toList
    let expanded := m.expand (CType.parse native)
    (expanded = .void ∧ type = .void) ∨
    m.mapValue? expanded (String.ofList native) = some type ∨
    ∃ constant target, expanded = .pointer constant target ∧ m.isKnown target = true ∧
      type = ⟨"IntPtr", .opaquePointer, String.ofList native, true⟩ := by
  unfold mapReturn? at h
  dsimp only at h ⊢
  split at h
  · rename_i hvoid
    exact .inl ⟨hvoid, (Option.some.inj h).symm⟩
  · rcases Option.or_eq_some_iff.1 h with hvalue | ⟨-, hother⟩
    · exact .inr (.inl hvalue)
    · split at hother
      · rename_i constant target hpointer
        split at hother
        · rename_i hknown
          exact .inr (.inr ⟨constant, target, hpointer, hknown, (Option.some.inj hother).symm⟩)
        · cases hother
      · cases hother

/-- Pointers to the elements of a string are strings when those are constant, and carried around
otherwise. -/
theorem mapString_cases (encoding : Encoding) (writable : Bool) (native : String) :
    mapString encoding writable native =
        { managed := "IntPtr", directive := .opaquePointer, native } ∨
      mapString encoding writable native =
        { managed := "string", directive := .stringIn encoding, native } := by
  cases writable with
  | true => exact .inl rfl
  | false => exact .inr rfl

theorem managed_mapString (encoding : Encoding) (writable : Bool) (native : String) :
    (mapString encoding writable native).managed = "IntPtr" ∨
      (mapString encoding writable native).managed = "string" :=
  (mapString_cases encoding writable native).imp (congrArg ManagedType.managed)
    (congrArg ManagedType.managed)

/-- What holds of all configured names of managed structures holds of the one that a type has. -/
theorem valueStruct?_of_forall {P : String → Prop} (h : ∀ p ∈ m.policy.valueStructs, P p.2)
    {u : CType} {managed : String} (hu : m.valueStruct? u = some managed) : P managed := by
  have hlookup : ∀ {name : String}, m.policy.valueStructs.lookup name = some managed →
      P managed := by
    intro name hname
    obtain ⟨before, after, heq, -⟩ := List.lookup_eq_some_iff.1 hname
    exact h (name, managed) (heq ▸ List.mem_append_right before List.mem_cons_self)
  unfold valueStruct? at hu
  split at hu
  · exact hlookup hu
  · exact hlookup hu
  · cases hu

/-- A counterpart by a rule keeps the text of its native type, and is not marked as the default. -/
theorem native_resolved_mapValue? {u : CType} {native : String} {type : ManagedType}
    (h : m.mapValue? u native = some type) : type.native = native ∧ type.resolved = true := by
  rcases mapValue?_cases h with ⟨_, -, rfl⟩ | ⟨-, rfl⟩ | ⟨-, rfl⟩ | ⟨_, -, rfl⟩ <;> exact ⟨rfl, rfl⟩

theorem native_resolved_mapIndirect? {u : CType} {writable : Bool} {extent : Extent}
    {native : String} {type : ManagedType}
    (h : m.mapIndirect? u writable extent native = some type) :
    type.native = native ∧ type.resolved = true := by
  rcases mapIndirect?_cases h with ⟨_, -, rfl⟩ | ⟨_, -, -, rfl⟩ | ⟨-, -, ⟨-, rfl⟩ | ⟨-, rfl⟩⟩ <;>
    exact ⟨rfl, rfl⟩

theorem native_resolved_mapType? {encoding : Option Encoding} {extent : Extent} {native : String}
    {expanded : CType} {type : ManagedType}
    (h : m.mapType? encoding extent native expanded = some type) :
    type.native = native ∧ type.resolved = true := by
  rcases mapType?_cases h with hvalue | ⟨_, _, _, -, -, rfl⟩ | ⟨constant, _, e, -, -, rfl⟩ |
    ⟨_, _, -, -, hindirect⟩ | ⟨_, _, -, hindirect⟩
  · exact native_resolved_mapValue? hvalue
  · exact ⟨rfl, rfl⟩
  · rcases mapString_cases e (!constant) native with hstring | hstring <;> rw [hstring] <;>
      exact ⟨rfl, rfl⟩
  · exact native_resolved_mapIndirect? hindirect
  · exact native_resolved_mapIndirect? hindirect

/-- How values cross the boundary. -/
theorem directive_mapValue? {u : CType} {native : String} {type : ManagedType}
    (h : m.mapValue? u native = some type) :
    type.directive = .scalar ∨ type.directive = .opaquePointer ∨ type.directive = .structValue := by
  rcases mapValue?_cases h with ⟨_, -, rfl⟩ | ⟨-, rfl⟩ | ⟨-, rfl⟩ | ⟨_, -, rfl⟩
  · exact .inl rfl
  · exact .inl rfl
  · exact .inr (.inl rfl)
  · exact .inr (.inr rfl)

/-- How pointers and references cross the boundary that lead to no string. -/
theorem directive_mapIndirect? {u : CType} {writable : Bool} {extent : Extent} {native : String}
    {type : ManagedType} (h : m.mapIndirect? u writable extent native = some type) :
    type.directive = .buffer extent writable ∨ type.directive = .structPointer ∨
      type.directive = .opaquePointer := by
  rcases mapIndirect?_cases h with ⟨_, -, rfl⟩ | ⟨_, -, -, rfl⟩ | ⟨-, -, ⟨-, rfl⟩ | ⟨-, rfl⟩⟩
  · exact .inl rfl
  · by_cases hextent : extent = .array
    · exact .inl (if_pos hextent)
    · exact .inr (.inl (if_neg hextent))
  · exact .inl rfl
  · exact .inr (.inr rfl)

/-- No type is a buffer by itself. -/
theorem directive_mapType? {encoding : Option Encoding} {extent : Extent} {native : String}
    {expanded : CType} {type : ManagedType}
    (h : m.mapType? encoding extent native expanded = some type) (e : Encoding) (capacity : Nat) :
    type.directive ≠ .stringOut e capacity := by
  rcases mapType?_cases h with hvalue | ⟨_, _, _, -, -, rfl⟩ | ⟨constant, _, e', -, -, rfl⟩ |
    ⟨_, _, -, -, hindirect⟩ | ⟨_, _, -, hindirect⟩
  · rcases directive_mapValue? hvalue with hd | hd | hd <;> rw [hd] <;> nofun
  · nofun
  · rcases mapString_cases e' (!constant) native with hd | hd <;> rw [hd] <;> nofun
  · rcases directive_mapIndirect? hindirect with hd | hd | hd <;> rw [hd] <;> nofun
  · rcases directive_mapIndirect? hindirect with hd | hd | hd <;> rw [hd] <;> nofun

/-- No type is a buffer by itself. -/
theorem directive_mapParam (m : Mapper) (t : String) (e : Encoding) (capacity : Nat) :
    (m.mapParam t).directive ≠ .stringOut e capacity := by
  unfold mapParam
  cases h : m.mapParam? t with
  | none => nofun
  | some type =>
    rw [mapParam?_eq] at h
    exact directive_mapType? h e capacity

/-! ## Pointers -/

/-- Pointers to the elements of a string are strings when those are constant. -/
theorem boundType_pointer_some (m : Mapper) (encoding : Encoding) (constant : Bool)
    (target : CType) :
    m.boundType (some encoding) (.pointer constant target) =
      if constant then ("string", .stringIn encoding) else ("IntPtr", .opaquePointer) := by
  cases constant <;> rfl

/-- What other pointers bind is what is known about pointers to the target. -/
theorem boundType_pointer_none (m : Mapper) (constant : Bool) (target : CType) :
    m.boundType none (.pointer constant target) =
      ((m.mapIndirect? target (!constant) .single "").map ManagedType.bound).getD
        ("IntPtr", .opaquePointer) := rfl

/-- Other pointers are no strings. -/
theorem boundType_pointer_none_ne (m : Mapper) (constant : Bool) (target : CType)
    (managed : String) (encoding : Encoding) :
    m.boundType none (.pointer constant target) ≠ (managed, .stringIn encoding) := by
  intro heq
  have hdirective := congrArg Prod.snd heq
  rw [boundType_pointer_none] at hdirective
  cases h : m.mapIndirect? target (!constant) .single "" with
  | none =>
    rw [h] at hdirective
    cases hdirective
  | some type =>
    rw [h] at hdirective
    have htype : type.directive = .stringIn encoding := hdirective
    rcases directive_mapIndirect? h with hd | hd | hd <;> rw [hd] at htype <;> cases htype

/-- What a pointer to something constant binds tells the encoding of the strings. -/
theorem boundType_constant_iff {e e' : Option Encoding} {target : CType} :
    m.boundType e (.pointer true target) = m.boundType e' (.pointer true target) ↔ e = e' := by
  refine ⟨fun h => ?_, congrArg (m.boundType · _)⟩
  cases e with
  | none =>
    cases e' with
    | none => rfl
    | some e' =>
      rw [boundType_pointer_some, if_pos rfl] at h
      exact absurd h (boundType_pointer_none_ne m true target _ _)
  | some e =>
    cases e' with
    | none =>
      rw [boundType_pointer_some, if_pos rfl] at h
      exact absurd h.symm (boundType_pointer_none_ne m true target _ _)
    | some e' =>
      rw [boundType_pointer_some, boundType_pointer_some, if_pos rfl, if_pos rfl] at h
      rw [Directive.stringIn.inj (congrArg Prod.snd h)]

/-- Whether pointers to the type lead to single values that can be written or not. -/
def isBuffered (m : Mapper) (target : CType) : Bool :=
  target.scalarManaged?.isSome || ((m.valueStruct? target).isNone && m.isEnum target)

/-- Where there is no string, it matters to buffers alone whether a pointer leads to something
constant. -/
theorem boundType_pointer_none_iff {target : CType} :
    m.boundType none (.pointer false target) = m.boundType none (.pointer true target) ↔
      m.isBuffered target = false := by
  rw [boundType_pointer_none, boundType_pointer_none]
  unfold mapIndirect? isBuffered
  cases target.scalarManaged? with
  | some managed => simp [ManagedType.bound]
  | none =>
    cases m.valueStruct? target with
    | some managed => simp [ManagedType.bound]
    | none =>
      cases m.isEnum target with
      | true => simp [ManagedType.bound]
      | false => cases m.isOpaque target <;> simp

end NativeBindings.Mapper
