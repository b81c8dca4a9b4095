import NativeBindings.Proofs.Marshal.Counterpart

/-!
# Output buffers

A parameter is a buffer that a string is written into when it is a pointer to the elements of a
string, neither constant nor tagged, and a neighbour on a permitted side is an integer that holds
the capacity (`IsOutBuffer`); which types are such integers is told by their texts
(`isCapacity_mapParam_iff`). `params_signature` describes the parameters of a signature by what each
of them is by itself and by this alone.

The type of a buffer by itself is a pointer that is only carried around
(`mapParam?_of_outEncoding?`), so no buffer holds a capacity, and making one parameter a buffer
changes none of the capacities that others depend on. That is why the buffers may be found one after
the other, each among parameters of which some are buffers already (`foldl_bindStep`).
-/

namespace NativeBindings.Mapper

variable {m : Mapper} {texts : List String} {types types' : List ManagedType}

/-! ## Candidates -/

/-- The first neighbour of the index `i` on the given side that holds a capacity is `j`. -/
def FirstCapacity (holds : Nat → Prop) (i j : Nat) : CapacitySide → Prop
  | .adjacent => holds j ∧ (j = i + 1 ∨ i = j + 1 ∧ ¬ holds (i + 1))
  | .preceding => holds j ∧ i = j + 1
  | .following => holds j ∧ j = i + 1
  | .never => False

theorem FirstCapacity.holds {holds : Nat → Prop} {i j : Nat} {side : CapacitySide}
    (h : FirstCapacity holds i j side) : holds j := by
  cases side with
  | never => exact h.elim
  | _ => exact h.1

theorem FirstCapacity.isNeighbour {holds : Nat → Prop} {i j : Nat} {side : CapacitySide}
    (h : FirstCapacity holds i j side) : j = i + 1 ∨ i = j + 1 := by
  cases side with
  | adjacent => exact h.2.imp_right And.left
  | preceding => exact .inr h.2
  | following => exact .inl h.2
  | never => exact h.elim

/-- The candidates are tried in order. -/
theorem find?_candidates_eq_some_iff {side : CapacitySide} {holds : Nat → Bool} {i j n : Nat}
    (hn : ∀ j, holds j → j < n) :
    (side.candidates i n).find? holds = some j ↔ FirstCapacity (holds ·) i j side := by
  unfold CapacitySide.candidates FirstCapacity
  cases side <;> grind

/-! ## The type of a buffer by itself -/

/-- Strings are written through pointers to their elements, neither constant nor tagged. -/
theorem outEncoding?_eq_some_iff {text : String} {encoding : Encoding} :
    m.outEncoding? text = some encoding ↔
      Tag.occurs m.policy.arrayTag.toList text.toList = false ∧
        ∃ element, CType.parse text.toList = .pointer false element ∧
          m.encoding? element = some encoding := by
  unfold outEncoding?
  cases Tag.occurs m.policy.arrayTag.toList text.toList with
  | true => simp
  | false =>
    rw [if_neg Bool.false_ne_true]
    constructor
    · intro h
      split at h
      · rename_i element hparse
        exact ⟨rfl, element, hparse, h⟩
      · cases h
    · rintro ⟨-, element, hparse, helement⟩
      rw [hparse]
      exact helement

/-- By itself such a pointer is carried around. -/
theorem mapParam?_of_outEncoding? {text : String} {encoding : Encoding}
    (h : m.outEncoding? text = some encoding) :
    m.mapParam? text = some
      { managed := "IntPtr"
        directive := .opaquePointer
        native := String.ofList (Text.trim text.toList) } := by
  obtain ⟨htag, element, hparse, hencoding⟩ := outEncoding?_eq_some_iff.1 h
  have hnative : CType.parse (Text.trim text.toList) = .pointer false element := by
    rw [CType.parse_congr (Text.collapse_trim text.toList), hparse]
  have hstring : m.stringEncoding? (.pointer false element) = some encoding := hencoding
  rw [mapParam?_eq]
  dsimp only
  rw [htag, Tag.replaceAll_eq htag, if_neg Bool.false_ne_true, if_neg Bool.false_ne_true, hnative,
    hstring]
  rfl

/-- A parameter that strings are written through holds no capacity. -/
theorem isCapacity_of_outEncoding? {text : String} {encoding : Encoding}
    (h : m.outEncoding? text = some encoding) : isCapacity (m.mapParam text) = false := by
  unfold mapParam
  rw [mapParam?_of_outEncoding? h]
  rfl

/-- Scalars and enumerations alone go by value as scalars. -/
theorem directive_mapType?_eq_scalar {encoding : Option Encoding} {extent : Extent}
    {native : String} {expanded : CType} {type : ManagedType}
    (h : m.mapType? encoding extent native expanded = some type)
    (htype : type.directive = .scalar) :
    expanded.scalarManaged? = some type.managed ∨
      m.isEnum expanded = true ∧ type.managed = "int" := by
  -- What is behind a pointer or a reference is never bound as a scalar.
  have hindirect : ∀ {u : CType} {writable : Bool} {extent : Extent},
      m.mapIndirect? u writable extent native ≠ some type := by
    intro u writable extent hindirect
    rcases directive_mapIndirect? hindirect with hd | hd | hd <;> rw [hd] at htype <;> cases htype
  rcases mapType?_cases h with hvalue | ⟨_, _, _, -, -, rfl⟩ | ⟨constant, _, e, -, -, rfl⟩ |
    ⟨_, _, -, -, h⟩ | ⟨_, _, -, h⟩
  · rcases mapValue?_cases hvalue with ⟨managed, hscalar, rfl⟩ | ⟨henum, rfl⟩ | ⟨-, rfl⟩ |
      ⟨_, -, rfl⟩
    · exact .inl hscalar
    · exact .inr ⟨henum, rfl⟩
    · cases htype
    · cases htype
  · cases htype
  · rcases mapString_cases e (!constant) native with hd | hd <;> rw [hd] at htype <;> cases htype
  · exact absurd h hindirect
  · exact absurd h hindirect

theorem mapType?_of_isEnum {expanded : CType} (h : m.isEnum expanded) (encoding : Option Encoding)
    (extent : Extent) (native : String) :
    m.mapType? encoding extent native expanded =
      some { managed := "int", directive := .scalar, native } := by
  have hvalue : m.mapValue? expanded native =
      some { managed := "int", directive := .scalar, native } := by
    unfold mapValue?
    rw [if_pos h]
    cases expanded with
    | scalar s => cases h
    | _ => rfl
  unfold mapType?
  rw [hvalue, Option.some_or]

/-- What holds capacities: enumerations, and integers of at least sixteen bits except for those of
the width of a pointer that have a sign. -/
def IsCounter (m : Mapper) (expanded : CType) : Prop :=
  m.isEnum expanded ∨
    ∃ s ∈ [Scalar.int16, .int32, .int64, .uint16, .uint32, .uint64, .size, .uintptr],
      expanded = .scalar s

/-- A parameter is such an integer by itself when its text says so. -/
theorem isCapacity_mapParam_iff (m : Mapper) (text : String) :
    isCapacity (m.mapParam text) ↔
      let native := (Tag.replaceAll m.policy.arrayTag.toList text.toList).trim
      m.IsCounter (m.expand (CType.parse native)) := by
  have hscalar : ∀ s : Scalar,
      s.managed ∈ ["int", "uint", "long", "ulong", "short", "ushort", "UIntPtr"] ↔
        s ∈ [Scalar.int16, .int32, .int64, .uint16, .uint32, .uint64, .size, .uintptr] := by
    intro s
    cases s <;> decide
  unfold mapParam IsCounter
  rw [mapParam?_eq]
  dsimp only
  generalize (Tag.replaceAll _ _).trim = native
  generalize m.expand _ = expanded
  constructor
  · intro h
    cases htype : m.mapType? _ _ _ expanded with
    | none =>
      rw [htype] at h
      cases h
    | some type =>
      rw [htype, Option.getD_some, isCapacity, Bool.and_eq_true, beq_iff_eq,
        decide_eq_true_iff] at h
      -- What goes by value as a scalar is a scalar or an enumeration.
      rcases directive_mapType?_eq_scalar htype h.1 with hmanaged | ⟨henum, -⟩
      · cases expanded with
        | scalar s =>
          rw [← Option.some.inj hmanaged] at h
          exact .inr ⟨s, (hscalar s).1 h.2, rfl⟩
        | _ => cases hmanaged
      · exact .inl henum
  · rintro (henum | ⟨s, hs, rfl⟩)
    · rw [mapType?_of_isEnum henum]
      rfl
    · exact decide_eq_true ((hscalar s).2 hs)

/-! ## One parameter -/

/-- A buffer has a permitted neighbour that holds its capacity, and keeps the native text and its
resolution. -/
theorem outBuffer?_eq_some_iff {i : Nat} {type : ManagedType} :
    m.outBuffer? texts types i = some type ↔ ∃ text own encoding j,
      texts[i]? = some text ∧ types[i]? = some own ∧ m.outEncoding? text = some encoding ∧
        FirstCapacity (fun j => types[j]?.any isCapacity) i j m.policy.outBuffer ∧
          type = { own with managed := stringBuilder, directive := .stringOut encoding j } := by
  have hlength : ∀ j, types[j]?.any isCapacity → j < types.length := by
    intro j hj
    by_contra hlt
    rw [List.getElem?_eq_none (Nat.le_of_not_lt hlt)] at hj
    cases hj
  unfold outBuffer?
  simp only [bind, Option.bind_eq_some_iff, pure, Option.some.injEq,
    find?_candidates_eq_some_iff hlength]
  constructor
  · rintro ⟨text, htext, own, hown, encoding, hencoding, j, hj, rfl⟩
    exact ⟨text, own, encoding, j, htext, hown, hencoding, hj, rfl⟩
  · rintro ⟨text, own, encoding, j, htext, hown, hencoding, hj, rfl⟩
    exact ⟨text, htext, own, hown, encoding, hencoding, j, hj, rfl⟩

/-- Whether a parameter is a buffer depends on its own type and on which parameters hold
capacities. -/
theorem outBuffer?_congr {i : Nat} (hown : types[i]? = types'[i]?)
    (hcapacity : ∀ j : Nat, types[j]?.any isCapacity = types'[j]?.any isCapacity) :
    m.outBuffer? texts types i = m.outBuffer? texts types' i := by
  ext type
  simp only [outBuffer?_eq_some_iff, hown, hcapacity]

theorem getElem?_bindOutBuffers (m : Mapper) (texts : List String) (types : List ManagedType)
    (i : Nat) : (m.bindOutBuffers texts types)[i]? =
      types[i]?.map fun type => (m.outBuffer? texts types i).getD type := by
  unfold bindOutBuffers
  simp [Function.comp_def]

/-- The parameters hold the same capacities when the buffers are found. -/
theorem isCapacity_bindOutBuffers (m : Mapper) (texts : List String) (j : Nat) :
    (m.bindOutBuffers texts (texts.map m.mapParam))[j]?.any isCapacity =
      (texts.map m.mapParam)[j]?.any isCapacity := by
  rw [getElem?_bindOutBuffers]
  cases hbuffer : m.outBuffer? texts (texts.map m.mapParam) j with
  | none => simp [Function.comp_def]
  | some type =>
    obtain ⟨text, own, encoding, k, htext, hown, hencoding, -, rfl⟩ :=
      outBuffer?_eq_some_iff.1 hbuffer
    rw [List.getElem?_map, htext, Option.map_some, Option.map_some, Option.any_some,
      Option.any_some, isCapacity_of_outEncoding? hencoding]
    rfl

/-! ## One after the other -/

/-- The parameter at an index becomes a buffer, when it is one among the given ones. -/
def bindStep (m : Mapper) (texts : List String) (types : List ManagedType) (i : Nat) :
    List ManagedType :=
  types.modify i fun own => (m.outBuffer? texts types i).getD own

/-- Behind some steps the parameters that they passed are as when all buffers are found at once, and
the others are as by themselves. -/
theorem getElem?_foldl_bindStep (m : Mapper) (texts : List String) (k j : Nat) :
    ((List.range k).foldl (m.bindStep texts) (texts.map m.mapParam))[j]? =
      if j < k then (m.bindOutBuffers texts (texts.map m.mapParam))[j]?
      else (texts.map m.mapParam)[j]? := by
  induction k generalizing j with
  | zero => rw [if_neg (Nat.not_lt_zero j)]; rfl
  | succ k ih =>
    rw [List.range_succ, List.foldl_append, List.foldl_cons, List.foldl_nil, bindStep,
      List.getElem?_modify]
    generalize (List.range k).foldl (m.bindStep texts) (texts.map m.mapParam) = types at ih ⊢
    -- The step looks at its own parameter, which is as by itself, and at where capacities are,
    -- which never changes.
    have hown : types[k]? = (texts.map m.mapParam)[k]? := by rw [ih, if_neg (Nat.lt_irrefl k)]
    have hcapacity : ∀ j : Nat,
        types[j]?.any isCapacity = (texts.map m.mapParam)[j]?.any isCapacity := by
      intro j
      rw [ih]
      split
      · exact isCapacity_bindOutBuffers m texts j
      · rfl
    rw [outBuffer?_congr hown hcapacity]
    by_cases hj : k = j
    · subst hj
      simp only [if_true]
      rw [if_pos (Nat.lt_succ_self k), getElem?_bindOutBuffers, hown]
      rfl
    · have hlt : j < k + 1 ↔ j < k := by omega
      simp only [hj, if_false, id_map', ih, hlt]

/-- The buffers may be found one after the other. -/
theorem foldl_bindStep (m : Mapper) (texts : List String) :
    (List.range texts.length).foldl (m.bindStep texts) (texts.map m.mapParam) =
      m.bindOutBuffers texts (texts.map m.mapParam) := by
  apply List.ext_getElem?
  intro j
  rw [getElem?_foldl_bindStep]
  split
  · rfl
  · rename_i hj
    rw [getElem?_bindOutBuffers, List.getElem?_eq_none (by simpa using hj), Option.map_none]

/-! ## Signatures -/

/-- The parameter at an index is an integer by itself that may hold a capacity. -/
def HoldsCapacity (m : Mapper) (d : Declaration) (j : Nat) : Prop :=
  ∃ q, d.params[j]? = some q ∧ isCapacity (m.mapParam q.typeText)

/-- The parameter `p` at the index `i` is a buffer of strings of the given encoding, and its
capacity is the parameter at `j`. -/
structure IsOutBuffer (m : Mapper) (d : Declaration) (i : Nat) (p : Parameter)
    (encoding : Encoding) (j : Nat) : Prop where
  /-- Output buffers are looked for. -/
  enabled : m.policy.outBuffer ≠ .never
  /-- No tag makes an array of the parameter. -/
  untagged : Tag.occurs m.policy.arrayTag.toList p.typeText.toList = false
  /-- It is a pointer to elements of strings that may be written. -/
  pointer : ∃ element, CType.parse p.typeText.toList = .pointer false element ∧
    m.encoding? element = some encoding
  /-- The capacity is the first neighbour on a permitted side that can hold it. -/
  capacity : FirstCapacity (m.HoldsCapacity d) i j m.policy.outBuffer

theorem IsOutBuffer.outEncoding?_eq {d : Declaration} {i j : Nat} {p : Parameter}
    {encoding : Encoding} (h : m.IsOutBuffer d i p encoding j) :
    m.outEncoding? p.typeText = some encoding :=
  outEncoding?_eq_some_iff.2 ⟨h.untagged, h.pointer⟩

theorem any_isCapacity_iff {d : Declaration} {j : Nat} :
    ((d.params.map (·.typeText)).map m.mapParam)[j]?.any isCapacity ↔ m.HoldsCapacity d j := by
  unfold HoldsCapacity
  simp [Option.any_eq_true]

/-- The buffers among the parameters of a declaration. -/
theorem outBuffer?_declaration_iff {d : Declaration} {i : Nat} {p : Parameter}
    (hp : d.params[i]? = some p) (type : ManagedType) :
    let texts := d.params.map (·.typeText)
    m.outBuffer? texts (texts.map m.mapParam) i = some type ↔ ∃ encoding j,
      m.IsOutBuffer d i p encoding j ∧
        type = { m.mapParam p.typeText with
          managed := stringBuilder, directive := .stringOut encoding j } := by
  dsimp only
  rw [outBuffer?_eq_some_iff]
  simp only [any_isCapacity_iff]
  simp only [List.getElem?_map, hp, Option.map_some, Option.some.injEq,
    outEncoding?_eq_some_iff]
  constructor
  · rintro ⟨text, own, encoding, j, rfl, rfl, ⟨htag, hpointer⟩, hcapacity, rfl⟩
    refine ⟨encoding, j, ⟨?_, htag, hpointer, hcapacity⟩, rfl⟩
    intro hnever
    rw [hnever] at hcapacity
    exact hcapacity
  · rintro ⟨encoding, j, h, rfl⟩
    exact ⟨_, _, encoding, j, rfl, rfl, ⟨h.untagged, h.pointer⟩, h.capacity, rfl⟩

/-- The parameter at an index of a signature is the parameter of the declaration, with its type by
itself unless it is a buffer. -/
theorem getElem?_params_signature (m : Mapper) (d : Declaration) (i : Nat) :
    (m.signature d).params[i]? = d.params[i]?.map fun p =>
      let texts := d.params.map (·.typeText)
      ⟨escapeIdentifier p.name,
        (m.outBuffer? texts (texts.map m.mapParam) i).getD (m.mapParam p.typeText)⟩ := by
  unfold signature
  dsimp only
  rw [List.getElem?_map, List.zip, List.getElem?_zipWith', getElem?_bindOutBuffers,
    List.getElem?_map, List.getElem?_map]
  cases d.params[i]? <;> rfl

theorem exists_getElem?_of_mem_params {d : Declaration} {q : ManagedParameter}
    (hq : q ∈ (m.signature d).params) :
    ∃ (i : Nat) (p : Parameter), d.params[i]? = some p ∧ (m.signature d).params[i]? = some q := by
  obtain ⟨i, hi⟩ := List.mem_iff_getElem?.1 hq
  have hparam := hi
  rw [getElem?_params_signature] at hparam
  obtain ⟨p, hp, -⟩ := Option.map_eq_some_iff.1 hparam
  exact ⟨i, p, hp, hi⟩

theorem names_params_signature (m : Mapper) (d : Declaration) :
    (m.signature d).params.map (·.name) = d.params.map (escapeIdentifier ·.name) := by
  apply List.ext_getElem?
  intro i
  rw [List.getElem?_map, getElem?_params_signature, Option.map_map, List.getElem?_map]
  rfl

theorem types_params_signature (m : Mapper) (d : Declaration) :
    let texts := d.params.map (·.typeText)
    (m.signature d).params.map (·.type) = m.bindOutBuffers texts (texts.map m.mapParam) := by
  apply List.ext_getElem?
  intro i
  rw [List.getElem?_map, getElem?_params_signature, getElem?_bindOutBuffers, List.getElem?_map,
    List.getElem?_map, Option.map_map, Option.map_map, Option.map_map]
  rfl

/-- A parameter of a signature has its type by itself or is a buffer. -/
theorem type_params_signature {d : Declaration} {i : Nat} {p : Parameter} {q : ManagedParameter}
    (hp : d.params[i]? = some p) (hq : (m.signature d).params[i]? = some q) :
    (∀ encoding j, ¬ m.IsOutBuffer d i p encoding j) ∧ q.type = m.mapParam p.typeText ∨
      ∃ encoding j, m.IsOutBuffer d i p encoding j ∧
        q.type = { m.mapParam p.typeText with
          managed := stringBuilder, directive := .stringOut encoding j } := by
  have hiff := outBuffer?_declaration_iff (m := m) hp
  rw [getElem?_params_signature, hp, Option.map_some] at hq
  obtain rfl := Option.some.inj hq
  dsimp only at hiff ⊢
  cases hbuffer : m.outBuffer? (d.params.map (·.typeText))
      ((d.params.map (·.typeText)).map m.mapParam) i with
  | none =>
    refine .inl ⟨fun encoding j h => ?_, rfl⟩
    have hsome := (hiff _).2 ⟨encoding, j, h, rfl⟩
    rw [hbuffer] at hsome
    cases hsome
  | some type => exact .inr ((hiff type).1 hbuffer)

/-- Which parameters hold a capacity is told by their texts. -/
theorem holdsCapacity_iff {d : Declaration} {j : Nat} {q : Parameter} (hq : d.params[j]? = some q) :
    m.HoldsCapacity d j ↔
      let native := (Tag.replaceAll m.policy.arrayTag.toList q.typeText.toList).trim
      m.IsCounter (m.expand (CType.parse native)) := by
  rw [← isCapacity_mapParam_iff]
  unfold HoldsCapacity
  simp [hq]

/-- The elements tell the encoding, and the first neighbour is one. -/
theorem IsOutBuffer.unique {d : Declaration} {i j j' : Nat} {p : Parameter}
    {encoding encoding' : Encoding} (hp : d.params[i]? = some p)
    (h : m.IsOutBuffer d i p encoding j) (h' : m.IsOutBuffer d i p encoding' j') :
    encoding = encoding' ∧ j = j' := by
  have hiff := outBuffer?_declaration_iff (m := m) hp
  have hsame := ((hiff _).2 ⟨_, _, h, rfl⟩).symm.trans ((hiff _).2 ⟨_, _, h', rfl⟩)
  have hdirective := congrArg ManagedType.directive (Option.some.inj hsame)
  exact Directive.stringOut.inj hdirective

/-- What holds a capacity by itself holds it in the signature. -/
theorem HoldsCapacity.signature {d : Declaration} {j : Nat} (h : m.HoldsCapacity d j) :
    ∃ r, (m.signature d).params[j]? = some r ∧ isCapacity r.type := by
  obtain ⟨q, hq, hcapacity⟩ := h
  obtain ⟨r, hr⟩ : ∃ r, (m.signature d).params[j]? = some r :=
    ⟨_, by rw [getElem?_params_signature, hq]; rfl⟩
  refine ⟨r, hr, ?_⟩
  rcases type_params_signature hq hr with ⟨-, htype⟩ | ⟨encoding, k, hout, -⟩
  · rwa [htype]
  · rw [isCapacity_of_outEncoding? hout.outEncoding?_eq] at hcapacity
    cases hcapacity

/-- Signatures have the parameters of their declarations, in order and with their names escaped, and
the types are those of the texts by themselves until buffers are found one after the other. A type
changes exactly when the parameter is an output buffer: then it becomes a string builder whose
encoding is that of the elements and whose capacity is a neighbour, which stays an integer. Strings
that are only read keep their types. Capacities are held by what the texts say is a counter. -/
theorem params_signature (m : Mapper) (d : Declaration) :
    (m.signature d).params.map (·.name) = d.params.map (escapeIdentifier ·.name) ∧
    (m.signature d).params.map (·.type) =
      (List.range d.params.length).foldl (m.bindStep (d.params.map (·.typeText)))
        (d.params.map (m.mapParam ·.typeText)) ∧
    (∀ i p, d.params[i]? = some p → ∃ q, (m.signature d).params[i]? = some q ∧
      (∀ encoding j, m.IsOutBuffer d i p encoding j →
        q.type = { m.mapParam p.typeText with
          managed := stringBuilder, directive := .stringOut encoding j }) ∧
      ((∀ encoding j, ¬ m.IsOutBuffer d i p encoding j) → q.type = m.mapParam p.typeText) ∧
      (∀ encoding j, q.type.directive = .stringOut encoding j →
        m.IsOutBuffer d i p encoding j ∧ (j = i + 1 ∨ i = j + 1) ∧
          ∃ r, (m.signature d).params[j]? = some r ∧ isCapacity r.type) ∧
      (∀ encoding, (m.mapParam p.typeText).directive = .stringIn encoding →
        q.type = m.mapParam p.typeText)) ∧
    ∀ j q, d.params[j]? = some q → (m.HoldsCapacity d j ↔
      let native := (Tag.replaceAll m.policy.arrayTag.toList q.typeText.toList).trim
      m.IsCounter (m.expand (CType.parse native))) := by
  refine ⟨names_params_signature m d, ?_, fun i p hp => ?_, fun j q hq => holdsCapacity_iff hq⟩
  · have hloop := foldl_bindStep m (d.params.map (·.typeText))
    rw [List.length_map, List.map_map] at hloop
    rw [types_params_signature, List.map_map]
    exact hloop.symm
  · obtain ⟨q, hq⟩ : ∃ q, (m.signature d).params[i]? = some q :=
      ⟨_, by rw [getElem?_params_signature, hp]; rfl⟩
    refine ⟨q, hq, ?_⟩
    -- A type by itself is no buffer, and a buffer is what it is by the text, its encoding and its
    -- neighbour.
    rcases type_params_signature hp hq with ⟨hnot, htype⟩ | ⟨encoding, j, hout, htype⟩
    · refine ⟨fun encoding j h => absurd h (hnot encoding j), fun _ => htype,
        fun encoding j h => ?_, fun _ _ => htype⟩
      rw [htype] at h
      exact absurd h (directive_mapParam m p.typeText encoding j)
    · refine ⟨fun e k h => ?_, fun hnot => absurd hout (hnot encoding j), fun e k h => ?_,
        fun e h => ?_⟩
      · obtain ⟨rfl, rfl⟩ := hout.unique hp h
        exact htype
      · rw [htype] at h
        obtain ⟨rfl, rfl⟩ := Directive.stringOut.inj h
        exact ⟨hout, hout.capacity.isNeighbour, hout.capacity.holds.signature⟩
      · unfold mapParam at h
        rw [mapParam?_of_outEncoding? hout.outEncoding?_eq] at h
        cases h

/-- Two buffers share the integer between them, and the string behind them is only read. -/
theorem params_signature_shared :
    let m : Mapper := ⟨.default, .cdecl⟩
    let title : Parameter := ⟨"wchar_t*", "params"⟩
    let d : Declaration :=
      { location := default, returnType := "void", name := "read"
        params := [⟨"char*", "name"⟩, ⟨"unsigned short", "size"⟩, title, ⟨"const char*", "path"⟩]
        convention := none, doc := none }
    m.IsOutBuffer d 2 title .unicode 1 ∧
      (∃ q, (m.signature d).params[2]? = some q ∧
        q.type = ⟨"System.Text.StringBuilder", .stringOut .unicode 1, "wchar_t*", true⟩) ∧
      ∃ q, (m.signature d).params[3]? = some q ∧
        q.type = ⟨"string", .stringIn .ansi, "const char*", true⟩ := by
  intro m title d
  -- The neighbour behind is a string, so the one in front is the first that holds a capacity.
  have hbuffer : m.IsOutBuffer d 2 title .unicode 1 :=
    { enabled := by decide
      untagged := Tag.occurs_of_not_mem (by decide)
      pointer := ⟨.scalar .wchar, by decide +kernel, by decide⟩
      capacity := by
        refine ⟨⟨_, rfl, by decide +kernel⟩, .inr ⟨rfl, ?_⟩⟩
        rintro ⟨q, hq, hcapacity⟩
        cases hq
        exact absurd hcapacity (by decide +kernel) }
  obtain ⟨-, -, hparams, -⟩ := params_signature m d
  obtain ⟨q, hq, htype, -⟩ := hparams 2 title rfl
  obtain ⟨r, hr, -, -, -, hread⟩ := hparams 3 ⟨"const char*", "path"⟩ rfl
  refine ⟨hbuffer, ⟨q, hq, (htype _ _ hbuffer).trans (by decide +kernel)⟩, r, hr, ?_⟩
  exact (hread .ansi (by decide +kernel)).trans (by decide +kernel)

end NativeBindings.Mapper
