import NativeBindings.Proofs.Marshal.Counterpart

/-!
# Types that may stand for each other

Two texts of a parameter's type are interchangeable when, in every declaration, one may be replaced
by the other without a change of what the signature binds. Besides the counterpart of the text by
itself this depends on the buffers that strings are written into: whether the text is one of them,
and whether it holds the capacity of a neighbour. `bound_bindOutBuffers` states the buffers of a
declaration in terms of what the counterparts bind and of `outEncoding?`, so these two decide
(`interchangeable_iff`).
-/

namespace NativeBindings.Mapper

variable {m : Mapper} {t t' : String}

/-- In every declaration a parameter of the one type may get the other one: the signature binds
alike. -/
def Interchangeable (m : Mapper) (t t' : String) : Prop :=
  ∀ (d : Declaration) (ps : List Parameter) (name : String) (qs : List Parameter),
    (m.signature { d with params := ps ++ ⟨t, name⟩ :: qs }).sameBinding
      (m.signature { d with params := ps ++ ⟨t', name⟩ :: qs })

/-! ## Buffers -/

/-- Whether what is bound can hold the capacity of a buffer. -/
def isCapacityBound (b : String × Directive) : Bool := isCapacity ⟨b.1, b.2, "", true⟩

/-- What the parameter at an index binds as a buffer, when it is one, given the encodings of strings
that the parameters may receive and what they bind by themselves. -/
def boundBuffer? (side : CapacitySide) (encodings : List (Option Encoding))
    (bounds : List (String × Directive)) (i : Nat) : Option (String × Directive) := do
  let encoding ← encodings[i]?.join
  let _ ← bounds[i]?
  let capacity ← (side.candidates i bounds.length).find? fun j => bounds[j]?.any isCapacityBound
  return (stringBuilder, .stringOut encoding capacity)

/-- What a buffer binds depends on what the parameters bind by themselves. -/
theorem bound_outBuffer? (m : Mapper) (texts : List String) (types : List ManagedType) (i : Nat) :
    (m.outBuffer? texts types i).map ManagedType.bound =
      boundBuffer? m.policy.outBuffer (texts.map m.outEncoding?) (types.map ManagedType.bound)
        i := by
  -- Whether a parameter holds a capacity is told by what it binds.
  have hcapacity : ∀ j : Nat, (types[j]?.map ManagedType.bound).any isCapacityBound =
      types[j]?.any isCapacity := by
    intro j
    rw [Option.any_map]
    rfl
  unfold outBuffer? boundBuffer?
  simp only [List.getElem?_map, List.length_map, hcapacity]
  generalize (m.policy.outBuffer.candidates i types.length).find? _ = capacity?
  cases texts[i]? with
  | none => rfl
  | some text =>
    cases types[i]? with
    | none =>
      cases hencoding : m.outEncoding? text <;> simp [hencoding]
    | some type =>
      cases hencoding : m.outEncoding? text with
      | none => simp [hencoding]
      | some encoding =>
        cases capacity? with
        | none => simp [hencoding]
        | some capacity => simp [hencoding, ManagedType.bound]

/-- What the parameters of a declaration bind, given what they bind by themselves. -/
theorem bound_bindOutBuffers (m : Mapper) (texts : List String) (types : List ManagedType) :
    (m.bindOutBuffers texts types).map ManagedType.bound =
      (types.map ManagedType.bound).zipIdx.map fun (b, i) =>
        (boundBuffer? m.policy.outBuffer (texts.map m.outEncoding?)
          (types.map ManagedType.bound) i).getD b := by
  unfold bindOutBuffers
  rw [List.zipIdx_map, List.map_map, List.map_map]
  refine List.map_congr_left fun x _ => ?_
  obtain ⟨type, i⟩ := x
  change ((m.outBuffer? texts types i).getD type).bound =
    (boundBuffer? m.policy.outBuffer (texts.map m.outEncoding?) (types.map ManagedType.bound)
      i).getD type.bound
  rw [← bound_outBuffer?]
  cases m.outBuffer? texts types i <;> rfl

/-- Without a side for capacities there are no buffers. -/
theorem boundBuffer?_never (encodings : List (Option Encoding)) (bounds : List (String × Directive))
    (i : Nat) : boundBuffer? .never encodings bounds i = none := by
  unfold boundBuffer?
  cases encodings[i]?.join with
  | none => rfl
  | some encoding => cases bounds[i]? <;> rfl

/-- Parameters that bind the same by themselves and may receive the same strings bind the same in a
declaration. Where there are no buffers the strings do not matter. -/
theorem bound_bindOutBuffers_congr {texts texts' : List String}
    (hbound : texts.map (m.mapParam · |>.bound) = texts'.map (m.mapParam · |>.bound))
    (hbuffer : m.policy.outBuffer = .never ∨
      texts.map m.outEncoding? = texts'.map m.outEncoding?) :
    (m.bindOutBuffers texts (texts.map m.mapParam)).map ManagedType.bound =
      (m.bindOutBuffers texts' (texts'.map m.mapParam)).map ManagedType.bound := by
  have hbounds : ∀ texts : List String, (texts.map m.mapParam).map ManagedType.bound =
      texts.map (m.mapParam · |>.bound) := fun texts => List.map_map
  rw [bound_bindOutBuffers, bound_bindOutBuffers, hbounds, hbounds, hbound]
  rcases hbuffer with hnever | hencodings
  · rw [hnever]
    simp only [boundBuffer?_never]
  · rw [hencodings]

/-! ## Signatures -/

/-- What a signature binds, in terms of its parameters by themselves. -/
theorem binding_signature (m : Mapper) (d : Declaration) :
    (m.signature d).binding = {
      name := d.name
      convention := m.convention
      returned := (m.mapReturn d.returnType).bound
      params := (m.bindOutBuffers (d.params.map (·.typeText))
        ((d.params.map (·.typeText)).map m.mapParam)).map ManagedType.bound } := by
  have hzip : ∀ (ps : List Parameter) (types : List ManagedType), types.length ≤ ps.length →
      ((ps.zip types).map fun pair =>
        (⟨escapeIdentifier pair.1.name, pair.2⟩ : ManagedParameter)).map (·.type.bound) =
          types.map ManagedType.bound := by
    intro ps types hlength
    rw [List.map_map]
    have hsnd := congrArg (List.map ManagedType.bound) (List.map_snd_zip hlength)
    rw [List.map_map] at hsnd
    exact hsnd
  unfold signature Signature.binding
  simp only [Binding.mk.injEq, true_and]
  apply hzip
  unfold bindOutBuffers
  simp

/-- Interchangeable texts bind alike between the same neighbours. -/
theorem Interchangeable.bound_bindOutBuffers (h : Interchangeable m t t')
    (before after : List String) :
    (m.bindOutBuffers (before ++ t :: after) ((before ++ t :: after).map m.mapParam)).map
        ManagedType.bound =
      (m.bindOutBuffers (before ++ t' :: after) ((before ++ t' :: after).map m.mapParam)).map
        ManagedType.bound := by
  let named : List String → List Parameter := List.map fun text => ⟨text, ""⟩
  have hnamed : ∀ texts : List String, (named texts).map (·.typeText) = texts := fun texts =>
    (List.map_map).trans (List.map_id texts)
  let d : Declaration :=
    { location := default, returnType := "void", name := "f", params := [], convention := none,
      doc := none }
  have hbinding := Signature.sameBinding_iff.1 (h d (named before) "" (named after))
  rw [binding_signature, binding_signature] at hbinding
  have hparams := congrArg Binding.params hbinding
  simp only [List.map_append, List.map_cons, hnamed] at hparams
  simpa using hparams

/-- A parameter alone is no buffer. -/
theorem boundBuffer?_alone (side : CapacitySide) (encoding : Option Encoding)
    (b : String × Directive) : boundBuffer? side [encoding] [b] 0 = none := by
  cases encoding with
  | none => rfl
  | some encoding => cases side <;> rfl

/-- An integer is passed as it is, whatever the tables say. -/
theorem bound_mapParam_int (m : Mapper) : (m.mapParam "int").bound = ("int", .scalar) := by
  have hparse : CType.parse "int".toList = .scalar .int32 := by decide +kernel
  rw [bound_mapParam (Tag.occurs_of_not_mem (by decide)), hparse]
  rfl

/-- Between two integers a pointer to characters is a buffer, unless there are none. -/
theorem boundBuffer?_between {side : CapacitySide} (hside : side ≠ .never) :
    ∃ capacity, ∀ (before encoding after : Option Encoding) (b : String × Directive),
      boundBuffer? side [before, encoding, after] [("int", .scalar), b, ("int", .scalar)] 1 =
        encoding.map fun encoding => (stringBuilder, .stringOut encoding capacity) := by
  cases side with
  | never => exact absurd rfl hside
  | preceding => exact ⟨0, fun _ encoding _ _ => by cases encoding <;> rfl⟩
  | following => exact ⟨2, fun _ encoding _ _ => by cases encoding <;> rfl⟩
  | adjacent => exact ⟨2, fun _ encoding _ _ => by cases encoding <;> rfl⟩

/-- Two texts are interchangeable exactly when they bind the same by themselves and, where strings
are written into buffers at all, may receive the same strings. -/
theorem interchangeable_iff :
    Interchangeable m t t' ↔ (m.mapParam t).bound = (m.mapParam t').bound ∧
      (m.policy.outBuffer = .never ∨ m.outEncoding? t = m.outEncoding? t') := by
  constructor
  · intro h
    -- As the only parameter neither text can be a buffer.
    have hbound : (m.mapParam t).bound = (m.mapParam t').bound := by
      have halone := h.bound_bindOutBuffers [] []
      simpa [Mapper.bound_bindOutBuffers, boundBuffer?_alone] using halone
    refine ⟨hbound, ?_⟩
    by_cases hnever : m.policy.outBuffer = .never
    · exact .inl hnever
    · right
      -- Between two integers each is a buffer, if it receives strings at all.
      obtain ⟨capacity, hbuffer⟩ := boundBuffer?_between hnever
      let between (encoding : Option Encoding) : Option (String × Directive) :=
        encoding.map fun encoding => (stringBuilder, .stringOut encoding capacity)
      have hmiddle : (between (m.outEncoding? t)).getD (m.mapParam t).bound =
          (between (m.outEncoding? t')).getD (m.mapParam t').bound := by
        have hbetween := congrArg (·[1]?) (h.bound_bindOutBuffers ["int"] ["int"])
        simpa [Mapper.bound_bindOutBuffers, bound_mapParam_int, hbuffer] using hbetween
      -- Where only one of them receives strings, the other one binds no buffer by itself.
      have hnone : ∀ (t : String) (e : Encoding),
          (m.mapParam t).bound ≠ (stringBuilder, .stringOut e capacity) := fun t e heq =>
        directive_mapParam m t e capacity (congrArg Prod.snd heq)
      cases h1 : m.outEncoding? t with
      | none =>
        cases h2 : m.outEncoding? t' with
        | none => rfl
        | some e =>
          rw [h1, h2] at hmiddle
          exact absurd hmiddle (hnone t e)
      | some e =>
        cases h2 : m.outEncoding? t' with
        | none =>
          rw [h1, h2] at hmiddle
          exact absurd hmiddle.symm (hnone t' e)
        | some e' =>
          rw [h1, h2] at hmiddle
          have hdirective : Directive.stringOut e capacity = .stringOut e' capacity :=
            congrArg Prod.snd hmiddle
          rw [(Directive.stringOut.inj hdirective).1]
  · rintro ⟨hbound, hbuffer⟩ d ps name qs
    rw [Signature.sameBinding_iff, binding_signature, binding_signature]
    congr 1
    apply bound_bindOutBuffers_congr
    · simp [hbound]
    · exact hbuffer.imp id fun hencoding => by simp [hencoding]

end NativeBindings.Mapper
