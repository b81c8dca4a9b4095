import NativeBindings.Proofs.Emission.Conflict

/-!
# Truth values of one byte

A truth value has one byte on the native side, and the managed side has to be told so. The attribute
in front of a parameter is read back here (`marshalArguments`): it marks one byte for a value,
behind a pointer or reference and for the array that a tag asks for, and for nothing else
(`marksOneByte_renderParameter`). An array of fixed length gets its length and no type of its
elements. Of the parameters that the mapper makes truth values, these are the only ones without the
mark, as long as no structure is configured to be one (`marksOneByte_iff`).
-/

namespace NativeBindings.Emission

/-! ## Reading the attribute back -/

/-- The attributes in the square brackets that a parameter starts with; none without brackets. -/
def attributeList : Text → Text
  | '[' :: rest => rest.takeWhile (· != ']')
  | _ => []

/-- The arguments of `MarshalAs` in a list of attributes; none without it. -/
def marshalArguments (attributes : Text) : List Text :=
  match Text.splitFirst? "MarshalAs(".toList attributes with
  | some (_, after) => ((after.takeWhile (· != ')')).splitOn ',').map Text.trimLeft
  | none => []

/-- The attributes mark a value as one byte wide, or an array as one of such elements. -/
def MarksOneByte (attributes : Text) : Prop :=
  (marshalArguments attributes).head? = some "UnmanagedType.U1".toList ∨
    (marshalArguments attributes).head? = some "UnmanagedType.LPArray".toList ∧
      "ArraySubType = UnmanagedType.U1".toList ∈ marshalArguments attributes

instance (attributes : Text) : Decidable (MarksOneByte attributes) :=
  inferInstanceAs (Decidable (_ ∨ _))

theorem attributeList_bracketed {body : Text} (h : ']' ∉ body) (rest : Text) :
    attributeList ('[' :: (body ++ ']' :: rest)) = body := by
  unfold attributeList
  have hbody : ∀ c ∈ body, (c != ']') = true := fun c hc =>
    bne_iff_ne.2 (ne_of_mem_of_not_mem hc h)
  simp [List.takeWhile_append_of_pos hbody]

/-- The arguments are read back that stand between the parentheses. -/
theorem marshalArguments_append {arguments : Text} (h : ')' ∉ arguments) (rest : Text) :
    marshalArguments ("MarshalAs(".toList ++ (arguments ++ ')' :: rest)) =
      (arguments.splitOn ',').map Text.trimLeft := by
  have harguments : ∀ c ∈ arguments, (c != ')') = true := fun c hc =>
    bne_iff_ne.2 (ne_of_mem_of_not_mem hc h)
  unfold marshalArguments
  rw [Text.splitFirst?_append]
  simp [List.takeWhile_append_of_pos harguments]

/-- The elements of an array of fixed length could be marked beside its length. -/
example : MarksOneByte
    "MarshalAs(UnmanagedType.LPArray, ArraySubType = UnmanagedType.U1, SizeConst = 4)".toList := by
  decide

/-- An array of fixed length has its length as its one argument besides. -/
theorem marshalArguments_fixedArray (length : Nat) (rest : Text) :
    marshalArguments (attributeList ((Shape.fixedArray length).marking.toList ++ rest)) =
      ["UnmanagedType.LPArray".toList, "SizeConst = ".toList ++ (toString length).toList] := by
  have hdigits : ∀ c : Char, c.isDigit = false → c ∉ (toString length).toList :=
    fun c hc => Text.not_mem_toString hc length
  have hcomma := hdigits ',' (by decide)
  have hclose := hdigits ')' (by decide)
  have hbracket := hdigits ']' (by decide)
  -- From here on the digits are any text without the three characters.
  rw [Shape.marking_fixedArray, String.toList_append, String.toList_append]
  generalize (toString length).toList = digits at hcomma hclose hbracket
  have hmarking : "[MarshalAs(UnmanagedType.LPArray, SizeConst = ".toList ++ digits ++
      ")]".toList ++ rest = '[' :: ("MarshalAs(".toList ++
        ("UnmanagedType.LPArray, SizeConst = ".toList ++ digits ++ [')']) ++ ']' :: rest) := by
    simp
  -- The arguments stand between the parentheses, with one comma among them.
  have hsplit : ("UnmanagedType.LPArray, SizeConst = ".toList ++ digits).splitOn ',' =
      ["UnmanagedType.LPArray".toList, " SizeConst = ".toList ++ digits] := by
    have hlist : "UnmanagedType.LPArray, SizeConst = ".toList ++ digits =
        [','].intercalate ["UnmanagedType.LPArray".toList, " SizeConst = ".toList ++ digits] := by
      simp [List.intercalate]
    rw [hlist]
    exact List.splitOn_intercalate ',' (by simp [hcomma]) (by simp)
  have htrim : Text.trimLeft (" SizeConst = ".toList ++ digits) =
      "SizeConst = ".toList ++ digits := by
    have hspace : " SizeConst = ".toList = ' ' :: 'S' :: "izeConst = ".toList := by simp
    have hword : "SizeConst = ".toList = 'S' :: "izeConst = ".toList := by simp
    rw [hspace, hword]
    rfl
  have hfirst : Text.trimLeft "UnmanagedType.LPArray".toList = "UnmanagedType.LPArray".toList := by
    decide
  rw [hmarking, attributeList_bracketed (by simp [hbracket]),
    marshalArguments_append (by simp [hclose]), hsplit, List.map_cons, List.map_cons, List.map_nil,
    htrim, hfirst]

/-- The attributes of a parameter are those of its shape. -/
theorem attributeList_marking {s : Shape} (hne : s.marking.toList ≠ []) (rest : Text) :
    attributeList (s.marking.toList ++ rest) = attributeList s.marking.toList := by
  obtain ⟨body, hmarking, hbody⟩ := s.bracketed_marking.resolve_left hne
  have hrest := attributeList_bracketed hbody rest
  have hend := attributeList_bracketed hbody []
  rw [hmarking]
  simpa [hend] using hrest

/-- Whether a shape marks one byte. -/
def Shape.oneByte : Shape → Bool
  | .value oneByte | .reference oneByte | .array _ oneByte => oneByte
  | .fixedArray _ | .text _ => false

theorem marksOneByte_marking {s : Shape} {rest : Text}
    (hrest : s.marking.toList = [] → rest.head? ≠ some '[') :
    MarksOneByte (attributeList (s.marking.toList ++ rest)) ↔ s.oneByte = true := by
  have hnone : s.marking.toList = [] → attributeList (s.marking.toList ++ rest) = [] := by
    intro hmarking
    have hhead := hrest hmarking
    rw [hmarking, List.nil_append]
    unfold attributeList
    split
    · simp at hhead
    · rfl
  cases s with
  | value oneByte | reference oneByte =>
    cases oneByte with
    | false =>
      rw [hnone (by decide)]
      decide
    | true =>
      rw [attributeList_marking (by decide)]
      decide
  | array writable oneByte =>
    rw [attributeList_marking (by simp)]
    cases writable <;> cases oneByte <;> decide
  | fixedArray length =>
    -- Beside the length there is no room for the elements.
    unfold MarksOneByte
    rw [marshalArguments_fixedArray]
    simp [Shape.oneByte]
  | text encoding =>
    rw [attributeList_marking (by simp)]
    cases encoding <;> decide

/-- A shape marks one byte for a truth value by value, behind a pointer and in an array of the
caller. -/
theorem oneByte_shape (t : ManagedType) :
    (shape t).oneByte = true ↔ t.managed = "bool" ∧
      (t.directive = .scalar ∨ ∃ extent writable, t.directive = .buffer extent writable) := by
  have hbool : isBool t = true ↔ t.managed = "bool" := beq_iff_eq
  unfold shape
  cases t.directive with
  | buffer extent writable => cases extent <;> simp [Shape.oneByte, hbool]
  | _ => simp [Shape.oneByte, hbool]

/-- The attributes of a parameter mark one byte exactly where its shape does. -/
theorem marksOneByte_renderParameter {p : ManagedParameter} (h : Compact p.type.managed) :
    MarksOneByte (attributeList (renderParameter p).toList) ↔ p.type.managed = "bool" ∧
      (p.type.directive = .scalar ∨
        ∃ extent writable, p.type.directive = .buffer extent writable) := by
  rw [← oneByte_shape]
  unfold renderParameter
  rw [declaredType_eq, String.append_assoc, String.append_assoc, String.toList_append]
  refine marksOneByte_marking fun hmarking => ?_
  have hhead := head?_spelled_ne h hmarking
  rw [String.toList_append, List.head?_append]
  cases hspelled : (spelled _ _ _).toList.head? with
  | none => simp
  | some c =>
    rw [hspelled] at hhead
    exact hhead

end NativeBindings.Emission

namespace NativeBindings.Mapper

open Emission (Compact attributeList MarksOneByte renderParameter)

variable {m : Mapper} {t : CType} {native : String} {type : ManagedType}

/-! ## Truth values that the mapper gives -/

/-- No structure is configured to be a truth value. -/
def NoStructIsBool (m : Mapper) : Prop := ∀ p ∈ m.policy.valueStructs, p.2 ≠ "bool"

instance (m : Mapper) : Decidable m.NoStructIsBool := List.decidableBAll _ m.policy.valueStructs

theorem valueStruct?_ne_bool (hm : m.NoStructIsBool) {managed : String}
    (h : m.valueStruct? t = some managed) : managed ≠ "bool" :=
  valueStruct?_of_forall (P := (· ≠ "bool")) hm h

/-- A truth value by value is a scalar. -/
theorem mapValue?_of_bool (hm : m.NoStructIsBool) (h : m.mapValue? t native = some type)
    (hbool : type.managed = "bool") : type.directive = .scalar := by
  rcases mapValue?_cases h with ⟨_, -, rfl⟩ | ⟨-, rfl⟩ | ⟨-, rfl⟩ | ⟨_, hstruct, rfl⟩
  · rfl
  · rfl
  · exact absurd hbool (show "IntPtr" ≠ "bool" by decide)
  · exact absurd hbool (valueStruct?_ne_bool hm hstruct)

/-- A truth value behind a pointer or reference is a buffer. -/
theorem mapIndirect?_of_bool (hm : m.NoStructIsBool) {writable : Bool} {extent : Extent}
    (h : m.mapIndirect? t writable extent native = some type) (hbool : type.managed = "bool") :
    type.directive = .buffer extent writable := by
  rcases mapIndirect?_cases h with ⟨_, -, rfl⟩ | ⟨_, -, hstruct, rfl⟩ |
    ⟨-, -, ⟨-, rfl⟩ | ⟨-, rfl⟩⟩
  · rfl
  · exact absurd hbool (valueStruct?_ne_bool hm hstruct)
  · rfl
  · exact absurd hbool (show "IntPtr" ≠ "bool" by decide)

/-- The managed type of a pointer to the elements of a string is no truth value. -/
theorem mapString_ne_bool (encoding : Encoding) (writable : Bool) (native : String) :
    (mapString encoding writable native).managed ≠ "bool" := by
  rcases managed_mapString encoding writable native with h | h <;> rw [h] <;> decide

/-- A truth value is a scalar or a buffer, unless its native type is an array of fixed length. -/
theorem mapType?_of_bool (hm : m.NoStructIsBool) {encoding : Option Encoding} {extent : Extent}
    (h : m.mapType? encoding extent native t = some type) (hbool : type.managed = "bool") :
    (type.directive = .scalar ∨ ∃ extent writable, type.directive = .buffer extent writable) ↔
      ∀ element length, t ≠ .array element length := by
  rcases mapType?_cases h with hvalue | ⟨_, _, _, rfl, -, rfl⟩ | ⟨_, _, _, -, -, rfl⟩ |
    ⟨_, _, rfl, -, hindirect⟩ | ⟨_, _, rfl, hindirect⟩
  · refine iff_of_true (.inl (mapValue?_of_bool hm hvalue hbool)) ?_
    rintro element length rfl
    cases hvalue
  · exact iff_of_false (by simp) fun hne => hne _ _ rfl
  · exact absurd hbool (mapString_ne_bool _ _ native)
  · exact iff_of_true (.inr ⟨_, _, mapIndirect?_of_bool hm hindirect hbool⟩) (by simp)
  · exact iff_of_true (.inr ⟨_, _, mapIndirect?_of_bool hm hindirect hbool⟩) (by simp)

/-- A counterpart keeps the text of its native type. -/
theorem native_mapType? {encoding : Option Encoding} {extent : Extent}
    (h : m.mapType? encoding extent native t = some type) : type.native = native :=
  (native_resolved_mapType? h).1

/-- A parameter of a signature has the counterpart of its own type, or is an output buffer. -/
theorem type_of_mem_params {d : Declaration} {p : ManagedParameter}
    (hp : p ∈ (m.signature d).params) :
    ∃ q ∈ d.params, p.type = m.mapParam q.typeText ∨ p.type.managed = stringBuilder := by
  obtain ⟨i, q, hq, hi⟩ := exists_getElem?_of_mem_params hp
  refine ⟨q, List.mem_of_getElem? hq, ?_⟩
  rcases type_params_signature hq hi with ⟨-, htype⟩ | ⟨_, _, -, htype⟩
  · exact .inl htype
  · exact .inr (congrArg ManagedType.managed htype)

/-- A truth value among the parameters of a signature is what a rule gives for its native type. -/
theorem mapParam?_of_bool {d : Declaration} {p : ManagedParameter}
    (hp : p ∈ (m.signature d).params) (hbool : p.type.managed = "bool") :
    ∃ q ∈ d.params, m.mapParam? q.typeText = some p.type := by
  obtain ⟨q, hq, htype | hbuffer⟩ := type_of_mem_params hp
  · refine ⟨q, hq, ?_⟩
    unfold mapParam at htype
    cases hrule : m.mapParam? q.typeText with
    | some type => rw [htype, hrule, Option.getD_some]
    | none =>
      rw [htype, hrule] at hbool
      exact absurd hbool (show "IntPtr" ≠ "bool" by decide)
  · rw [hbool] at hbuffer
    exact absurd hbuffer (by decide)

/-- The generated declaration marks a truth value as one byte wide exactly when it is a scalar or a
buffer. When no structure is configured to be a truth value, these are all truth values but the
arrays of fixed length. -/
theorem marksOneByte_iff {d : Declaration} {p : ManagedParameter}
    (hp : p ∈ (m.signature d).params) (hbool : p.type.managed = "bool") :
    (MarksOneByte (attributeList (renderParameter p).toList) ↔ p.type.directive = .scalar ∨
      ∃ extent writable, p.type.directive = .buffer extent writable) ∧
    (m.NoStructIsBool → (MarksOneByte (attributeList (renderParameter p).toList) ↔
      ∀ element length, m.expand (CType.parse p.type.native.toList) ≠ .array element length)) := by
  have hcompact : Compact p.type.managed := by
    rw [hbool]
    decide
  have hmarks := (Emission.marksOneByte_renderParameter hcompact).trans (and_iff_right hbool)
  refine ⟨hmarks, fun hm => hmarks.trans ?_⟩
  obtain ⟨q, -, htype⟩ := mapParam?_of_bool hp hbool
  rw [mapParam?_eq] at htype
  dsimp only at htype
  rw [native_mapType? htype, String.toList_ofList]
  exact mapType?_of_bool hm htype hbool

/-- The array of truth values that a tag asks for is marked, and one of fixed length is not. -/
theorem marksOneByte_iff_arrays :
    let m : Mapper := ⟨.default, .cdecl⟩
    let d : Declaration := ⟨⟨⟨"f.h"⟩, 1⟩, "void", "F",
      [⟨"/*ARRAY*/ bool*", "on"⟩, ⟨"bool[4]", "flags"⟩], none, none⟩
    let p : ManagedParameter := ⟨"on", ⟨"bool", .buffer .array true, "bool*", true⟩⟩
    let q : ManagedParameter := ⟨"flags", ⟨"bool", .fixedArray 4, "bool[4]", true⟩⟩
    (m.signature d).params = [p, q] ∧
      MarksOneByte (attributeList (renderParameter p).toList) ∧
      ¬MarksOneByte (attributeList (renderParameter q).toList) := by
  intro m d p q
  have hparams : (m.signature d).params = [p, q] := by decide +kernel
  have hp := marksOneByte_iff (show p ∈ (m.signature d).params by simp [hparams]) rfl
  have hq := marksOneByte_iff (show q ∈ (m.signature d).params by simp [hparams]) rfl
  have harray : m.expand (CType.parse q.type.native.toList) = .array (.scalar .bool) 4 := by
    decide +kernel
  refine ⟨hparams, hp.1.2 (.inr ⟨.array, true, rfl⟩), fun hmarks => ?_⟩
  exact (hq.2 (by decide)).1 hmarks _ _ harray

/-- An array of four truth values is declared with its length alone, so that its elements take the
width that the managed side gives to truth values. -/
theorem fixedArray_unmarked :
    let m : Mapper := ⟨.default, .cdecl⟩
    let d : Declaration := ⟨⟨⟨"f.h"⟩, 1⟩, "void", "F", [⟨"bool[4]", "flags"⟩], none, none⟩
    m.warnings d = [] ∧ ∃ p ∈ (m.signature d).params, p.type.managed = "bool" ∧
      renderParameter p = "[MarshalAs(UnmanagedType.LPArray, SizeConst = 4)]bool[] flags" ∧
      ¬MarksOneByte (attributeList (renderParameter p).toList) := by
  decide +kernel

end NativeBindings.Mapper
