import Mathlib.Data.List.Chain
import NativeBindings.Proofs.Emission.Block
import NativeBindings.Proofs.Text.Natural
import NativeBindings.Proofs.Text.Word

/-!
# What a function looks like

A binding says more than its lines show. Of a parameter they show the managed type and its shape
(`declaredType_eq`), and of the return value the managed type alone. So functions of one name and
convention that have the same appearance have the same lines, remarks and names of parameters apart
(`bareBlock_eq_of_appearance`). As long as managed types have no blanks, commas and brackets in
them, nothing of the appearance gets lost when the declaration is put together as one text
(`appearance_eq_of_bareBlock`).
-/

namespace NativeBindings.Emission

open Text (not_mem_toString toString_inj)

/-! ## Shapes -/

/-- What the declaration of a parameter shows of the way in which the value crosses the boundary. -/
inductive Shape
  /-- A value, marked as one byte wide or not. -/
  | value (oneByte : Bool)
  /-- A reference, marked as leading to one byte or not. -/
  | reference (oneByte : Bool)
  /-- An array, with its direction, marked as one of single bytes or not. -/
  | array (writable oneByte : Bool)
  /-- An array with its length. -/
  | fixedArray (length : Nat)
  /-- A string with its encoding. -/
  | text (encoding : Encoding)
  deriving DecidableEq, Repr

/-- The shape of a parameter. -/
def shape (t : ManagedType) : Shape :=
  match t.directive with
  | .scalar => .value (isBool t)
  | .opaquePointer | .structValue => .value false
  | .buffer .single _ => .reference (isBool t)
  | .structPointer => .reference false
  | .buffer .array writable => .array writable (isBool t)
  | .fixedArray length => .fixedArray length
  | .stringIn encoding | .stringOut encoding _ => .text encoding

namespace Shape

/-- The attribute in brackets. -/
def marking : Shape → String
  | .value oneByte | .reference oneByte => if oneByte then "[MarshalAs(UnmanagedType.U1)]" else ""
  | .array writable oneByte => "[" ++ direction writable ++
    (if oneByte then ", MarshalAs(UnmanagedType.LPArray, ArraySubType = UnmanagedType.U1)"
      else "") ++ "]"
  | .fixedArray length =>
    "[MarshalAs(UnmanagedType.LPArray, SizeConst = " ++ toString length ++ ")]"
  | .text encoding => "[MarshalAs(UnmanagedType." ++ encoding.unmanagedType ++ ")]"

@[simp] theorem marking_value (oneByte : Bool) :
    (value oneByte).marking = if oneByte then "[MarshalAs(UnmanagedType.U1)]" else "" := rfl

@[simp] theorem marking_reference (oneByte : Bool) :
    (reference oneByte).marking = if oneByte then "[MarshalAs(UnmanagedType.U1)]" else "" := rfl

@[simp] theorem marking_array (writable oneByte : Bool) :
    (array writable oneByte).marking = "[" ++ direction writable ++
      (if oneByte then ", MarshalAs(UnmanagedType.LPArray, ArraySubType = UnmanagedType.U1)"
        else "") ++ "]" := rfl

@[simp] theorem marking_fixedArray (length : Nat) : (fixedArray length).marking =
    "[MarshalAs(UnmanagedType.LPArray, SizeConst = " ++ toString length ++ ")]" := rfl

@[simp] theorem marking_text (encoding : Encoding) :
    (text encoding).marking = "[MarshalAs(UnmanagedType." ++ encoding.unmanagedType ++ ")]" := rfl

/-- Whether the parameter is a reference. -/
def isReference : Shape → Bool
  | .reference _ => true
  | _ => false

/-- Whether the parameter is an array. -/
def isArray : Shape → Bool
  | .array _ _ | .fixedArray _ => true
  | _ => false

end Shape

/-- The managed type of a parameter with the word for references and the brackets of arrays. -/
def spelled (reference array : Bool) (managed : String) : String :=
  (if reference then "ref " else "") ++ managed ++ (if array then "[]" else "")

/-- A parameter is declared by the attribute of its shape and its managed type. -/
theorem declaredType_eq (t : ManagedType) : declaredType t =
    (shape t).marking ++ spelled (shape t).isReference (shape t).isArray t.managed := by
  have hbool : isBool t = true → t.managed = "bool" := beq_iff_eq.1
  unfold declaredType shape
  cases t.directive with
  | scalar =>
    -- What is one byte is always spelled `bool`.
    cases h : isBool t with
    | false => simp [spelled, Shape.isReference, Shape.isArray]
    | true =>
      rw [hbool h]
      simp [spelled, Shape.isReference, Shape.isArray]
  | buffer extent writable =>
    cases extent with
    | single =>
      cases h : isBool t with
      | false => simp [spelled, Shape.isReference, Shape.isArray]
      | true =>
        rw [hbool h]
        simp [spelled, Shape.isReference, Shape.isArray]
    | array =>
      cases h : isBool t with
      | false => simp [spelled, Shape.isReference, Shape.isArray, String.append_assoc]
      | true =>
        rw [hbool h]
        simp [spelled, Shape.isReference, Shape.isArray, String.append_assoc]
  | _ => simp [spelled, Shape.isReference, Shape.isArray, String.append_assoc]

/-! ## Reading shapes back -/

/-- A managed type has no blanks, commas and square brackets. -/
def Compact (managed : String) : Prop :=
  ∀ c ∈ managed.toList, c ≠ ' ' ∧ c ≠ ',' ∧ c ≠ '[' ∧ c ≠ ']'

instance (managed : String) : Decidable (Compact managed) :=
  List.decidableBAll _ managed.toList

/-- The word for references and the brackets can be told from a compact type. -/
theorem spelled_inj {reference array reference' array' : Bool} {managed managed' : String}
    (h : Compact managed) (h' : Compact managed') :
    spelled reference array managed = spelled reference' array' managed' ↔
      reference = reference' ∧ array = array' ∧ managed = managed' := by
  -- There is a blank only behind the word, and a bracket only at the end.
  have hblank : ∀ {r a : Bool} {m : String}, Compact m →
      (' ' ∈ (spelled r a m).toList ↔ r = true) := by
    intro r a m hm
    have hnone : ' ' ∉ m.toList := fun hmem => (hm ' ' hmem).1 rfl
    cases r <;> cases a <;> simp [spelled, hnone]
  have hbracket : ∀ {r a : Bool} {m : String}, Compact m →
      (']' ∈ (spelled r a m).toList ↔ a = true) := by
    intro r a m hm
    have hnone : ']' ∉ m.toList := fun hmem => (hm ']' hmem).2.2.2 rfl
    cases r <;> cases a <;> simp [spelled, hnone]
  constructor
  · intro heq
    -- With the word and the brackets known, the type is what is left.
    obtain rfl : reference = reference' := by
      rw [Bool.eq_iff_iff, ← hblank h, ← hblank h', heq]
    obtain rfl : array = array' := by
      rw [Bool.eq_iff_iff, ← hbracket h, ← hbracket h', heq]
    refine ⟨rfl, rfl, ?_⟩
    unfold spelled at heq
    rw [String.append_left_inj, String.append_right_inj] at heq
    exact heq
  · rintro ⟨rfl, rfl, rfl⟩
    rfl

/-- A text is empty or one attribute in square brackets. -/
def Bracketed (t : Text) : Prop := t = [] ∨ ∃ body, t = '[' :: (body ++ [']']) ∧ ']' ∉ body

/-- An attribute can be told from what stands behind it. Where there is none, that must not start
with a bracket. -/
theorem Bracketed.append_inj {a a' rest rest' : Text} (ha : Bracketed a) (ha' : Bracketed a')
    (hrest : a = [] → rest.head? ≠ some '[') (hrest' : a' = [] → rest'.head? ≠ some '[')
    (h : a ++ rest = a' ++ rest') : a = a' ∧ rest = rest' := by
  obtain rfl | ⟨body, rfl, hbody⟩ := ha
  · obtain rfl | ⟨body', rfl, hbody'⟩ := ha'
    · exact ⟨rfl, h⟩
    · rw [List.nil_append] at h
      exact absurd (by rw [h]; rfl) (hrest rfl)
  · obtain rfl | ⟨body', rfl, hbody'⟩ := ha'
    · rw [List.nil_append] at h
      exact absurd (by rw [← h]; rfl) (hrest' rfl)
    · simp only [List.cons_append, List.append_assoc, List.nil_append, List.cons.injEq,
        true_and] at h
      obtain ⟨rfl, hrests⟩ := eq_of_append_cons_eq hbody hbody' h
      exact ⟨rfl, hrests⟩

theorem Shape.bracketed_marking (s : Shape) : Bracketed s.marking.toList := by
  have hopen : "[".toList = ['['] := rfl
  have hclose : "]".toList = [']'] := rfl
  have hone : ∀ oneByte : Bool, Bracketed
      (if oneByte then "[MarshalAs(UnmanagedType.U1)]" else "").toList := by
    intro oneByte
    cases oneByte with
    | false => exact .inl rfl
    | true => exact .inr ⟨"MarshalAs(UnmanagedType.U1)".toList, by simp, by simp⟩
  cases s with
  | value oneByte => exact hone oneByte
  | reference oneByte => exact hone oneByte
  | array writable oneByte =>
    -- Neither the direction nor the elements close the bracket.
    have hdirection : ']' ∉ (direction writable).toList := by
      cases writable <;> simp [direction]
    have helements : ']' ∉ (if oneByte then
        ", MarshalAs(UnmanagedType.LPArray, ArraySubType = UnmanagedType.U1)" else "").toList := by
      cases oneByte <;> simp
    rw [marking_array]
    generalize (if oneByte then _ else _ : String) = elements at helements ⊢
    refine .inr ⟨(direction writable).toList ++ elements.toList, ?_, ?_⟩
    · simp only [String.toList_append, hopen, hclose, List.append_assoc, List.cons_append,
        List.nil_append]
    · simp only [List.mem_append, not_or]
      exact ⟨hdirection, helements⟩
  | fixedArray length =>
    have hstart : "[MarshalAs(UnmanagedType.LPArray, SizeConst = ".toList =
        '[' :: "MarshalAs(UnmanagedType.LPArray, SizeConst = ".toList := by simp
    have hend : ")]".toList = [')', ']'] := rfl
    refine .inr ⟨"MarshalAs(UnmanagedType.LPArray, SizeConst = ".toList ++
      ((toString length).toList ++ [')']), ?_, ?_⟩
    · simp only [marking_fixedArray, String.toList_append, hstart, hend, List.cons_append,
        List.nil_append, List.append_assoc]
    · simp only [List.mem_append, not_or]
      exact ⟨by simp, not_mem_toString (by decide) length, by simp⟩
  | text encoding =>
    refine .inr ⟨("MarshalAs(UnmanagedType." ++ encoding.unmanagedType ++ ")").toList, ?_, ?_⟩
    · cases encoding <;> simp [Encoding.unmanagedType]
    · cases encoding <;> simp [Encoding.unmanagedType]

/-- The attribute of an array without a length does not start like that of one with a length. -/
theorem Shape.marking_array_ne (writable oneByte : Bool) (length : Nat) :
    (array writable oneByte).marking ≠ (fixedArray length).marking := by
  intro h
  have hfixed : "[MarshalAs".toList <+: (fixedArray length).marking.toList := by
    rw [marking_fixedArray, String.append_assoc, String.toList_append]
    exact List.IsPrefix.trans (by decide) (List.prefix_append _ _)
  rw [← h] at hfixed
  revert hfixed
  cases writable <;> cases oneByte <;> decide

/-- A shape is what its attribute, the word for references and the brackets of arrays tell. -/
theorem Shape.eq_of_marking {s s' : Shape} (h : s.marking = s'.marking)
    (hreference : s.isReference = s'.isReference) (harray : s.isArray = s'.isArray) : s = s' := by
  cases s with
  | value oneByte =>
    cases s' with
    | value oneByte' =>
      revert h
      cases oneByte <;> cases oneByte' <;> decide
    | text encoding =>
      revert h
      cases oneByte <;> cases encoding <;> decide
    | reference _ => cases hreference
    | array _ _ => cases harray
    | fixedArray _ => cases harray
  | reference oneByte =>
    cases s' with
    | reference oneByte' =>
      revert h
      cases oneByte <;> cases oneByte' <;> decide
    | _ => cases hreference
  -- Only arrays of either kind have brackets, and only of fixed length they have a size.
  | array writable oneByte =>
    cases s' with
    | array writable' oneByte' =>
      revert h
      cases writable <;> cases oneByte <;> cases writable' <;> cases oneByte' <;> decide
    | fixedArray length => exact absurd h (marking_array_ne writable oneByte length)
    | _ => cases harray
  | fixedArray length =>
    cases s' with
    | array writable oneByte => exact absurd h.symm (marking_array_ne writable oneByte length)
    | fixedArray length' =>
      rw [marking_fixedArray, marking_fixedArray, String.append_left_inj,
        String.append_right_inj] at h
      rw [toString_inj h]
    | _ => cases harray
  | text encoding =>
    cases s' with
    | value oneByte =>
      revert h
      cases encoding <;> cases oneByte <;> decide
    | text encoding' =>
      revert h
      cases encoding <;> cases encoding' <;> decide
    | reference _ => cases hreference
    | array _ _ => cases harray
    | fixedArray _ => cases harray

/-- A compact type without an attribute does not start with a bracket. -/
theorem head?_spelled_ne {s : Shape} {managed : String} (h : Compact managed)
    (hmarking : s.marking.toList = []) :
    (spelled s.isReference s.isArray managed).toList.head? ≠ some '[' := by
  have hmanaged : managed.toList.head? ≠ some '[' := fun hhead =>
    (h '[' (List.mem_of_head? hhead)).2.2.1 rfl
  cases s with
  | array writable oneByte => simp at hmarking
  | fixedArray length => simp at hmarking
  | reference oneByte => simp [spelled, Shape.isReference, Shape.isArray]
  | value oneByte => simpa [spelled, Shape.isReference, Shape.isArray] using hmanaged
  | text encoding => simpa [spelled, Shape.isReference, Shape.isArray] using hmanaged

/-- From the declaration of a parameter its managed type and its shape can be told, if the type is
compact. -/
theorem declaredType_inj {t u : ManagedType} (ht : Compact t.managed) (hu : Compact u.managed) :
    declaredType t = declaredType u ↔ t.managed = u.managed ∧ shape t = shape u := by
  constructor
  · intro h
    rw [declaredType_eq, declaredType_eq, ← String.toList_inj, String.toList_append,
      String.toList_append] at h
    obtain ⟨hmarking, hspelled⟩ := (shape t).bracketed_marking.append_inj
      (shape u).bracketed_marking (head?_spelled_ne ht) (head?_spelled_ne hu) h
    obtain ⟨hreference, harray, hmanaged⟩ := (spelled_inj ht hu).1 (String.toList_inj.1 hspelled)
    exact ⟨hmanaged, Shape.eq_of_marking (String.toList_inj.1 hmarking) hreference harray⟩
  · rintro ⟨hmanaged, hshape⟩
    rw [declaredType_eq, declaredType_eq, hmanaged, hshape]

/-! ## Reading parameters back -/

/-- No comma stands behind a blank. -/
def Unbroken (t : Text) : Prop := t.IsChain fun c d => ¬(c = ' ' ∧ d = ',')

instance (t : Text) : Decidable (Unbroken t) :=
  inferInstanceAs (Decidable (t.IsChain fun c d => ¬(c = ' ' ∧ d = ',')))

theorem Unbroken.append {a b : Text} (ha : Unbroken a) (hb : ',' ∉ b) : Unbroken (a ++ b) := by
  refine List.isChain_append.2 ⟨ha, ?_, fun _ _ c hc hbreak => ?_⟩
  · exact List.Pairwise.isChain (List.pairwise_of_forall_mem_list fun _ _ c hc hbreak =>
      hb (hbreak.2 ▸ hc))
  · exact hb (hbreak.2 ▸ List.mem_of_head? hc)

theorem Shape.unbroken_marking (s : Shape) : Unbroken s.marking.toList := by
  cases s with
  | value oneByte => cases oneByte <;> decide
  | reference oneByte => cases oneByte <;> decide
  | array writable oneByte => cases writable <;> cases oneByte <;> decide +kernel
  | fixedArray length =>
    have hdigits : ',' ∉ (toString length).toList := not_mem_toString (by decide) length
    rw [marking_fixedArray, String.append_assoc, String.toList_append]
    refine Unbroken.append (by decide +kernel) ?_
    rw [String.toList_append, List.mem_append, not_or]
    exact ⟨hdigits, by decide⟩
  | text encoding => cases encoding <;> decide

/-- In the declaration of a parameter no comma stands behind a blank, if its type is compact. -/
theorem unbroken_declaredType {t : ManagedType} (h : Compact t.managed) :
    Unbroken (declaredType t).toList := by
  have hmanaged : ',' ∉ t.managed.toList := fun hmem => (h ',' hmem).2.1 rfl
  rw [declaredType_eq, String.toList_append]
  refine (shape t).unbroken_marking.append ?_
  cases (shape t).isReference <;> cases (shape t).isArray <;> simp [spelled, hmanaged]

/-- What stands behind the first of some parameters, when their names are left out: a comma and a
blank in front of each further one, and a blank behind it. -/
def further (ds : List Text) : Text := ds.flatMap fun d => ", ".toList ++ (d ++ [' '])

theorem further_cons (d : Text) (ds : List Text) :
    further (d :: ds) = ',' :: ' ' :: (d ++ ' ' :: further ds) := by
  unfold further
  rw [List.flatMap_cons, List.append_assoc, List.append_assoc]
  rfl

theorem head?_further {ds : List Text} {c : Char} (h : c ∈ (further ds).head?) : c = ',' := by
  cases ds with
  | nil => cases h
  | cons d ds =>
    rw [further_cons] at h
    exact (Option.some.inj h).symm

/-- A declaration that is not broken does not go on behind a blank with a comma behind it. -/
theorem Unbroken.eq_nil_of_further {d a rest : Text} {ds : List Text} (h : Unbroken (d ++ a))
    (heq : ' ' :: further ds = a ++ ' ' :: rest) : a = [] := by
  cases a with
  | nil => rfl
  | cons x a =>
    obtain ⟨rfl, hfurther⟩ : ' ' = x ∧ further ds = a ++ ' ' :: rest := List.cons.inj heq
    have hhead : ∀ c ∈ (a ++ ' ' :: rest).head?, c = ',' := fun c hc => by
      rw [← hfurther] at hc
      exact head?_further hc
    cases a with
    | nil => exact absurd (hhead ' ' rfl) (by decide)
    | cons y a =>
      obtain rfl := hhead y rfl
      have hbreak := (List.isChain_append.1 h).2.1
      rw [List.isChain_cons_cons] at hbreak
      exact absurd ⟨rfl, rfl⟩ hbreak.1

/-- A declaration that is not broken ends where the first comma stands behind a blank. -/
theorem eq_of_append_further {d e : Text} {ds es : List Text} (hd : Unbroken d) (he : Unbroken e)
    (h : d ++ ' ' :: further ds = e ++ ' ' :: further es) :
    d = e ∧ further ds = further es := by
  rcases List.append_eq_append_iff.1 h with ⟨a, rfl, ha⟩ | ⟨a, rfl, ha⟩
  · obtain rfl := he.eq_nil_of_further ha
    exact ⟨(List.append_nil d).symm, (List.cons.inj ha).2⟩
  · obtain rfl := hd.eq_nil_of_further ha
    exact ⟨List.append_nil e, (List.cons.inj ha).2.symm⟩

/-- Declarations that are not broken can be told from each other. -/
theorem further_inj {ds es : List Text} (hds : ∀ d ∈ ds, Unbroken d) (hes : ∀ e ∈ es, Unbroken e)
    (h : further ds = further es) : ds = es := by
  induction ds generalizing es with
  | nil =>
    cases es with
    | nil => rfl
    | cons e es =>
      rw [further_cons] at h
      cases h
  | cons d ds ih =>
    cases es with
    | nil =>
      rw [further_cons] at h
      cases h
    | cons e es =>
      obtain ⟨hd, hds'⟩ := List.forall_mem_cons.1 hds
      obtain ⟨he, hes'⟩ := List.forall_mem_cons.1 hes
      rw [further_cons, further_cons, List.cons.injEq, List.cons.injEq] at h
      -- The first declaration ends where the next one starts, in both.
      obtain ⟨rfl, hrest⟩ := eq_of_append_further hd he h.2.2
      rw [ih hds' hes' hrest]

/-- The first parameter and what stands behind it. -/
theorem intercalate_cons (d : Text) (ds : List Text) :
    ", ".toList.intercalate ((d :: ds).map (· ++ [' '])) = d ++ ' ' :: further ds := by
  induction ds generalizing d with
  | nil => rw [List.map_singleton, List.intercalate_singleton]; rfl
  | cons e ds ih =>
    have htail := ih e
    rw [List.map_cons] at htail
    rw [List.map_cons, List.map_cons, List.intercalate_cons_cons, htail, further_cons,
      List.append_assoc, List.append_assoc]
    rfl

/-- Parameters whose declarations are not broken can be told from their list without names. -/
theorem intercalate_inj {ds es : List Text} (hds : ∀ d ∈ ds, Unbroken d)
    (hes : ∀ e ∈ es, Unbroken e) (h : ", ".toList.intercalate (ds.map (· ++ [' '])) =
      ", ".toList.intercalate (es.map (· ++ [' ']))) : ds = es := by
  cases ds with
  | nil =>
    cases es with
    | nil => rfl
    | cons e es =>
      rw [intercalate_cons] at h
      exact absurd h.symm (by simp)
  | cons d ds =>
    cases es with
    | nil =>
      rw [intercalate_cons] at h
      exact absurd h (by simp)
    | cons e es =>
      obtain ⟨hd, hds'⟩ := List.forall_mem_cons.1 hds
      obtain ⟨he, hes'⟩ := List.forall_mem_cons.1 hes
      rw [intercalate_cons, intercalate_cons] at h
      obtain ⟨rfl, hfurther⟩ := eq_of_append_further hd he h
      rw [further_inj hds' hes' hfurther]

/-! ## Lines without remarks and names -/

variable {s t : Signature} {o : Options} {depth : Nat}

/-- The lines of a function (`functionBlock_eq`) with the given remarks and names of parameters in
place of its own. -/
def blockWith (o : Options) (depth : Nat) (s : Signature) (remarks names : List String) :
    List String :=
  (remarks ++ (frame o s).lines names).map (indented depth) ++ [""]

/-- The lines of a function without remarks and without names of parameters. -/
def bareBlock (o : Options) (depth : Nat) (s : Signature) : List String :=
  blockWith o depth s [] (s.params.map fun _ => "")

/-- What the lines of a function show of what it binds. -/
structure Appearance where
  /-- The managed type of the return value. -/
  returned : String
  /-- The managed type and the shape of each parameter, in order. -/
  params : List (String × Shape)
  deriving DecidableEq

/-- What the lines of a function show. -/
def appearance (s : Signature) : Appearance where
  returned := s.returnType.managed
  params := s.params.map fun p => (p.type.managed, shape p.type)

/-- The declaration of a function up to its end, without names of parameters. -/
theorem lines_bare (o : Options) (s : Signature) :
    (frame o s).lines (s.params.map fun _ => "") = (frame o s).attributes ++
      ["internal static extern " ++ s.returnType.managed ++ " " ++ s.name ++ "(" ++
        ", ".intercalate (s.params.map fun p => declaredType p.type ++ " ") ++ ");"] := by
  have hparams : List.zipWith (fun type name => type ++ " " ++ name)
      (s.params.map (declaredType ·.type)) (s.params.map fun _ => "") =
        s.params.map fun p => declaredType p.type ++ " " := by
    rw [List.zipWith_map, List.zipWith_self]
    simp only [String.append_empty]
  unfold Frame.lines
  rw [← hparams]
  rfl

/-- Functions of one name and convention that look alike have one frame. -/
theorem frame_eq_of_appearance (hname : s.name = t.name) (hconvention : s.convention = t.convention)
    (h : appearance s = appearance t) (o : Options) : frame o s = frame o t := by
  obtain ⟨hreturned, hparams⟩ := Appearance.mk.inj h
  have hdeclared : ∀ s : Signature, s.params.map (declaredType ·.type) =
      (appearance s).params.map fun p =>
        p.2.marking ++ spelled p.2.isReference p.2.isArray p.1 := by
    intro s
    unfold appearance
    rw [List.map_map]
    exact List.map_congr_left fun p _ => declaredType_eq p.type
  unfold frame importLine isBool
  rw [hname, hconvention, hreturned, hdeclared, hdeclared, h]

theorem bareBlock_eq_of_appearance (hname : s.name = t.name)
    (hconvention : s.convention = t.convention) (h : appearance s = appearance t) (o : Options)
    (depth : Nat) : bareBlock o depth s = bareBlock o depth t := by
  have hlength : s.params.length = t.params.length := by
    have hlengths := congrArg (fun a : Appearance => a.params.length) h
    simpa [appearance] using hlengths
  unfold bareBlock blockWith
  rw [frame_eq_of_appearance hname hconvention h, List.map_const', List.map_const', hlength]

/-- The managed types of a function are compact. -/
structure CompactTypes (s : Signature) : Prop where
  /-- That of the return value is. -/
  returned : Compact s.returnType.managed
  /-- Those of the parameters are. -/
  params : ∀ p ∈ s.params, Compact p.type.managed

/-- Lines that differ are different when they are indented. -/
theorem map_indented_inj {ls ls' : List String} :
    ls.map (indented depth) = ls'.map (indented depth) ↔ ls = ls' :=
  List.map_inj_right fun _ _ h => (String.append_right_inj _).1 h

/-- Parameters with the same declarations look alike. -/
theorem map_shape_of_declaredType {ps qs : List ManagedParameter}
    (hps : ∀ p ∈ ps, Compact p.type.managed) (hqs : ∀ q ∈ qs, Compact q.type.managed)
    (h : ps.map (fun p => (declaredType p.type).toList) =
      qs.map fun q => (declaredType q.type).toList) :
    ps.map (fun p => (p.type.managed, shape p.type)) =
      qs.map fun q => (q.type.managed, shape q.type) := by
  induction ps generalizing qs with
  | nil =>
    cases qs with
    | nil => rfl
    | cons q qs => cases h
  | cons p ps ih =>
    cases qs with
    | nil => cases h
    | cons q qs =>
      obtain ⟨hp, hps⟩ := List.forall_mem_cons.1 hps
      obtain ⟨hq, hqs⟩ := List.forall_mem_cons.1 hqs
      obtain ⟨hdeclared, hrest⟩ := List.cons.inj h
      obtain ⟨hmanaged, hshape⟩ := (declaredType_inj hp hq).1 (String.toList_inj.1 hdeclared)
      rw [List.map_cons, List.map_cons, ih hps hqs hrest, hmanaged, hshape]

/-- A compact return type ends at the first blank, and behind it only the parameters can differ. -/
theorem declaration_inj {returned returned' name params params' : String}
    (hreturned : Compact returned) (hreturned' : Compact returned')
    (h : "internal static extern " ++ returned ++ " " ++ name ++ "(" ++ params ++ ");" =
      "internal static extern " ++ returned' ++ " " ++ name ++ "(" ++ params' ++ ");") :
    returned = returned' ∧ params = params' := by
  have hblank : ∀ {managed : String}, Compact managed → ' ' ∉ managed.toList :=
    fun hcompact hmem => (hcompact ' ' hmem).1 rfl
  have hspace : " ".toList = [' '] := rfl
  have htext := congrArg String.toList h
  simp only [String.toList_append, List.append_assoc, List.append_cancel_left_eq, hspace,
    List.cons_append, List.nil_append] at htext
  obtain ⟨htype, hbehind⟩ :=
    eq_of_append_cons_eq (hblank hreturned) (hblank hreturned') htext
  exact ⟨String.toList_inj.1 htype, String.toList_inj.1 (List.append_cancel_right
    (List.append_cancel_left (List.append_cancel_left hbehind)))⟩

/-- The managed types and shapes of parameters can be told from their list without names. -/
theorem map_shape_of_intercalate {ps qs : List ManagedParameter}
    (hps : ∀ p ∈ ps, Compact p.type.managed) (hqs : ∀ q ∈ qs, Compact q.type.managed)
    (h : ", ".intercalate (ps.map fun p => declaredType p.type ++ " ") =
      ", ".intercalate (qs.map fun q => declaredType q.type ++ " ")) :
    ps.map (fun p => (p.type.managed, shape p.type)) =
      qs.map fun q => (q.type.managed, shape q.type) := by
  have hdeclared : ∀ ps : List ManagedParameter, (ps.map fun p => declaredType p.type ++ " ").map
      String.toList = (ps.map fun p => (declaredType p.type).toList).map (· ++ [' ']) := by
    intro ps
    rw [List.map_map, List.map_map]
    exact List.map_congr_left fun p _ => String.toList_append
  have hunbroken : ∀ {ps : List ManagedParameter}, (∀ p ∈ ps, Compact p.type.managed) →
      ∀ d ∈ ps.map fun p => (declaredType p.type).toList, Unbroken d := by
    intro ps hps d hd
    obtain ⟨p, hp, rfl⟩ := List.mem_map.1 hd
    exact unbroken_declaredType (hps p hp)
  rw [← String.toList_inj, String.toList_intercalate, String.toList_intercalate, hdeclared,
    hdeclared] at h
  exact map_shape_of_declaredType hps hqs (intercalate_inj (hunbroken hps) (hunbroken hqs) h)

/-- The appearance of a function with compact types can be told from its lines, even without
remarks and names of parameters. -/
theorem appearance_eq_of_bareBlock (hs : CompactTypes s) (ht : CompactTypes t)
    (hname : s.name = t.name) (h : bareBlock o depth s = bareBlock o depth t) :
    appearance s = appearance t := by
  -- The last line is the declaration.
  unfold bareBlock blockWith at h
  rw [List.append_cancel_right_eq, map_indented_inj, List.nil_append, List.nil_append, lines_bare,
    lines_bare, hname] at h
  obtain ⟨-, hline⟩ := List.append_inj' h rfl
  obtain ⟨hreturned, hlist⟩ :=
    declaration_inj hs.returned ht.returned (List.head_eq_of_cons_eq hline)
  unfold appearance
  rw [hreturned, map_shape_of_intercalate hs.params ht.params hlist]

end NativeBindings.Emission
