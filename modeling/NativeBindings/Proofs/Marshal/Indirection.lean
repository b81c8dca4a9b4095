import NativeBindings.Marshal.Mapper

/-!
# Typedefs behind pointers, references and arrays

Typedefs are expanded from the outside to the inside, and one count is kept of all steps: from a
name to the text that a typedef gives it, and from a pointer, a reference or an array to what it is
put around. The count ends the expansion for every table of typedefs (`expandFrom_eq`). What is put
around a type takes one of the steps, so the type is then expanded by one step less, and that makes
a difference exactly when the last step was needed: when a typedef lies just that far below the
type (`expandWithin_succ_eq_iff`).
-/

namespace NativeBindings

/-- What may be put around a type. -/
inductive Indirection
  /-- A pointer; it is constant when what it points to is. -/
  | pointer (constant : Bool)
  /-- A reference; it is constant when what it refers to is. -/
  | reference (constant : Bool)
  /-- An array of fixed length. -/
  | array (length : Nat)
  deriving DecidableEq, Repr

/-- The type with a pointer, a reference or an array put around another one. -/
def Indirection.around : Indirection → CType → CType
  | .pointer constant, t => .pointer constant t
  | .reference constant, t => .reference constant t
  | .array length, t => .array t length

theorem Indirection.around_inj {i : Indirection} {t u : CType} :
    i.around t = i.around u ↔ t = u := by
  cases i <;> simp [around]

namespace Mapper

variable {typedefs : List (String × String)}

/-! ## The end of expanding -/

/-- Expands a type with the steps counted upwards. No step is taken beyond the last one, whatever
the typedefs are. -/
def expandFrom (typedefs : List (String × String)) (depth : Nat) (t : CType) : CType :=
  if expansionSteps ≤ depth then t
  else
    match t with
    | .named name =>
      match typedefs.lookup name with
      | some text => expandFrom typedefs (depth + 1) (CType.parse text.toList)
      | none => .named name
    | .pointer constant t => .pointer constant (expandFrom typedefs (depth + 1) t)
    | .reference constant t => .reference constant (expandFrom typedefs (depth + 1) t)
    | .array t length => .array (expandFrom typedefs (depth + 1) t) length
    | t => t
termination_by expansionSteps - depth

/-- Counting upwards comes to the same as counting the steps that are left. -/
theorem expandFrom_eq_expandWithin {depth fuel : Nat} (h : depth + fuel = expansionSteps)
    (t : CType) : expandFrom typedefs depth t = expandWithin typedefs fuel t := by
  induction fuel generalizing depth t with
  | zero =>
    rw [expandFrom.eq_def, if_pos (by omega)]
    rfl
  | succ fuel ih =>
    -- One step further up is one step fewer left.
    have hnext : ∀ t, expandFrom typedefs (depth + 1) t = expandWithin typedefs fuel t :=
      ih (by omega)
    rw [expandFrom.eq_def, if_neg (by omega)]
    cases t with
    | named name =>
      dsimp only [expandWithin]
      cases typedefs.lookup name with
      | some text => exact hnext _
      | none => rfl
    | pointer constant t => exact congrArg (CType.pointer constant) (hnext t)
    | reference constant t => exact congrArg (CType.reference constant) (hnext t)
    | array t length => exact congrArg (CType.array · length) (hnext t)
    | _ => rfl

/-- Expanding ends for every table of typedefs. -/
theorem expandFrom_eq (m : Mapper) (t : CType) :
    expandFrom m.policy.typedefs 0 t = m.expand t :=
  expandFrom_eq_expandWithin (Nat.zero_add _) t

/-! ## The steps below a type -/

/-- The type one step below: what a typedef gives a name, or what something is put around. -/
def next? (typedefs : List (String × String)) : CType → Option CType
  | .named name => (typedefs.lookup name).map fun text => CType.parse text.toList
  | .pointer _ t | .reference _ t | .array t _ => some t
  | _ => none

/-- The type that lies the given number of steps below. -/
def below? (typedefs : List (String × String)) : Nat → CType → Option CType
  | 0, t => some t
  | steps + 1, t => (next? typedefs t).bind (below? typedefs steps)

/-- A typedef that gives a name anything but the name itself lies the given number of steps below a
type. -/
def TypedefBelow (typedefs : List (String × String)) (steps : Nat) (t : CType) : Prop :=
  ∃ name text, below? typedefs steps t = some (.named name) ∧
    typedefs.lookup name = some text ∧ CType.parse text.toList ≠ .named name

/-- A further step changes nothing exactly when no typedef is left for it. -/
theorem expandWithin_succ_eq_iff (steps : Nat) (t : CType) :
    expandWithin typedefs (steps + 1) t = expandWithin typedefs steps t ↔
      ¬ TypedefBelow typedefs steps t := by
  unfold TypedefBelow
  induction steps generalizing t with
  | zero =>
    cases t with
    | named name =>
      simp only [below?, Option.some.injEq, CType.named.injEq, expandWithin]
      cases hname : typedefs.lookup name with
      | none => simp [hname]
      | some text => simp [hname]
    | _ => simp [below?, expandWithin]
  | succ steps ih =>
    cases t with
    | named name =>
      cases hname : typedefs.lookup name with
      | none => simp [below?, next?, expandWithin, hname]
      | some text =>
        -- A step goes from the name to what its typedef says.
        have hbelow : below? typedefs (steps + 1) (.named name) =
            below? typedefs steps (CType.parse text.toList) := by
          simp [below?, next?, hname]
        rw [hbelow, ← ih, expandWithin, expandWithin, hname]
    | pointer constant t => simpa [below?, next?, expandWithin] using ih t
    | reference constant t => simpa [below?, next?, expandWithin] using ih t
    | array t length => simpa [below?, next?, expandWithin] using ih t
    | _ => simp [below?, next?, expandWithin]

/-! ## Around a type -/

/-- What is put around a type takes one step. -/
theorem expand_around (m : Mapper) (i : Indirection) (t : CType) :
    m.expand (i.around t) = i.around (expandWithin m.policy.typedefs (expansionSteps - 1) t) := by
  cases i <;> rfl

/-- Expanding ends for every table of typedefs, cyclic or not. It passes over what is put around a
type exactly when no typedef lies eight steps below the type, where a step goes from a name to the
text that its typedef gives it, or into a pointer, a reference or an array. -/
theorem expand_around_iff (m : Mapper) (i : Indirection) (t : CType) :
    expandFrom m.policy.typedefs 0 t = m.expand t ∧
      (m.expand (i.around t) = i.around (m.expand t) ↔
        ¬ TypedefBelow m.policy.typedefs (expansionSteps - 1) t) := by
  refine ⟨expandFrom_eq m t, ?_⟩
  rw [expand_around, Indirection.around_inj, eq_comm]
  exact expandWithin_succ_eq_iff (expansionSteps - 1) t

/-- Behind a pointer the last of nine typedefs is left, so a name of an integer is known by itself
and not behind the pointer. So is the last of eight when a pointer stands in front of it already. -/
theorem pointer_leaves_typedef :
    let m : Mapper := ⟨{ MappingPolicy.default with
      typedefs := [("T0", "T1"), ("T1", "T2"), ("T2", "T3"), ("T3", "T4"), ("T4", "T5"),
        ("T5", "T6"), ("T6", "T7"), ("T7", "T8"), ("T8", "int")] }, .cdecl⟩
    let n : Mapper := ⟨{ MappingPolicy.default with
      typedefs := [("T0", "T1"), ("T1", "T2"), ("T2", "T3"), ("T3", "T4"), ("T4", "T5"),
        ("T5", "T6"), ("T6", "U*"), ("U", "int")] }, .cdecl⟩
    m.expand (.named "T0") = .scalar .int32 ∧
      m.expand (.pointer false (.named "T0")) = .pointer false (.named "T8") ∧
      (m.mapParam? "T0").isSome ∧ m.mapParam? "T0*" = none ∧
      n.expand (.named "T0") = .pointer false (.scalar .int32) ∧
      n.expand (.pointer false (.named "T0")) = .pointer false (.pointer false (.named "U")) := by
  decide +kernel

end Mapper

end NativeBindings
