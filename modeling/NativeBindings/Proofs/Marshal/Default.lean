import NativeBindings.Emission.File
import NativeBindings.Proofs.Marshal.OutBuffer

/-!
# Defaults

A type that no rule knows gets a default, and this shows three times: in a warning, in the
signature, and in a note in the generated file. The three are made from different data. The warnings
come from the search for a rule, the signature marks the types themselves, after some of them became
output buffers, and the notes are written from the marks. `defaults_observable` says that all three
list the same values, those of `Mapper.defaults`, in the same order, and what each of them says.

A rule never gives a type that is marked as a default (`resolved_mapParam`, `resolved_mapReturn`),
and a parameter becomes a buffer only where a rule knows the type, so buffers hide no default.
-/

namespace NativeBindings

/-- The values of a declaration with the texts of their types, the return value first. -/
def Declaration.values (d : Declaration) : List (Signature.Slot × String) :=
  (.returned, d.returnType) :: d.params.map fun p => (.parameter p.name, p.typeText)

/-- The value under the name that it has in the signature. -/
def Signature.Slot.escaped : Signature.Slot → Signature.Slot
  | .returned => .returned
  | .parameter name => .parameter (Mapper.escapeIdentifier name)

/-- The value in the words of a warning. -/
def Signature.Slot.warned : Signature.Slot → String
  | .returned => "the return value"
  | .parameter name => "parameter `" ++ name ++ "`"

namespace Mapper

variable {m : Mapper}

/-- The counterpart of the type of a value by itself, when a rule knows it. -/
def mapSlot? (m : Mapper) : Signature.Slot × String → Option ManagedType
  | (.returned, text) => m.mapReturn? text
  | (.parameter _, text) => m.mapParam? text

/-- The values of a declaration whose types no rule knows, in order. -/
def defaults (m : Mapper) (d : Declaration) : List (Signature.Slot × String) :=
  d.values.filter fun v => (m.mapSlot? v).isNone

/-! ## Rules and defaults -/

/-- A parameter by itself is marked as the default exactly when no rule knows its type. -/
theorem resolved_mapParam (m : Mapper) (text : String) :
    (m.mapParam text).resolved = (m.mapParam? text).isSome := by
  unfold mapParam
  cases h : m.mapParam? text with
  | none => rfl
  | some type =>
    rw [mapParam?_eq] at h
    exact (native_resolved_mapType? h).2

/-- So is a return value. -/
theorem resolved_mapReturn (m : Mapper) (text : String) :
    (m.mapReturn text).resolved = (m.mapReturn? text).isSome := by
  unfold mapReturn
  cases h : m.mapReturn? text with
  | none => rfl
  | some type =>
    rcases mapReturn?_cases h with ⟨-, rfl⟩ | hvalue | ⟨_, _, -, -, rfl⟩
    · rfl
    · exact (native_resolved_mapValue? hvalue).2
    · rfl

/-! ## Warnings -/

theorem unresolvedWarnings_eq (m : Mapper) (d : Declaration) :
    m.unresolvedWarnings d = (m.defaults d).map fun v => .unresolved v.1 v.2 := by
  have hparams : (d.params.filter fun p => (m.mapParam? p.typeText).isNone).map
        (fun p => Warning.unresolved (.parameter p.name) p.typeText) =
      ((d.params.map fun p => (Signature.Slot.parameter p.name, p.typeText)).filter
        fun v => (m.mapSlot? v).isNone).map fun v => .unresolved v.1 v.2 := by
    rw [List.filter_map, List.map_map]
    rfl
  have hreturned : m.mapSlot? (.returned, d.returnType) = m.mapReturn? d.returnType := rfl
  unfold unresolvedWarnings defaults Declaration.values
  rw [List.filter_cons, hreturned, hparams]
  cases (m.mapReturn? d.returnType).isNone <;> rfl

/-- The warning about a value whose type no rule knows: it names the type, the value and the
function, and says how to mend the default. -/
theorem diagnostic_unresolved (m : Mapper) (d : Declaration) (slot : Signature.Slot)
    (text : String) :
    (Warning.unresolved slot text).diagnostic m d = {
      message := "cannot map type `" ++ text ++ "` of " ++ slot.warned ++ " in `" ++ d.name ++
        "`; defaulting to IntPtr"
      severity := .warning
      file := some d.location.file
      line := some d.location.line
      suggestions := ["help: Add the type to [mapping.typedefs], [mapping.value_structs] or " ++
        "[mapping.handles]"] } := by
  cases slot <;> rfl

/-- The word with which a declaration asks for another calling convention than the one in use, when
it does. -/
def otherConventions (m : Mapper) (d : Declaration) : List String :=
  d.convention.toList.filter fun word => (Convention.ofKeyword? word).any (· ≠ m.convention)

/-- That word is what there is to warn about besides the types. -/
theorem conventionWarnings_eq (m : Mapper) (d : Declaration) :
    m.conventionWarnings d = (m.otherConventions d).map .otherConvention := by
  unfold conventionWarnings otherConventions
  cases d.convention with
  | none => rfl
  | some word =>
    rw [Option.toList_some, List.filter_singleton]
    dsimp only
    cases hdeclared : Convention.ofKeyword? word with
    | none => rfl
    | some declared => by_cases hsame : declared = m.convention <;> simp [hsame]

/-! ## Signatures -/

/-- A parameter whose type no rule knows has the default in the signature, and no other one is
marked as the default, not even where it became a buffer. -/
theorem type_getElem?_params {d : Declaration} {i : Nat} {p : Parameter} {q : ManagedParameter}
    (hp : d.params[i]? = some p) (hq : (m.signature d).params[i]? = some q) :
    (m.mapParam? p.typeText = none → q.type = .unresolved p.typeText) ∧
      ((m.mapParam? p.typeText).isSome → q.type.resolved = true) := by
  have hown := resolved_mapParam m p.typeText
  rcases type_params_signature hp hq with ⟨-, htype⟩ | ⟨encoding, j, hout, htype⟩
  · rw [htype]
    refine ⟨fun hnone => ?_, fun hsome => hown.trans hsome⟩
    rw [mapParam, hnone, Option.getD_none]
  · rw [htype]
    refine ⟨fun hnone => ?_, fun hsome => hown.trans hsome⟩
    rw [mapParam?_of_outEncoding? hout.outEncoding?_eq] at hnone
    cases hnone

/-- The entry `x` of a signature stands for the value `v`: it has the default where no rule knows
the type, and is marked as the default only there. -/
structure StandsFor (m : Mapper) (v : Signature.Slot × String)
    (x : Signature.Slot × ManagedType) : Prop where
  /-- The value has its name in the signature. -/
  slot : x.1 = v.1.escaped
  /-- A type that no rule knows has the default. -/
  default : m.mapSlot? v = none → x.2 = .unresolved v.2
  /-- A type that a rule knows is not marked. -/
  resolved : (m.mapSlot? v).isSome → x.2.resolved = true

/-- The marked entries of a list stand for the values whose types no rule knows. -/
theorem filter_standsFor {vs : List (Signature.Slot × String)}
    {xs : List (Signature.Slot × ManagedType)} (h : List.Forall₂ m.StandsFor vs xs) :
    xs.filter (!·.2.resolved) =
      (vs.filter fun v => (m.mapSlot? v).isNone).map
        fun v => (v.1.escaped, .unresolved v.2) := by
  induction h with
  | nil => rfl
  | @cons v x vs xs hx _ ih =>
    cases htype : m.mapSlot? v with
    | none =>
      have hx' : x = (v.1.escaped, .unresolved v.2) := Prod.ext hx.slot (hx.default htype)
      rw [List.filter_cons_of_pos (by rw [hx']; rfl), List.filter_cons_of_pos (by rw [htype]; rfl),
        List.map_cons, ih, hx']
    | some own =>
      have hresolved := hx.resolved (Option.isSome_of_eq_some htype)
      rw [List.filter_cons_of_neg (by rw [hresolved]; nofun),
        List.filter_cons_of_neg (by rw [htype]; nofun), ih]

/-- The entries of a signature stand for the values of the declaration. -/
theorem standsFor_slots (m : Mapper) (d : Declaration) :
    List.Forall₂ m.StandsFor d.values (m.signature d).slots := by
  refine .cons ⟨rfl, fun hnone => ?_, fun hsome => ?_⟩ ?_
  · have hreturn : m.mapReturn? d.returnType = none := hnone
    show m.mapReturn d.returnType = _
    rw [mapReturn, hreturn, Option.getD_none]
  · exact (resolved_mapReturn m d.returnType).trans hsome
  · rw [List.forall₂_map_left_iff, List.forall₂_map_right_iff, List.forall₂_iff_get]
    -- The parameters of the signature are those of the declaration, one for one.
    have hlength : d.params.length = (m.signature d).params.length := by
      have hnames := congrArg List.length (names_params_signature m d)
      rw [List.length_map, List.length_map] at hnames
      exact hnames.symm
    refine ⟨hlength, fun i hi hi' => ?_⟩
    have hp := List.getElem?_eq_getElem hi
    have hq := List.getElem?_eq_getElem hi'
    have hname := (getElem?_params_signature m d i).symm.trans hq
    obtain ⟨hdefault, hresolved⟩ := type_getElem?_params hp hq
    refine ⟨?_, hdefault, hresolved⟩
    rw [hp] at hname
    exact congrArg (Signature.Slot.parameter ·.name) (Option.some.inj hname).symm

/-- A signature marks the values as defaults whose types no rule knows. -/
theorem unresolved_signature (m : Mapper) (d : Declaration) :
    (m.signature d).unresolved =
      (m.defaults d).map fun v => (v.1.escaped, .unresolved v.2) :=
  filter_standsFor (standsFor_slots m d)

/-! ## Notes -/

/-- The word `return` is reserved, so no parameter has it as its name. -/
theorem escapeIdentifier_ne_return (name : String) : escapeIdentifier name ≠ "return" := by
  unfold escapeIdentifier
  split
  · intro h
    have hhead := congrArg (·.toList.head?) h
    rw [String.toList_append] at hhead
    exact absurd hhead (by simp)
  · rename_i hname
    rintro rfl
    exact hname (by decide)

/-- Since no parameter is named `return`, a note about a parameter names it. -/
theorem noteSubject_escaped (slot : Signature.Slot) :
    Emission.noteSubject slot.escaped = slot.escaped.phrase := by
  cases slot with
  | returned => rfl
  | parameter name =>
    unfold Emission.noteSubject
    split
    · rename_i h
      exact absurd (Signature.Slot.parameter.inj h) (escapeIdentifier_ne_return name)
    · rfl

theorem noteLine_escaped (slot : Signature.Slot) (text : String) :
    Emission.noteLine slot.escaped (.unresolved text) =
      "// NOTE: native type `" ++ text ++ "` of " ++ slot.escaped.phrase ++
        " is unresolved; defaulted to IntPtr" := by
  have hend : ∀ s : String, s ++ " is unresolved; defaulted to " ++ "IntPtr" =
      s ++ " is unresolved; defaulted to IntPtr" := by
    intro s
    rw [String.append_assoc]
    exact congrArg (s ++ ·) (by decide +kernel)
  refine Eq.trans ?_ (hend _)
  unfold Emission.noteLine
  rw [noteSubject_escaped]
  rfl

/-- Buffers are not marked as defaults. -/
theorem resolved_of_stringOut {d : Declaration} {q : ManagedParameter}
    (hq : q ∈ (m.signature d).params) {encoding : Encoding} {j : Nat}
    (hout : q.type.directive = .stringOut encoding j) : q.type.resolved = true := by
  obtain ⟨i, p, hp, hi⟩ := exists_getElem?_of_mem_params hq
  obtain ⟨hdefault, hresolved⟩ := type_getElem?_params hp hi
  apply hresolved
  rw [Option.isSome_iff_ne_none]
  intro hnone
  rw [hdefault hnone] at hout
  cases hout

/-- Every default is observable. The warnings about a declaration are one for each value whose type
no rule knows, the return value first and the parameters in order, and behind them one about the
calling convention when the declaration asks for another one. Each is at the place of the
declaration and says what it is about. The signature marks the same values, none of them a buffer,
and the generated file has a note about each in front of the declaration. -/
theorem defaults_observable (m : Mapper) (d : Declaration) (o : Emission.Options) :
    m.diagnostics d =
      (m.defaults d).map (fun v => {
        message := "cannot map type `" ++ v.2 ++ "` of " ++ v.1.warned ++ " in `" ++ d.name ++
          "`; defaulting to IntPtr"
        severity := .warning
        file := some d.location.file
        line := some d.location.line
        suggestions := ["help: Add the type to [mapping.typedefs], [mapping.value_structs] or " ++
          "[mapping.handles]"] }) ++
      (m.otherConventions d).map (fun word => {
        message := "`" ++ d.name ++ "` is declared `" ++ word ++ "` but bindings use " ++
          m.convention.name
        severity := .warning
        file := some d.location.file
        line := some d.location.line }) ∧
    (m.otherConventions d).length ≤ 1 ∧
    (m.signature d).unresolved =
      (m.defaults d).map (fun v => (v.1.escaped, .unresolved v.2)) ∧
    (∀ q ∈ (m.signature d).params, ∀ encoding j, q.type.directive = .stringOut encoding j →
      q.type.resolved = true) ∧
    Emission.functionLines o (m.signature d) =
      d.doc.toList.map ("// " ++ ·) ++
      (m.defaults d).map (fun v =>
        "// NOTE: native type `" ++ v.2 ++ "` of " ++ v.1.escaped.phrase ++
          " is unresolved; defaulted to IntPtr") ++
      [Emission.importLine o (m.signature d)] ++
      (if Emission.isBool (m.signature d).returnType then ["[return: MarshalAs(UnmanagedType.U1)]"]
        else []) ++
      [Emission.externLine (m.signature d)] := by
  refine ⟨?_, ?_, unresolved_signature m d, fun q hq encoding j => resolved_of_stringOut hq, ?_⟩
  · -- The warnings, in their own words.
    unfold diagnostics warnings
    rw [List.map_append, unresolvedWarnings_eq, conventionWarnings_eq, List.map_map, List.map_map]
    refine congrArg₂ (· ++ ·) (List.map_congr_left fun v _ => ?_) rfl
    exact diagnostic_unresolved m d v.1 v.2
  · -- A declaration asks for one convention at most.
    refine (List.length_filter_le _ _).trans ?_
    cases d.convention <;> simp
  · -- The notes, which the emitter writes from the marks of the signature.
    have hnotes : (m.signature d).unresolved.map (fun x => Emission.noteLine x.1 x.2) =
        (m.defaults d).map fun v =>
          "// NOTE: native type `" ++ v.2 ++ "` of " ++ v.1.escaped.phrase ++
            " is unresolved; defaulted to IntPtr" := by
      rw [unresolved_signature, List.map_map]
      exact List.map_congr_left fun v _ => noteLine_escaped v.1 v.2
    rw [← hnotes]
    rfl

/-- One declaration with an unknown return type, a buffer, an unknown type of a parameter whose name
is reserved, and another calling convention. -/
theorem defaults_observable_widget :
    let m : Mapper := ⟨.default, .cdecl⟩
    let d : Declaration :=
      { location := ⟨⟨"f.h"⟩, 7⟩, returnType := "Widget", name := "make"
        params := [⟨"char*", "name"⟩, ⟨"int", "size"⟩, ⟨"Widget&", "in"⟩]
        convention := some "WINAPI", doc := none }
    m.defaults d = [(.returned, "Widget"), (.parameter "in", "Widget&")] ∧
      (m.diagnostics d).map (·.message) =
        ["cannot map type `Widget` of the return value in `make`; defaulting to IntPtr",
          "cannot map type `Widget&` of parameter `in` in `make`; defaulting to IntPtr",
          "`make` is declared `WINAPI` but bindings use cdecl"] ∧
      (m.signature d).unresolved =
        [(.returned, .unresolved "Widget"), (.parameter "@in", .unresolved "Widget&")] ∧
      (∃ q, (m.signature d).params[0]? = some q ∧ q.type.directive = .stringOut .ansi 1 ∧
        q.type.resolved = true) ∧
      (Emission.functionLines {} (m.signature d)).take 2 =
        ["// NOTE: native type `Widget` of return value is unresolved; defaulted to IntPtr",
          "// NOTE: native type `Widget&` of parameter `@in` is unresolved; defaulted to IntPtr"]
    := by
  intro m d
  obtain ⟨hwarnings, -, hmarked, hbuffer, hlines⟩ := defaults_observable m d {}
  have hdefaults : m.defaults d = [(.returned, "Widget"), (.parameter "in", "Widget&")] := by
    decide +kernel
  have hother : m.otherConventions d = ["WINAPI"] := by decide +kernel
  have hq : ∃ q, (m.signature d).params[0]? = some q ∧ q.type.directive = .stringOut .ansi 1 :=
    ⟨⟨"name", ⟨stringBuilder, .stringOut .ansi 1, "char*", true⟩⟩, by decide +kernel, rfl⟩
  obtain ⟨q, hq, hout⟩ := hq
  -- What is known of the two values and of the convention goes into the general statement.
  rw [hdefaults, hother] at hwarnings
  rw [hdefaults] at hmarked hlines
  refine ⟨hdefaults, ?_, hmarked,
    ⟨q, hq, hout, hbuffer q (List.mem_of_getElem? hq) .ansi 1 hout⟩, ?_⟩
  · rw [hwarnings]
    decide +kernel
  · rw [hlines]
    decide +kernel

end Mapper

end NativeBindings
