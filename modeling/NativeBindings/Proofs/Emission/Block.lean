import NativeBindings.Emission.File
import NativeBindings.Proofs.Catalogue.Agreement

/-!
# The lines of a function

The lines that a function has in the generated file are remarks, which are its documentation and
its notes, and behind them a frame that is filled with the names of its parameters
(`functionLines_eq`). The frame is made of what the signature binds and of nothing else
(`frame_eq_of_sameBinding`), so signatures that bind alike differ in remarks and in names of
parameters only.
-/

namespace NativeBindings.Emission

variable {s t : Signature}

/-! ## Frames -/

/-- The documentation of a function and the notes about its types. -/
def remarks (s : Signature) : List String :=
  s.doc.toList.map ("// " ++ ·) ++ s.unresolved.map fun (slot, t) => noteLine slot t

/-- The lines of a function with gaps in place of remarks and of the names of parameters. -/
structure Frame where
  /-- The attributes of the function and of its return value. -/
  attributes : List String
  /-- The declaration up to the parameters. -/
  opening : String
  /-- The attributes and the type of each parameter, in order. -/
  params : List String
  deriving DecidableEq

/-- The lines of a frame with names for the parameters. -/
def Frame.lines (f : Frame) (names : List String) : List String :=
  f.attributes ++
    [f.opening ++ ", ".intercalate (List.zipWith (fun type name => type ++ " " ++ name) f.params
      names) ++ ");"]

/-- The frame of a function. -/
def frame (o : Options) (s : Signature) : Frame where
  attributes := importLine o s ::
    (if isBool s.returnType then ["[return: MarshalAs(UnmanagedType.U1)]"] else [])
  opening := "internal static extern " ++ s.returnType.managed ++ " " ++ s.name ++ "("
  params := s.params.map (declaredType ·.type)

/-- The lines of a function are its remarks and its frame with the names of its parameters. -/
theorem functionLines_eq (o : Options) (s : Signature) :
    functionLines o s = remarks s ++ (frame o s).lines (s.params.map (·.name)) := by
  have hparams : s.params.map renderParameter = List.zipWith (fun type name => type ++ " " ++ name)
      (s.params.map (declaredType ·.type)) (s.params.map (·.name)) := by
    rw [List.zipWith_map, List.zipWith_self]
    rfl
  unfold functionLines externLine remarks frame Frame.lines
  rw [hparams]
  simp only [List.append_assoc, List.cons_append, List.nil_append]

/-! ## Signatures that bind alike -/

/-- What parameters declare depends on what they bind. -/
theorem map_declaredType (ps : List ManagedParameter) :
    ps.map (declaredType ·.type) =
      (ps.map (·.type.bound)).map fun b => declaredType ⟨b.1, b.2, "", true⟩ := by
  rw [List.map_map]
  rfl

/-- Signatures that bind alike have one frame. -/
theorem frame_eq_of_sameBinding (h : s.sameBinding t) (o : Options) : frame o s = frame o t := by
  have hbinding := Signature.sameBinding_iff.1 h
  unfold Signature.binding at hbinding
  obtain ⟨hname, hconvention, hreturned, hparams⟩ := Binding.mk.inj hbinding
  obtain ⟨hmanaged, -⟩ := Prod.mk.inj hreturned
  unfold frame importLine isBool
  rw [hname, hconvention, hmanaged, map_declaredType, map_declaredType, hparams]

/-- A function is written as its remarks and its frame with the names of its parameters. -/
theorem functionBlock_eq (o : Options) (depth : Nat) (s : Signature) :
    functionBlock o depth s =
      (remarks s ++ (frame o s).lines (s.params.map (·.name))).map (indented depth) ++ [""] := by
  unfold functionBlock
  rw [functionLines_eq]

/-- The lines of signatures that bind alike are one frame, each with the remarks and the names of
parameters of its own. So nothing but these is lost of a signature that a catalogue leaves out
because an entry binds like it. -/
theorem functionBlock_of_sameBinding (h : s.sameBinding t) (o : Options) (depth : Nat) :
    ∃ f : Frame, f.params.length = s.params.length ∧ f.params.length = t.params.length ∧
      functionBlock o depth s =
        (remarks s ++ f.lines (s.params.map (·.name))).map (indented depth) ++ [""] ∧
      functionBlock o depth t =
        (remarks t ++ f.lines (t.params.map (·.name))).map (indented depth) ++ [""] := by
  have hframe := frame_eq_of_sameBinding h o
  have hlength : ∀ s, (frame o s).params.length = s.params.length := fun s => List.length_map _
  refine ⟨frame o s, hlength s, hframe ▸ hlength t, functionBlock_eq o depth s, ?_⟩
  rw [functionBlock_eq, hframe]

/-- A function that returns a truth value is declared in a header, and again in a source under
another name of its parameter, with documentation and with the native types spelled otherwise. -/
theorem functionBlock_of_redeclared :
    let flag : ManagedType := ⟨"bool", .scalar, "bool", true⟩
    let flag' : ManagedType := ⟨"bool", .scalar, "BOOL8", true⟩
    let handle : ManagedType := .unresolved "ON_Mesh*"
    let handle' : ManagedType := .unresolved "class ON_Mesh *"
    let s : Signature := ⟨"IsClosed", flag, [⟨"mesh", handle⟩], ⟨⟨"mesh.h"⟩, 3⟩, .cdecl, none⟩
    let t : Signature :=
      ⟨"IsClosed", flag', [⟨"pMesh", handle'⟩], ⟨⟨"mesh.cpp"⟩, 8⟩, .cdecl, some "Tests a mesh."⟩
    s.sameBinding t = true ∧ functionBlock {} 0 s ≠ functionBlock {} 0 t ∧
      ∃ f : Frame, f.params.length = 1 ∧
        functionBlock {} 0 s = (remarks s ++ f.lines ["mesh"]).map (indented 0) ++ [""] ∧
        functionBlock {} 0 t = (remarks t ++ f.lines ["pMesh"]).map (indented 0) ++ [""] := by
  intro flag flag' handle handle' s t
  have hsame : s.sameBinding t = true := by decide
  obtain ⟨f, hlength, -, hs, ht⟩ := functionBlock_of_sameBinding hsame {} 0
  exact ⟨hsame, by decide +kernel, f, hlength, hs, ht⟩

end NativeBindings.Emission
