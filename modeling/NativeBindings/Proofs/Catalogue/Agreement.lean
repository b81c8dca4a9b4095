import NativeBindings.Proofs.Catalogue.History

/-!
# Signatures that agree

Two signatures bind alike exactly when what they bind is equal (`Signature.sameBinding_iff`), so
binding alike is an equivalence. A catalogue compares a further signature with the entry of its name
only. All the same, additions go on to their end exactly when the entries and all further signatures
agree among each other (`snd_addUntil_iff`): the entry stands for every signature of its name that
came before.
-/

namespace NativeBindings

/-! ## What a signature binds -/

/-- What a function becomes in the generated file. -/
structure Binding where
  /-- The name of the function. -/
  name : String
  /-- The calling convention. -/
  convention : Convention
  /-- The managed type of the return value and how it crosses the boundary. -/
  returned : String × Directive
  /-- The same of each parameter, in order. -/
  params : List (String × Directive)
  deriving DecidableEq

/-- The part of a type that ends up in a binding. -/
def ManagedType.bound (t : ManagedType) : String × Directive := (t.managed, t.directive)

theorem ManagedType.sameBinding_iff {t u : ManagedType} : t.sameBinding u ↔ t.bound = u.bound := by
  unfold sameBinding bound
  simp

namespace Signature

/-- What a signature binds. -/
def binding (s : Signature) : Binding where
  name := s.name
  convention := s.convention
  returned := s.returnType.bound
  params := s.params.map (·.type.bound)

/-- Parameters bind alike one by one exactly when the lists of what they bind are equal. -/
theorem sameBinding_params_iff {ps qs : List ManagedParameter} :
    (ps.length = qs.length ∧ (ps.zip qs).all fun (p, q) => p.type.sameBinding q.type) ↔
      ps.map (·.type.bound) = qs.map (·.type.bound) := by
  induction ps generalizing qs with
  | nil => cases qs <;> simp
  | cons p ps ih =>
    cases qs with
    | nil => simp
    | cons q qs =>
      simp only [List.length_cons, Nat.add_right_cancel_iff, List.zip_cons_cons, List.all_cons,
        Bool.and_eq_true, List.map_cons, List.cons.injEq, ← ih, ManagedType.sameBinding_iff]
      exact and_left_comm

/-- Two signatures bind alike exactly when what they bind is equal. -/
theorem sameBinding_iff {s t : Signature} : s.sameBinding t ↔ s.binding = t.binding := by
  unfold sameBinding binding
  simp only [Bool.and_eq_true, beq_iff_eq, Binding.mk.injEq, ManagedType.sameBinding_iff,
    ← sameBinding_params_iff, and_assoc]

/-- Signatures agree when those of one name bind alike. -/
def Agree (ss : List Signature) : Prop :=
  ∀ s ∈ ss, ∀ t ∈ ss, s.name = t.name → s.sameBinding t

/-- Whether signatures agree depends on what they bind alone. -/
theorem Agree.of_subset {ss ts : List Signature} (h : Agree ss)
    (hsub : ts.map binding ⊆ ss.map binding) : Agree ts := by
  -- Each of the signatures has one among the others that binds the same under the same name.
  have hfind : ∀ t ∈ ts, ∃ s ∈ ss, s.binding = t.binding := fun t ht =>
    List.mem_map.1 (hsub (List.mem_map_of_mem ht))
  intro t ht u hu hname
  obtain ⟨s, hs, hst⟩ := hfind t ht
  obtain ⟨r, hr, hru⟩ := hfind u hu
  have hnames : s.name = r.name := calc
    s.name = t.name := congrArg Binding.name hst
    _ = u.name := hname
    _ = r.name := (congrArg Binding.name hru).symm
  have hsr := sameBinding_iff.1 (h s hs r hr hnames)
  rw [sameBinding_iff, ← hst, hsr, hru]

/-- Signatures that bind the same agree together or not at all. -/
theorem agree_congr {ss ts : List Signature}
    (h : ∀ b, b ∈ ss.map binding ↔ b ∈ ts.map binding) : Agree ss ↔ Agree ts :=
  ⟨fun hs => hs.of_subset fun b hb => (h b).2 hb, fun ht => ht.of_subset fun b hb => (h b).1 hb⟩

end Signature

open Signature (Agree binding sameBinding_iff agree_congr)

namespace Catalogue

variable {c : Catalogue}

/-- The entries of a catalogue agree: no two have the same name. -/
theorem Coherent.agree_entries (h : c.Coherent) : Agree c.entries := by
  intro s hs t ht hname
  rw [h.eq_of_name_eq hs ht hname, sameBinding_iff]

/-! ## Additions up to a conflict -/

/-- The catalogue with further signatures, up to the first conflict, and whether there was none. -/
def addUntil (c : Catalogue) : List Signature → Catalogue × Bool
  | [] => (c, true)
  | s :: ss =>
    match c.add s with
    | .ok (_, c) => c.addUntil ss
    | .error _ => (c, false)

/-- Behind a conflict nothing is added. -/
theorem addUntil_append (c : Catalogue) (ss ts : List Signature) :
    c.addUntil (ss ++ ts) =
      if (c.addUntil ss).2 then (c.addUntil ss).1.addUntil ts else c.addUntil ss := by
  induction ss generalizing c with
  | nil => rfl
  | cons s ss ih =>
    rw [List.cons_append, addUntil, addUntil]
    cases c.add s with
    | ok r => exact ih r.2
    | error conflict => rfl

/-- The entries are old ones or among the further signatures. -/
theorem mem_entries_addUntil (hc : c.Coherent) {ss : List Signature} {e : Signature}
    (he : e ∈ (c.addUntil ss).1.entries) : e ∈ c.entries ∨ e ∈ ss := by
  induction ss generalizing c with
  | nil => exact .inl he
  | cons s ss ih =>
    rw [addUntil] at he
    obtain ⟨hnew, hadd⟩ | ⟨e', -, -, ⟨-, hadd⟩ | ⟨-, conflict, hadd⟩⟩ := hc.add_cases s
    · simp only [hadd] at he
      obtain hold | hlater := ih (hc.append hnew) he
      · obtain hold | rfl : e ∈ c.entries ∨ e = s := by simpa [Catalogue.append] using hold
        · exact .inl hold
        · exact .inr (.head ss)
      · exact .inr (.tail s hlater)
    · simp only [hadd] at he
      exact (ih hc he).imp_right (.tail s)
    · simp only [hadd] at he
      exact .inl he

/-- Additions keep a catalogue coherent. -/
theorem Coherent.addUntil (hc : c.Coherent) (ss : List Signature) :
    (c.addUntil ss).1.Coherent := by
  induction ss generalizing c with
  | nil => exact hc
  | cons s ss ih =>
    rw [Catalogue.addUntil]
    obtain ⟨hnew, hadd⟩ | ⟨e, -, -, ⟨-, hadd⟩ | ⟨-, conflict, hadd⟩⟩ := hc.add_cases s
    · rw [hadd]
      exact ih (hc.append hnew)
    · rw [hadd]
      exact ih hc
    · rw [hadd]
      exact hc

/-- Without a conflict all signatures are added. -/
theorem fst_addUntil {ss : List Signature} (h : (c.addUntil ss).2 = true) :
    (c.addUntil ss).1 = c.insertAll ss := by
  induction ss generalizing c with
  | nil => rfl
  | cons s ss ih =>
    unfold insertAll
    rw [addUntil] at h ⊢
    rw [List.foldl_cons]
    cases hadd : c.add s with
    | ok r =>
      rw [hadd] at h
      rw [insert_of_add hadd]
      exact ih h
    | error conflict =>
      rw [hadd] at h
      cases h

/-- There is no conflict exactly when the entries and the further signatures agree. -/
theorem snd_addUntil_iff (hc : c.Coherent) {ss : List Signature} :
    (c.addUntil ss).2 = true ↔ Agree (c.entries ++ ss) := by
  induction ss generalizing c with
  | nil =>
    rw [List.append_nil]
    exact ⟨fun _ => hc.agree_entries, fun _ => rfl⟩
  | cons s ss ih =>
    rw [addUntil]
    obtain ⟨hnew, hadd⟩ | ⟨e, he, hname, ⟨hsame, hadd⟩ | ⟨hdiffer, conflict, hadd⟩⟩ :=
      hc.add_cases s
    · -- The new entry is the signature itself.
      simp only [hadd]
      rw [ih (hc.append hnew)]
      unfold Catalogue.append
      rw [List.append_assoc, List.singleton_append]
    · -- The duplicate binds what the entry of its name binds already.
      simp only [hadd]
      rw [ih hc]
      apply agree_congr
      intro b
      have hb : b = s.binding → b ∈ c.entries.map binding := by
        rintro rfl
        exact sameBinding_iff.1 hsame ▸ List.mem_map_of_mem he
      simp only [List.map_append, List.map_cons, List.mem_append, List.mem_cons]
      tauto
    · -- The signature and the entry of its name do not agree.
      simp only [hadd]
      refine ⟨fun h => absurd h (by simp), fun h => ?_⟩
      have hsame := h e (by simp [he]) s (by simp) hname
      rw [hdiffer] at hsame
      cases hsame

end Catalogue

end NativeBindings
