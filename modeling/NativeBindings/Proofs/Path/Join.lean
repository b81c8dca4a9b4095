import Mathlib.Data.List.Basic
import NativeBindings.Path

/-!
# Names in a directory

A plain name is one component. Behind any directory it stays the last one
(`getLast?_components_join`), so it is what is shown for the path, and two plain names in one
directory lead to the same place only when they are equal (`same_join_iff`).
-/

namespace NativeBindings.Path

/-- A name of an entry by itself: not empty, without a separator, and neither `.` nor `..`. -/
structure IsPlain (name : String) : Prop where
  /-- It is not empty. -/
  ne_empty : name.toList ≠ []
  /-- It holds no separator. -/
  noSeparator : '/' ∉ name.toList
  /-- It does not stand for the directory itself. -/
  ne_current : name.toList ≠ ['.']
  /-- It is no step up. -/
  ne_parent : name.toList ≠ ['.', '.']

instance (name : String) : Decidable (IsPlain name) :=
  decidable_of_iff (name.toList ≠ [] ∧ '/' ∉ name.toList ∧ name.toList ≠ ['.'] ∧
    name.toList ≠ ['.', '.'])
    ⟨fun ⟨h₁, h₂, h₃, h₄⟩ => ⟨h₁, h₂, h₃, h₄⟩, fun ⟨h₁, h₂, h₃, h₄⟩ => ⟨h₁, h₂, h₃, h₄⟩⟩

variable {name : String}

/-- A plain name stands for one component. -/
theorem IsPlain.ofPiece? (h : IsPlain name) :
    Component.ofPiece? name.toList = some (.named name) := by
  unfold Component.ofPiece?
  split
  · rename_i heq
    exact absurd heq h.ne_empty
  · rename_i heq
    exact absurd heq h.ne_current
  · rename_i heq
    exact absurd heq h.ne_parent
  · rw [String.ofList_toList]

theorem IsPlain.pieces_eq (h : IsPlain name) : pieces name.toList = [name.toList] := by
  refine List.splitOnP_eq_singleton fun c hc => ?_
  rw [beq_eq_false_iff_ne]
  rintro rfl
  exact h.noSeparator hc

/-- A plain name is a relative path. -/
theorem IsPlain.isAbsolute (h : IsPlain name) : isAbsolute ⟨name⟩ = false := by
  unfold Path.isAbsolute
  rw [beq_eq_false_iff_ne]
  exact fun hslash => h.noSeparator (List.mem_of_head? hslash)

/-- A path as seen from the empty one is itself. -/
theorem empty_join (p : Path) : join ⟨""⟩ p = p := by
  unfold join
  split <;> rfl

theorem IsPlain.start_eq (h : IsPlain name) : start name.toList = ([], name.toList) := by
  unfold start
  split
  · rename_i heq
    exact absurd (by rw [heq]; simp) h.noSeparator
  · rename_i heq
    exact absurd heq h.ne_current
  · rename_i heq
    exact absurd (by rw [heq]; simp) h.noSeparator
  · rfl

/-! ## The components of a path -/

/-- The component that the start of a path stands for. -/
def Component.ofStart (s : Text) : List Component :=
  match s with
  | ['/'] => [.root]
  | ['.'] => [.current]
  | _ => []

/-- The components that the pieces of a text stand for. -/
def steps (t : Text) : List Component := (pieces t).filterMap Component.ofPiece?

theorem components_eq (p : Path) :
    p.components = Component.ofStart (start p.text.toList).1 ++ steps (start p.text.toList).2 := rfl

/-- A text is its start and the rest. -/
theorem start_fst_append_snd (t : Text) : (start t).1 ++ (start t).2 = t := by
  unfold start
  split <;> rfl

/-- What stands behind a separator leaves the start of a text as it is. -/
theorem start_append {t s : Text} (hne : t ≠ [])
    (h : s.head? = some '/' ∨ t.getLast? = some '/') :
    start (t ++ s) = ((start t).1, (start t).2 ++ s) := by
  rw [start.eq_def t]
  split
  · rfl
  · obtain h | h := h
    · obtain ⟨rest, rfl⟩ := List.head?_eq_some_iff.1 h
      rfl
    · cases h
  · rfl
  · -- The text has no start of its own, and what stands behind it gives it none.
    rename_i hroot hcurrent hrelative
    obtain ⟨c, cs, rfl⟩ := List.exists_cons_of_ne_nil hne
    rw [start.eq_def]
    split
    · rename_i rest heq
      obtain ⟨rfl, -⟩ := List.cons.inj heq
      exact absurd rfl (hroot cs)
    · rename_i heq
      obtain ⟨rfl, htail⟩ : c = '.' ∧ cs ++ s = [] := List.cons.inj heq
      rw [(List.append_eq_nil_iff.1 htail).1] at hcurrent
      exact absurd rfl hcurrent
    · rename_i rest heq
      obtain ⟨rfl, htail⟩ := List.cons.inj heq
      cases cs with
      | nil => exact absurd rfl hcurrent
      | cons d ds =>
        obtain ⟨rfl, -⟩ := List.cons.inj htail
        exact absurd rfl (hrelative ds)
    · rfl

theorem steps_append_separator (t s : Text) : steps (t ++ '/' :: s) = steps t ++ steps s := by
  unfold steps pieces
  rw [List.splitOnP_append_cons t s rfl, List.filterMap_append]

/-- The pieces of a text and those of another one behind it stay apart where a separator stands
between them. -/
theorem steps_append {t s : Text} (h : t = [] ∨ s.head? = some '/' ∨ t.getLast? = some '/') :
    steps (t ++ s) = steps t ++ steps s := by
  have hnil : steps [] = [] := rfl
  obtain rfl | h | h := h
  · rfl
  · obtain ⟨rest, rfl⟩ := List.head?_eq_some_iff.1 h
    rw [steps_append_separator, ← List.nil_append ('/' :: rest), steps_append_separator, hnil,
      List.nil_append]
  · obtain ⟨before, rfl⟩ := List.getLast?_eq_some_iff.1 h
    rw [List.append_assoc, List.singleton_append, steps_append_separator, steps_append_separator,
      hnil, List.append_nil]

/-- Behind a separator the pieces of a text are further components. -/
theorem components_append {t s : String} (hne : t.toList ≠ [])
    (h : s.toList.head? = some '/' ∨ t.toList.getLast? = some '/') :
    (⟨t ++ s⟩ : Path).components = (⟨t⟩ : Path).components ++ steps s.toList := by
  have hrest : (start t.toList).2 = [] ∨ s.toList.head? = some '/' ∨
      (start t.toList).2.getLast? = some '/' := by
    obtain h | h := h
    · exact .inr (.inl h)
    · by_cases hnil : (start t.toList).2 = []
      · exact .inl hnil
      · rw [← List.getLast?_append_of_ne_nil (start t.toList).1 hnil, start_fst_append_snd]
        exact .inr (.inr h)
  rw [components_eq, components_eq, String.toList_append, start_append hne h, steps_append hrest,
    List.append_assoc]

/-- A plain name in a directory is one more component. -/
theorem components_join (d : Path) (h : IsPlain name) :
    (d.join ⟨name⟩).components = d.components ++ [.named name] := by
  have hname : steps name.toList = [.named name] := by
    unfold steps
    rw [h.pieces_eq, List.filterMap_cons_some h.ofPiece?, List.filterMap_nil]
  have hne : ∀ {c}, d.text.toList.getLast? = some c → d.text.toList ≠ [] := by
    intro c hc hnil
    rw [hnil] at hc
    cases hc
  unfold join
  rw [h.isAbsolute, if_neg (by decide)]
  split
  · -- Behind the empty path, behind a separator, and behind one that is put in.
    rename_i hlast
    rw [components_eq, components_eq, List.getLast?_eq_none_iff.1 hlast, h.start_eq, hname]
    rfl
  · rename_i hlast
    rw [components_append (hne hlast) (.inr hlast), hname]
  · rename_i c hc hlast
    have hseparated : steps ("/" ++ name).toList = [.named name] := by
      rw [← hname, String.toList_append]
      exact steps_append_separator [] name.toList
    have hhead : ("/" ++ name).toList.head? = some '/' := by
      rw [String.toList_append]
      rfl
    rw [String.append_assoc, components_append (hne hlast) (.inl hhead), hseparated]

/-- A plain name is the last component of its path in any directory. -/
theorem getLast?_components_join (d : Path) (h : IsPlain name) :
    (d.join ⟨name⟩).components.getLast? = some (.named name) := by
  rw [components_join d h, List.getLast?_concat]

/-- A plain name is shown for its path in any directory. -/
theorem displayName_join (d : Path) (h : IsPlain name) : (d.join ⟨name⟩).displayName = name := by
  unfold displayName fileName?
  rw [getLast?_components_join d h]
  rfl

/-- Two plain names in one directory are the same place only when they are equal. -/
theorem same_join_iff (d : Path) {name' : String} (h : IsPlain name) (h' : IsPlain name') :
    (d.join ⟨name⟩).same (d.join ⟨name'⟩) ↔ name = name' := by
  constructor
  · intro hsame
    have hlast := congrArg List.getLast? (eq_of_beq hsame)
    rw [getLast?_components_join d h, getLast?_components_join d h'] at hlast
    exact Component.named.inj (Option.some.inj hlast)
  · rintro rfl
    exact beq_self_eq_true _

end NativeBindings.Path
