import Mathlib.Data.List.Induction
import Mathlib.Data.List.Nodup
import NativeBindings.Catalogue

/-!
# What a catalogue holds after additions

A catalogue keeps its entries, their positions by name and their files side by side. They tell the
same story after every sequence of additions (`Coherent.insertAll`), whatever became of each of
them: one step is an append for a new name and nothing for a known one (`Coherent.add_cases`). From
this `records_insertAll` states what a catalogue holds in terms of its history alone: the first
signature of each name.
-/

namespace NativeBindings

/-! ## First elements -/

/-- For each key, in the order in which the keys appear first, the first element with that key. -/
def firstsBy {α β : Type} [BEq β] (key : α → β) (xs : List α) : List α :=
  (xs.map key).eraseDups.filterMap fun k => xs.find? (key · == k)

section Firsts

variable {α β : Type} [BEq β] {key : α → β} {xs : List α} {x : α}

/-- The first elements are elements of the list. -/
theorem mem_of_mem_firstsBy (h : x ∈ firstsBy key xs) : x ∈ xs := by
  obtain ⟨k, -, hk⟩ := List.mem_filterMap.1 h
  exact List.mem_of_find?_eq_some hk

variable [LawfulBEq β]

/-- A key of the list leads to an element. -/
theorem isSome_find?_of_mem_map {k : β} (h : k ∈ xs.map key) :
    (xs.find? (key · == k)).isSome := by
  obtain ⟨y, hy, rfl⟩ := List.mem_map.1 h
  exact List.find?_isSome.2 ⟨y, hy, beq_self_eq_true _⟩

/-- Where no key is repeated, the element that a key leads to is the one that has it. -/
theorem find?_key_eq_some_iff {k : β} (h : (xs.map key).Nodup) :
    xs.find? (key · == k) = some x ↔ x ∈ xs ∧ key x = k := by
  have hfound : ∀ y, xs.find? (key · == k) = some y → y ∈ xs ∧ key y = k := fun y hy =>
    ⟨List.mem_of_find?_eq_some hy, by simpa using List.find?_some hy⟩
  refine ⟨hfound x, ?_⟩
  rintro ⟨hx, rfl⟩
  have hsome := isSome_find?_of_mem_map (List.mem_map_of_mem (f := key) hx)
  obtain ⟨y, hy⟩ := Option.isSome_iff_exists.1 hsome
  obtain ⟨hmem, hkey⟩ := hfound y hy
  rw [hy, List.inj_on_of_nodup_map h hmem hx hkey]

/-- A further element leaves the first elements with the keys of a list as they are. -/
theorem filterMap_find?_concat :
    ((xs.map key).eraseDups.filterMap fun k => (xs ++ [x]).find? (key · == k)) =
      firstsBy key xs := by
  refine List.filterMap_congr fun k hk => ?_
  have hsome := isSome_find?_of_mem_map (List.mem_eraseDups.1 hk)
  rw [List.find?_append, Option.or_of_isSome hsome]

/-- A further element whose key is known changes nothing. -/
theorem firstsBy_concat_of_mem (h : key x ∈ xs.map key) :
    firstsBy key (xs ++ [x]) = firstsBy key xs := by
  have hkeys : ((xs ++ [x]).map key).eraseDups = (xs.map key).eraseDups := by
    rw [List.map_append, List.eraseDups_append]
    simp [List.removeAll, h]
  unfold firstsBy
  rw [hkeys]
  exact filterMap_find?_concat

/-- A further element with a new key comes last. -/
theorem firstsBy_concat_of_not_mem (h : key x ∉ xs.map key) :
    firstsBy key (xs ++ [x]) = firstsBy key xs ++ [x] := by
  have hkeys : ((xs ++ [x]).map key).eraseDups = (xs.map key).eraseDups ++ [key x] := by
    rw [List.map_append, List.eraseDups_append]
    have hnew : [key x].removeAll (xs.map key) = [key x] := by simp [List.removeAll, h]
    rw [List.map_singleton, hnew]
    rfl
  have hfind : (xs ++ [x]).find? (key · == key x) = some x := by
    have hnone : xs.find? (key · == key x) = none := by
      rw [List.find?_eq_none]
      intro y hy heq
      exact h (List.mem_map.2 ⟨y, hy, eq_of_beq heq⟩)
    rw [List.find?_append, hnone]
    simp
  unfold firstsBy
  rw [hkeys, List.filterMap_append, filterMap_find?_concat, List.filterMap_cons, hfind]
  rfl

/-- The first elements have the keys of the list. -/
theorem mem_map_firstsBy {k : β} : k ∈ (firstsBy key xs).map key ↔ k ∈ xs.map key := by
  induction xs using List.reverseRecOn with
  | nil => rfl
  | append_singleton xs x ih =>
    by_cases h : key x ∈ xs.map key
    · rw [firstsBy_concat_of_mem h, ih, List.map_append, List.mem_append, List.map_singleton,
        List.mem_singleton]
      exact ⟨.inl, fun hk => hk.elim id fun heq => heq ▸ h⟩
    · rw [firstsBy_concat_of_not_mem h, List.map_append, List.mem_append, ih, List.map_append,
        List.mem_append]

/-- A list without repetition stays so with a new element at its end. -/
theorem nodup_concat {γ : Type} {ys : List γ} {y : γ} (h : ys.Nodup) (hy : y ∉ ys) :
    (ys ++ [y]).Nodup := by
  rw [← List.concat_eq_append]
  exact h.concat hy

/-- No two of the first elements have the same key. -/
theorem nodup_map_firstsBy : ((firstsBy key xs).map key).Nodup := by
  induction xs using List.reverseRecOn with
  | nil => exact .nil
  | append_singleton xs x ih =>
    by_cases h : key x ∈ xs.map key
    · rwa [firstsBy_concat_of_mem h]
    · rw [firstsBy_concat_of_not_mem h, List.map_append, List.map_singleton]
      have hnew : key x ∉ (firstsBy key xs).map key := fun hk => h (mem_map_firstsBy.1 hk)
      exact nodup_concat ih hnew

end Firsts

namespace Catalogue

variable {c : Catalogue} {s : Signature}

/-- The catalogue that is left behind one more signature, whatever becomes of it. -/
def insert (c : Catalogue) (s : Signature) : Catalogue := (c.put s).2

/-- Where there is no conflict, what is left is what the addition gives. -/
theorem insert_of_add {r : Insertion × Catalogue} (h : c.add s = .ok r) : c.insert s = r.2 := by
  unfold add at h
  unfold insert
  generalize c.put s = put at h ⊢
  obtain ⟨result, left⟩ := put
  cases result with
  | error conflict => cases h
  | ok insertion =>
    obtain rfl := Except.ok.inj h
    rfl

/-- A conflict leaves the catalogue as it is. -/
theorem insert_of_conflict {conflict : Conflict} (h : c.add s = .error conflict) :
    c.insert s = c := by
  rw [add_eq] at h
  unfold insert
  rw [put_eq]
  cases hget : c.get? s.name with
  | none =>
    rw [hget] at h
    cases h
  | some first => rfl

/-- The catalogue after further signatures, in order. -/
def insertAll (c : Catalogue) (ss : List Signature) : Catalogue := ss.foldl insert c

theorem insertAll_concat (c : Catalogue) (ss : List Signature) (s : Signature) :
    c.insertAll (ss ++ [s]) = (c.insertAll ss).insert s := List.foldl_concat ..

/-! ## Coherence -/

/-- The positions by name and the files of a catalogue are those of its entries. -/
structure Coherent (c : Catalogue) : Prop where
  /-- No name has two entries. -/
  names : c.names.Nodup
  /-- The index leads from the name of each entry to its position, and from nothing else. -/
  index : c.index = c.entries.zipIdx.map fun (s, i) => (s.name, i)
  /-- The files are those of the entries, in the order in which they appear first. -/
  files : c.files = firstsBy Path.components (c.entries.map (·.origin.file))

/-- The positions of entries by name, counted from `start`. -/
theorem lookup_zipIdx (entries : List Signature) (start : Nat) (name : String) :
    ((entries.zipIdx start).map fun (s, i) => (s.name, i)).lookup name =
      (entries.findIdx? (·.name == name)).map (· + start) := by
  induction entries generalizing start with
  | nil => rfl
  | cons s ss ih =>
    rw [List.zipIdx_cons, List.map_cons, List.lookup_cons, List.findIdx?_cons, ih, BEq.comm]
    cases s.name == name with
    | true => simp
    | false =>
      simp only [Bool.false_eq_true, if_false, Option.map_map]
      congr 1
      funext i
      simp only [Function.comp_apply]
      omega

/-- Looking up a name finds its entry. -/
theorem Coherent.get?_eq (h : c.Coherent) (name : String) :
    c.get? name = c.entries.find? (·.name == name) := by
  unfold get?
  rw [h.index, lookup_zipIdx, List.find?_eq_bind_findIdx?_getElem?]
  simp

/-- A name is found exactly when it is the name of an entry. -/
theorem Coherent.get?_eq_none_iff (h : c.Coherent) {name : String} :
    c.get? name = none ↔ name ∉ c.names := by
  unfold Catalogue.names
  rw [h.get?_eq, List.find?_eq_none]
  simp

/-- The entry that is found is the one with the name. -/
theorem Coherent.get?_eq_some_iff (h : c.Coherent) {name : String} {e : Signature} :
    c.get? name = some e ↔ e ∈ c.entries ∧ e.name = name := by
  rw [h.get?_eq]
  exact find?_key_eq_some_iff h.names

/-- The index leads from a name to the position of its entry. -/
theorem Coherent.lookup_eq_some_iff (h : c.Coherent) {name : String} {i : Nat} :
    c.index.lookup name = some i ↔ ∃ e, c.entries[i]? = some e ∧ e.name = name := by
  have hindex : c.index.lookup name = c.entries.findIdx? (·.name == name) := by
    rw [h.index, lookup_zipIdx]
    simp
  rw [hindex, List.findIdx?_eq_some_iff_getElem]
  constructor
  · rintro ⟨hi, hname, -⟩
    exact ⟨c.entries[i], List.getElem?_eq_getElem hi, eq_of_beq hname⟩
  · rintro ⟨e, he, rfl⟩
    obtain ⟨hi, rfl⟩ := List.getElem?_eq_some_iff.1 he
    refine ⟨hi, beq_self_eq_true _, fun j hji => ?_⟩
    -- An earlier entry with the name would have the same position.
    intro hname
    have hj : j < c.entries.length := Nat.lt_trans hji hi
    have hsame : c.names[j]? = c.names[i]? := by
      unfold Catalogue.names
      rw [List.getElem?_map, List.getElem?_map, List.getElem?_eq_getElem hi,
        List.getElem?_eq_getElem hj]
      exact congrArg some (eq_of_beq hname)
    have hlength : j < c.names.length := by simpa [Catalogue.names] using hj
    exact absurd ((List.getElem?_inj hlength h.names).1 hsame) (Nat.ne_of_lt hji)

/-- The files of a catalogue differ in their components. -/
theorem Coherent.pairwise_files (h : c.Coherent) : c.files.Pairwise fun p q => ¬p.same q := by
  have hnodup : (c.files.map Path.components).Nodup := by
    rw [h.files]
    exact nodup_map_firstsBy
  refine (List.pairwise_map.1 hnodup).imp fun {p q} hpq hsame => ?_
  exact hpq (eq_of_beq hsame)

theorem coherent_empty : empty.Coherent := ⟨.nil, rfl, rfl⟩

/-- A signature with a new name keeps a catalogue coherent. -/
theorem Coherent.append (h : c.Coherent) (hs : s.name ∉ c.names) : (c.append s).Coherent := by
  constructor
  · unfold Catalogue.names Catalogue.append
    rw [List.map_append, List.map_singleton]
    exact nodup_concat h.names hs
  · unfold Catalogue.append
    rw [h.index, List.zipIdx_append, List.map_append]
    simp
  · -- The file is new exactly when no entry comes from it.
    have hfiles : c.files.any (·.same s.origin.file) ↔
        s.origin.file.components ∈ (c.entries.map (·.origin.file)).map Path.components := by
      rw [h.files, ← mem_map_firstsBy, List.any_eq_true, List.mem_map]
      simp only [Path.same, beq_iff_eq]
    unfold Catalogue.append
    simp only [List.map_append, List.map_singleton]
    by_cases hfile : c.files.any (·.same s.origin.file)
    · rw [if_pos hfile, firstsBy_concat_of_mem (hfiles.1 hfile), h.files]
    · rw [if_neg hfile, firstsBy_concat_of_not_mem (mt hfiles.2 hfile), h.files]

/-- All that can become of a signature: it is added under a new name, left out because it binds
like the entry of its name, or refused because it does not. -/
theorem Coherent.add_cases (h : c.Coherent) (s : Signature) :
    (s.name ∉ c.names ∧ c.add s = .ok (.added, c.append s)) ∨
      ∃ e ∈ c.entries, e.name = s.name ∧
        ((e.sameBinding s = true ∧ c.add s = .ok (.duplicate, c)) ∨
          (e.sameBinding s = false ∧ ∃ conflict, c.add s = .error conflict)) := by
  rw [add_eq]
  cases hget : c.get? s.name with
  | none => exact .inl ⟨h.get?_eq_none_iff.1 hget, rfl⟩
  | some e =>
    obtain ⟨he, hname⟩ := h.get?_eq_some_iff.1 hget
    refine .inr ⟨e, he, hname, ?_⟩
    cases hsame : e.sameBinding s with
    | true => exact .inl ⟨rfl, if_pos hsame⟩
    | false => exact .inr ⟨rfl, _, if_neg (by simp [hsame])⟩

/-- Only one entry has a given name. -/
theorem Coherent.eq_of_name_eq (h : c.Coherent) {e e' : Signature} (he : e ∈ c.entries)
    (he' : e' ∈ c.entries) (hname : e.name = e'.name) : e = e' :=
  List.inj_on_of_nodup_map h.names he he' hname

/-- A name that an entry has is known. -/
theorem mem_names_of_entry {e : Signature} (he : e ∈ c.entries) (hname : e.name = s.name) :
    s.name ∈ c.names := hname ▸ List.mem_map_of_mem he

/-- What some entry with a name satisfies, the only one with it does. -/
theorem Coherent.exists_entry_iff (h : c.Coherent) {e : Signature} (he : e ∈ c.entries)
    (hname : e.name = s.name) (P : Signature → Prop) :
    (∃ e' ∈ c.entries, e'.name = s.name ∧ P e') ↔ P e := by
  constructor
  · rintro ⟨e', he', hname', hP⟩
    rwa [h.eq_of_name_eq he' he (hname'.trans hname.symm)] at hP
  · exact fun hP => ⟨e, he, hname, hP⟩

/-- No entry has a new name. -/
theorem not_exists_entry (hs : s.name ∉ c.names) (P : Signature → Prop) :
    ¬∃ e ∈ c.entries, e.name = s.name ∧ P e :=
  fun ⟨_, he, hname, _⟩ => hs (mem_names_of_entry he hname)

/-- A signature is added exactly when its name is new. -/
theorem Coherent.add_eq_added_iff (h : c.Coherent) :
    (∃ c', c.add s = .ok (.added, c')) ↔ s.name ∉ c.names := by
  obtain ⟨hnew, hadd⟩ | ⟨e, he, hname, hrest⟩ := h.add_cases s
  · simp [hnew, hadd]
  · have hknown := mem_names_of_entry he hname
    obtain ⟨-, hadd⟩ | ⟨-, conflict, hadd⟩ := hrest
    · simp [hknown, hadd]
    · simp [hknown, hadd]

/-- A signature is a duplicate exactly when its name has an entry that binds alike. -/
theorem Coherent.add_eq_duplicate_iff (h : c.Coherent) :
    (∃ c', c.add s = .ok (.duplicate, c')) ↔
      ∃ e ∈ c.entries, e.name = s.name ∧ e.sameBinding s := by
  obtain ⟨hnew, hadd⟩ | ⟨e, he, hname, hrest⟩ := h.add_cases s
  · refine iff_of_false ?_ (not_exists_entry hnew _)
    simp [hadd]
  · rw [h.exists_entry_iff he hname]
    obtain ⟨hsame, hadd⟩ | ⟨hdiffer, conflict, hadd⟩ := hrest
    · simp [hsame, hadd]
    · simp [hdiffer, hadd]

/-- A signature is a conflict exactly when its name has an entry that binds differently. -/
theorem Coherent.add_eq_error_iff (h : c.Coherent) :
    (∃ x, c.add s = .error x) ↔ ∃ e ∈ c.entries, e.name = s.name ∧ ¬e.sameBinding s := by
  obtain ⟨hnew, hadd⟩ | ⟨e, he, hname, hrest⟩ := h.add_cases s
  · refine iff_of_false ?_ (not_exists_entry hnew _)
    simp [hadd]
  · rw [h.exists_entry_iff he hname (¬ Signature.sameBinding · s)]
    obtain ⟨hsame, hadd⟩ | ⟨hdiffer, conflict, hadd⟩ := hrest
    · simp [hsame, hadd]
    · simp [hdiffer, hadd]

/-- A signature with a new name is appended. -/
theorem Coherent.insert_of_not_mem (h : c.Coherent) (hs : s.name ∉ c.names) :
    c.insert s = c.append s := by
  obtain ⟨-, hadd⟩ | ⟨e, he, hname, -⟩ := h.add_cases s
  · exact insert_of_add hadd
  · exact absurd (mem_names_of_entry he hname) hs

/-- A signature with a known name leaves the catalogue as it is. -/
theorem Coherent.insert_of_mem (h : c.Coherent) (hs : s.name ∈ c.names) : c.insert s = c := by
  obtain ⟨hnew, -⟩ | ⟨e, -, -, ⟨-, hadd⟩ | ⟨-, conflict, hadd⟩⟩ := h.add_cases s
  · exact absurd hs hnew
  · exact insert_of_add hadd
  · exact insert_of_conflict hadd

/-- One addition keeps a catalogue coherent. -/
theorem Coherent.insert (h : c.Coherent) (s : Signature) : (c.insert s).Coherent := by
  by_cases hs : s.name ∈ c.names
  · rwa [h.insert_of_mem hs]
  · rw [h.insert_of_not_mem hs]
    exact h.append hs

/-- Any additions keep a catalogue coherent. -/
theorem Coherent.insertAll (h : c.Coherent) (ss : List Signature) : (c.insertAll ss).Coherent := by
  induction ss using List.reverseRecOn with
  | nil => exact h
  | append_singleton ss s ih =>
    rw [insertAll_concat]
    exact ih.insert s

/-! ## The entries -/

/-- The entries are the first signatures of the names. -/
theorem entries_insertAll (ss : List Signature) :
    (empty.insertAll ss).entries = firstsBy (·.name) ss := by
  induction ss using List.reverseRecOn with
  | nil => rfl
  | append_singleton ss s ih =>
    have hcoherent := coherent_empty.insertAll ss
    -- The name of an entry is the name of a signature that came before.
    have hnames : s.name ∈ (empty.insertAll ss).names ↔ s.name ∈ ss.map (·.name) := by
      unfold names
      rw [ih, mem_map_firstsBy]
    rw [insertAll_concat]
    by_cases hs : s.name ∈ ss.map (·.name)
    · rw [hcoherent.insert_of_mem (hnames.2 hs), ih, firstsBy_concat_of_mem hs]
    · rw [hcoherent.insert_of_not_mem (mt hnames.1 hs), firstsBy_concat_of_not_mem hs, ← ih]
      rfl

/-- What a catalogue holds after the given additions, and what becomes of one more. -/
structure Records (c : Catalogue) (adds : List Signature) : Prop where
  /-- The entries are the signatures added first for each name, in the order of the names. -/
  entries : c.entries = firstsBy (·.name) adds
  /-- No name has two entries. -/
  names : c.names.Nodup
  /-- The index holds the name and the position of each entry, and nothing else. -/
  index : c.index = c.entries.zipIdx.map fun (s, i) => (s.name, i)
  /-- A name leads to the position of its entry. -/
  lookup : ∀ name i, c.index.lookup name = some i ↔ ∃ e, c.entries[i]? = some e ∧ e.name = name
  /-- The files are those of the entries, each at its first appearance. -/
  files : c.files = firstsBy Path.components (c.entries.map (·.origin.file))
  /-- No file is listed twice, however it is spelled. -/
  filesDiffer : c.files.Pairwise fun p q => ¬p.same q
  /-- Looking up a name gives its entry. -/
  get : ∀ name e, c.get? name = some e ↔ e ∈ c.entries ∧ e.name = name
  /-- Looking up any other name gives nothing. -/
  getNone : ∀ name, c.get? name = none ↔ name ∉ c.names
  /-- A further signature is added exactly when its name is new. -/
  added : ∀ s, (∃ c', c.add s = .ok (.added, c')) ↔ s.name ∉ c.names
  /-- It is a duplicate exactly when its name has an entry that binds alike. -/
  duplicate : ∀ s, (∃ c', c.add s = .ok (.duplicate, c')) ↔
    ∃ e ∈ c.entries, e.name = s.name ∧ e.sameBinding s
  /-- It is a conflict exactly when its name has an entry that binds differently. -/
  conflict : ∀ s, (∃ x, c.add s = .error x) ↔
    ∃ e ∈ c.entries, e.name = s.name ∧ ¬e.sameBinding s
  /-- A duplicate and a conflict leave the catalogue as it is. -/
  unchanged : ∀ s, (∀ c', c.add s ≠ .ok (.added, c')) → c.insert s = c

/-- Whatever the additions were, a catalogue holds what its history says, and further additions
become what the entries say. -/
theorem records_insertAll (adds : List Signature) : (empty.insertAll adds).Records adds := by
  have h := coherent_empty.insertAll adds
  have hentries := entries_insertAll adds
  generalize empty.insertAll adds = c at h hentries
  exact {
    entries := hentries
    names := h.names
    index := h.index
    lookup := fun _ _ => h.lookup_eq_some_iff
    files := h.files
    filesDiffer := h.pairwise_files
    get := fun _ _ => h.get?_eq_some_iff
    getNone := fun _ => h.get?_eq_none_iff
    added := fun _ => h.add_eq_added_iff
    duplicate := fun _ => h.add_eq_duplicate_iff
    conflict := fun _ => h.add_eq_error_iff
    -- A name that is known already is not added.
    unchanged := fun s hs => by
      have hmem : s.name ∈ c.names := by
        by_contra hnew
        obtain ⟨c', hc'⟩ := h.add_eq_added_iff.2 hnew
        exact hs c' hc'
      exact h.insert_of_mem hmem }

end Catalogue

end NativeBindings
