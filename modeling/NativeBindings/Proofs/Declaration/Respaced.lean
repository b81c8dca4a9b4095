import NativeBindings.Proofs.Declaration.Spacing

/-!
# Words beside marks

The words of linkage and of calling conventions are taken out of a head where blanks stand around
them; right beside a mark such a word is taken for a part of the type. What is read from a head
depends on its tokens and on which of them are taken out (`Declaration.read_of_labels`). So heads in
which all these words have blanks around them (`Loose`) are read alike, whatever the spacing; and
where a declaration is read from one, it is not read from a head with the same tokens in which one
of these words stands beside a mark (`Declaration.read_eq_iff_loose`).
-/

namespace NativeBindings

open TypeText

/-! ## Words of linkage and of calling conventions -/

/-- The words of calling conventions. -/
def conventionWords : List String :=
  ["__cdecl", "_cdecl", "CDECL", "__stdcall", "_stdcall", "WINAPI", "CALLBACK", "APIENTRY"]

theorem mem_conventionWords {w : Text} (h : isConventionWord w) :
    String.ofList w ∈ conventionWords := by
  unfold isConventionWord Convention.ofKeyword? at h
  split at h
  iterate 8 exact ‹String.ofList w = _› ▸ by decide
  cases h

/-- A word of linkage or of a calling convention, which is no part of the return type. -/
def isSpecial (w : Text) : Bool := String.ofList w ∈ linkageWords || isConventionWord w

variable {w : Text} {ws : List Text}

/-- Such a word is a token. -/
theorem isSpecial_spec (h : isSpecial w) : w ≠ [] ∧ tokens w = [w] := by
  have hall : ∀ s ∈ linkageWords ++ conventionWords,
      s.toList ≠ [] ∧ tokens s.toList = [s.toList] := by decide
  have hmem : String.ofList w ∈ linkageWords ++ conventionWords := by
    unfold isSpecial at h
    rw [Bool.or_eq_true, decide_eq_true_eq] at h
    exact List.mem_append.2 (h.imp_right mem_conventionWords)
  simpa using hall _ hmem

/-- The tokens of words, each with whether its word is special. -/
def labelled (ws : List Text) : List (Text × Bool) :=
  ws.flatMap fun w => (tokens w).map fun v => (v, isSpecial w)

/-- Of a special word one token is left, and of the other words all are. -/
theorem filter_labelled (ws : List Text) :
    ((labelled ws).filter (·.2)).map Prod.fst = ws.filter isSpecial ∧
      ((labelled ws).filter (!·.2)).map Prod.fst =
        (ws.filter (!isSpecial ·)).flatMap tokens := by
  induction ws with
  | nil => exact ⟨rfl, rfl⟩
  | cons w ws ih =>
    have hcons : labelled (w :: ws) = ((tokens w).map fun v => (v, isSpecial w)) ++ labelled ws :=
      List.flatMap_cons
    rw [hcons, List.filter_append, List.filter_append, List.map_append, List.map_append, ih.1, ih.2]
    by_cases hspecial : isSpecial w = true
    · rw [hspecial, (isSpecial_spec hspecial).2, List.filter_cons_of_pos hspecial,
        List.filter_cons_of_neg (p := (!isSpecial ·)) (by simp [hspecial])]
      exact ⟨rfl, rfl⟩
    · rw [List.filter_cons_of_neg hspecial,
        List.filter_cons_of_pos (p := (!isSpecial ·)) (by simp [hspecial]), List.flatMap_cons]
      rw [Bool.not_eq_true] at hspecial
      simp [hspecial, List.filter_map, Function.comp_def]

/-- Those of the tokens of words that are special are words. -/
def Apart (ws : List Text) : Prop := ∀ w ∈ ws, ∀ v ∈ tokens w, isSpecial v → v = w

instance (ws : List Text) : Decidable (Apart ws) :=
  have (w : Text) : Decidable (∀ v ∈ tokens w, isSpecial v → v = w) := List.decidableBAll _ _
  List.decidableBAll _ ws

/-- Where special tokens are words the tokens tell which of them these are. -/
theorem Apart.labelled_eq (h : Apart ws) :
    labelled ws = (ws.flatMap tokens).map fun v => (v, isSpecial v) := by
  unfold labelled
  rw [List.map_flatMap]
  refine List.flatMap_congr fun w hw => List.map_congr_left fun v hv => ?_
  by_cases hspecial : isSpecial v = true
  · rw [h w hw v hv hspecial]
  · -- The only token of a special word is the word.
    have hword : ¬ isSpecial w = true := fun hw' => by
      rw [(isSpecial_spec hw').2, List.mem_singleton] at hv
      exact hspecial (hv ▸ hw')
    rw [Bool.eq_false_iff.2 hspecial, Bool.eq_false_iff.2 hword]

/-- Where special tokens are words they are the special words. -/
theorem Apart.filter_tokens (h : Apart ws) :
    (ws.flatMap tokens).filter isSpecial = ws.filter isSpecial := by
  have hlabels := (filter_labelled ws).1
  rw [h.labelled_eq, List.filter_map, List.map_map] at hlabels
  simpa [Function.comp_def] using hlabels

/-- Among the tokens there are no fewer characters of special words than among the words, and as
many only when these stand apart. -/
theorem apart_of_length (ws : List Text) :
    (ws.filter isSpecial).flatten.length ≤ ((ws.flatMap tokens).filter isSpecial).flatten.length ∧
      (((ws.flatMap tokens).filter isSpecial).flatten.length =
        (ws.filter isSpecial).flatten.length → Apart ws) := by
  induction ws with
  | nil => exact ⟨le_rfl, fun _ w hw => by cases hw⟩
  | cons w ws ih =>
    obtain ⟨hle, hapart⟩ := ih
    rw [List.flatMap_cons, List.filter_append, List.flatten_append, List.length_append]
    by_cases hspecial : isSpecial w = true
    · -- A special word is one token, and counts on both sides.
      have htokens := (isSpecial_spec hspecial).2
      have hone : (tokens w).filter isSpecial = [w] := by
        rw [htokens, List.filter_cons_of_pos hspecial, List.filter_nil]
      rw [hone, List.filter_cons_of_pos hspecial, List.flatten_singleton, List.flatten_cons,
        List.length_append]
      refine ⟨by omega, fun heq => ?_⟩
      refine List.forall_mem_cons.2 ⟨fun v hv _ => ?_, hapart (by omega)⟩
      rw [htokens] at hv
      exact List.mem_singleton.1 hv
    · rw [List.filter_cons_of_neg hspecial]
      refine ⟨by omega, fun heq => ?_⟩
      refine List.forall_mem_cons.2 ⟨fun v hv hv' => ?_, hapart (by omega)⟩
      -- A special token has characters, and there is none to count.
      have hnone : ((tokens w).filter isSpecial).flatten = [] :=
        List.length_eq_zero_iff.1 (by omega)
      have hnil := List.flatten_eq_nil_iff.1 hnone v (List.mem_filter.2 ⟨hv, hv'⟩)
      exact absurd hnil (isSpecial_spec hv').1

/-! ## The return type and the name -/

/-- Every word of linkage or of a calling convention has blanks around it. -/
def Loose (head : Text) : Prop := Apart (Text.words (stripAttributes head))

instance (head : Text) : Decidable (Loose head) :=
  inferInstanceAs (Decidable (Apart (Text.words (stripAttributes head))))

section Head

variable {head head' params : Text} {location : Location} {doc : Option Text} {d : Declaration}

theorem words_typeAndName (head : Text) :
    Text.words (typeAndName head) =
      (Text.words (stripAttributes head)).filter (!isSpecial ·) := by
  unfold typeAndName
  rw [Text.words_unwords fun w hw => Text.mem_words (List.mem_filter.1 (List.mem_filter.1 hw).1).1,
    List.filter_filter]
  refine List.filter_congr fun w _ => ?_
  unfold isSpecial
  rw [Bool.not_or, decide_not, Bool.and_comm]

/-- A slash in the return type or the name is one of the head. -/
theorem slash_mem_of_typeAndName (h : '/' ∈ typeAndName head) : '/' ∈ stripAttributes head := by
  rw [Text.mem_iff_exists_word (by decide), words_typeAndName] at h
  obtain ⟨w, hw, hmem⟩ := h
  exact (Text.mem_iff_exists_word (by decide)).2 ⟨w, (List.mem_filter.1 hw).1, hmem⟩

theorem singleSpaced_typeAndName (head : Text) : Text.SingleSpaced (typeAndName head) :=
  (Text.SingleSpaced.unwords fun _ hw =>
    Text.mem_words (List.mem_filter.1 (List.mem_filter.1 hw).1).1).1

/-- The tokens of a head without calls of attribute macros, each with whether it is taken out. -/
def labels (head : Text) : List (Text × Bool) := labelled (Text.words (stripAttributes head))

/-- The tokens of the return type and the name. -/
theorem tokens_typeAndName (head : Text) :
    tokens (typeAndName head) = ((labels head).filter (!·.2)).map Prod.fst := by
  unfold labels
  rw [tokens_eq_flatMap_words, words_typeAndName, (filter_labelled _).2]

/-- Of two heads with the same tokens, where the special ones have blanks around them in one, the
same are taken out exactly when they have in the other. -/
theorem Loose.labels_eq_iff (h : Loose head)
    (htokens : tokens (stripAttributes head) = tokens (stripAttributes head')) :
    labels head = labels head' ↔ Loose head' := by
  have hlabels : ∀ {head : Text}, Loose head →
      labels head = (tokens (stripAttributes head)).map fun v => (v, isSpecial v) := by
    intro head h
    unfold labels
    rw [Apart.labelled_eq h, ← tokens_eq_flatMap_words]
  refine ⟨fun hsame w hw v hv hspecial => ?_, fun h' => by rw [hlabels h, hlabels h', htokens]⟩
  -- The label of a special token tells that it is taken out, with its word.
  have hmem : (v, isSpecial w) ∈ labels head' :=
    List.mem_flatMap.2 ⟨w, hw, List.mem_map_of_mem hv⟩
  rw [← hsame, hlabels h] at hmem
  obtain ⟨u, -, hu⟩ := List.mem_map.1 hmem
  obtain ⟨rfl, hword⟩ := Prod.mk.inj hu
  rw [(isSpecial_spec (hword ▸ hspecial)).2] at hv
  exact List.mem_singleton.1 hv

/-- The last word of a single-spaced text, and the spelling of what stands in front of it, depend on
the tokens. -/
theorem tidy_take_of_tokens {t t' : Text} (ht : Text.SingleSpaced t) (ht' : Text.SingleSpaced t')
    (htokens : tokens t = tokens t') (hslash : '/' ∉ t) :
    trailingWord t = trailingWord t' ∧
      tidy (t.take (t.length - (trailingWord t).length)) =
        tidy (t'.take (t'.length - (trailingWord t').length)) := by
  have hslash' : '/' ∉ t' := by
    rwa [← mem_congr_of_tokens htokens (by decide)]
  -- Texts without tokens are empty, and their blanks are spaces.
  have hempty : ∀ {t : Text}, Text.SingleSpaced t → (t = [] ↔ tokens t = []) := by
    intro t ht
    refine ⟨fun hnil => by rw [hnil, tokens_nil], fun hnil => ?_⟩
    by_contra hne
    exact ht.words_ne_nil hne (Text.words_eq_nil_iff.2 (tokens_eq_nil_iff.1 hnil))
  have hascii : ∀ {t : Text}, Text.SingleSpaced t → ∀ c ∈ t, isBlank c → c.toNat < 128 := by
    intro t ht c hc hblank
    rw [← ht.collapse_eq] at hc
    rw [Text.eq_space_of_mem_collapse hc hblank]
    decide
  by_cases hne : t = []
  · obtain rfl := (hempty ht').2 (htokens ▸ (hempty ht).1 hne)
    obtain rfl := hne
    exact ⟨rfl, rfl⟩
  have hne' : t' ≠ [] := mt (hempty ht').1 (htokens ▸ mt (hempty ht).2 hne)
  -- Both texts end with the same token.
  obtain ⟨s, w, rfl, hlast, -, hsolid, hstarts, hword⟩ := exists_last_token hne ht.last (hascii ht)
  obtain ⟨s', w', rfl, hlast', -, -, hstarts', hword'⟩ :=
    exists_last_token hne' ht'.last (hascii ht')
  have hboth := hlast.symm.trans (htokens.trans hlast')
  obtain ⟨hfront, hw⟩ := List.append_inj' hboth rfl
  obtain rfl : w = w' := List.singleton_inj.1 hw
  -- Without the word, what is left of the token stays behind the text in front.
  obtain ⟨r, hr⟩ : ∃ r, w = r ++ trailingWord w := by
    unfold trailingWord
    rw [Text.trimRight_eq hsolid.trimmed.last]
    exact ⟨_, (dropTrailing_append_takeTrailing _ _).symm⟩
  have htake : ∀ s : Text, (s ++ w).take ((s ++ w).length - (trailingWord w).length) = s ++ r := by
    intro s
    generalize trailingWord w = name at hr
    rw [hr, ← List.append_assoc, List.length_append, Nat.add_sub_cancel, List.take_left]
  rw [hr] at hstarts hstarts'
  have hrest := hstarts.tokens_append_congr hstarts' hfront
  have hpart : ∀ {s : Text}, '/' ∉ s ++ w → '/' ∉ s ++ r := by
    intro s hs hmem
    rw [hr, ← List.append_assoc] at hs
    exact hs (List.mem_append_left _ hmem)
  rw [hword, hword', htake, htake]
  refine ⟨rfl, ?_⟩
  rw [tidy_eq_tidyPlain (hpart hslash), tidy_eq_tidyPlain (hpart hslash'),
    tidyPlain_of_tokens hrest]

/-- Heads with the same tokens of which the same are taken out are read alike. -/
theorem Declaration.read_of_labels (hlabels : labels head = labels head')
    (hslash : '/' ∉ stripAttributes head) (params : Text) (location : Location)
    (doc : Option Text) :
    Declaration.read location head params doc = Declaration.read location head' params doc := by
  have hparts : tokens (typeAndName head) = tokens (typeAndName head') := by
    rw [tokens_typeAndName, tokens_typeAndName, hlabels]
  have hnone : '/' ∉ typeAndName head := mt slash_mem_of_typeAndName hslash
  obtain ⟨hname, htype⟩ := tidy_take_of_tokens (singleSpaced_typeAndName head)
    (singleSpaced_typeAndName head') hparts hnone
  rw [hname] at htype
  -- The words of calling conventions are special, and these are the same.
  have hconvention : ∀ head : Text,
      ((Text.words (stripAttributes head)).filter (String.ofList · ∉ linkageWords)).filter
          isConventionWord =
        ((((labels head).filter (·.2)).map Prod.fst).filter (String.ofList · ∉ linkageWords)).filter
          isConventionWord := by
    intro head
    unfold labels
    rw [(filter_labelled _).1, List.filter_filter, List.filter_filter, List.filter_filter]
    refine List.filter_congr fun w _ => ?_
    unfold isSpecial
    cases isConventionWord w <;> simp
  unfold typeAndName at hname htype
  unfold Declaration.read
  simp only [hname, htype, hconvention, hlabels]

/-- The characters of a head are those of its special words and those of the return type and the
name. -/
theorem length_tokens_eq (head : Text) :
    (tokens (stripAttributes head)).flatten.length =
      ((Text.words (stripAttributes head)).filter isSpecial).flatten.length +
        ((typeAndName head).filter (!isBlank ·)).length := by
  have hparts := (List.filter_append_perm isSpecial
    (Text.words (stripAttributes head))).flatten.length_eq
  rw [List.flatten_append, List.length_append, ← words_typeAndName, Text.flatten_words,
    Text.flatten_words] at hparts
  rw [flatten_tokens, ← hparts]

/-- Where a declaration is read, its return type and its name have the characters that the head has
for them. -/
theorem Declaration.length_typeAndName (hslash : '/' ∉ stripAttributes head)
    (h : Declaration.read location head params doc = .ok d) :
    ((typeAndName head).filter (!isBlank ·)).length =
      (d.returnType.toList.filter (!isBlank ·)).length + d.name.toList.length := by
  obtain ⟨type, name, hsplit, hident, hname, htype, -⟩ := Declaration.read_ok h
  have hnone : '/' ∉ type := fun hmem =>
    hslash (slash_mem_of_typeAndName (by rw [hsplit]; exact List.mem_append_left _ hmem))
  have hkept := (allIdent_of_isIdentifier hident).2.solid.filter_eq
  rw [hname, htype, String.toList_ofList, String.toList_ofList, tidy_eq_tidyPlain hnone,
    filter_tidyPlain, hsplit, List.filter_append, List.length_append, hkept]

/-- A declaration that is read from a head in which the special words have blanks around them is
read from a head with the same tokens exactly when they have there, too. -/
theorem Declaration.read_eq_iff_loose
    (htokens : tokens (stripAttributes head) = tokens (stripAttributes head'))
    (hslash : '/' ∉ stripAttributes head) (h : Loose head)
    (hread : Declaration.read location head params doc = .ok d) :
    Declaration.read location head' params doc = .ok d ↔ Loose head' := by
  refine ⟨fun hread' => ?_, fun h' => ?_⟩
  · have hslash' : '/' ∉ stripAttributes head' := by
      rwa [← mem_congr_of_tokens htokens (by decide)]
    -- No character is left for a special token in the return type or the name.
    have hlength := Declaration.length_typeAndName hslash hread
    have hlength' := Declaration.length_typeAndName hslash' hread'
    have hall := length_tokens_eq head
    have hall' := length_tokens_eq head'
    rw [htokens] at hall
    refine (apart_of_length _).2 ?_
    rw [← tokens_eq_flatMap_words, ← htokens, tokens_eq_flatMap_words, h.filter_tokens]
    omega
  · rw [← Declaration.read_of_labels ((h.labels_eq_iff htokens).2 h') hslash, hread]

end Head

end NativeBindings
