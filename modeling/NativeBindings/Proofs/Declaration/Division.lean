import NativeBindings.Declaration.Head
import NativeBindings.Proofs.Declaration.Level

/-!
# How a list of parameters is divided

A list that is written in two parts is divided as its parts are, but that the piece around the seam
is one piece (`splitTopLevelAt_append`). So the pieces of a list are exactly its texts between
commas when each of them but the last is level (`splitTopLevel_intercalate_iff`). Blanks neither
divide nor nest, so a list is divided between the same words when its blanks are collapsed
(`map_words_collapse`), and its parameters depend on the words of the pieces only
(`readParameters_eq_words`).
-/

namespace NativeBindings

variable {depth : Int} {t u : Text}

/-! ## Pieces of a text in two parts -/

/-- How a text changes the depth of nesting. -/
def netNesting (t : Text) : Int := t.foldr (fun c change => nesting c + change) 0

@[simp] theorem netNesting_nil : netNesting [] = 0 := rfl

@[simp] theorem netNesting_cons (c : Char) (t : Text) :
    netNesting (c :: t) = nesting c + netNesting t := rfl

@[simp] theorem netNesting_append (t u : Text) :
    netNesting (t ++ u) = netNesting t + netNesting u := by
  induction t with
  | nil => simp
  | cons c t ih => rw [List.cons_append, netNesting_cons, netNesting_cons, ih, Int.add_assoc]

theorem splitTopLevelAt_ne_nil (depth : Int) (t : Text) : splitTopLevelAt depth t ≠ [] := by
  induction t generalizing depth with
  | nil => simp [splitTopLevelAt]
  | cons c t ih =>
    unfold splitTopLevelAt
    split
    · simp
    · obtain ⟨piece, pieces, hpieces⟩ := List.exists_cons_of_ne_nil (ih (depth + nesting c))
      rw [hpieces]
      simp

/-- A character that does not divide goes to the first piece. -/
theorem splitTopLevelAt_cons {c : Char} (hc : c = ',' → depth ≠ 0) (t : Text) :
    splitTopLevelAt depth (c :: t) =
      (splitTopLevelAt (depth + nesting c) t).modifyHead (c :: ·) := by
  rw [splitTopLevelAt, if_neg fun hand => hc hand.1 hand.2]

/-- Pieces behind others, where the last piece of the first ones goes on with the first piece of the
others. -/
def glue {α : Type} : List (List α) → List (List α) → List (List α)
  | [], ys => ys
  | [x], ys => ys.modifyHead (x ++ ·)
  | x :: x' :: xs, ys => x :: glue (x' :: xs) ys

theorem glue_cons {α : Type} {xs : List (List α)} (hxs : xs ≠ []) (x : List α)
    (ys : List (List α)) : glue (x :: xs) ys = x :: glue xs ys := by
  obtain ⟨x', xs, rfl⟩ := List.exists_cons_of_ne_nil hxs
  rfl

/-- Nothing behind the pieces. -/
theorem glue_nil {α : Type} {xs : List (List α)} (hxs : xs ≠ []) : glue xs [[]] = xs := by
  induction xs with
  | nil => exact absurd rfl hxs
  | cons x xs ih =>
    cases xs with
    | nil => simp [glue]
    | cons x' xs => rw [glue_cons (by simp), ih (by simp)]

theorem modifyHead_glue (x : Char) {xs : List Text} (hxs : xs ≠ []) (ys : List Text) :
    (glue xs ys).modifyHead (x :: ·) = glue (xs.modifyHead (x :: ·)) ys := by
  match xs, hxs with
  | [y], _ =>
    unfold glue
    rw [List.modifyHead_modifyHead]
    rfl
  | y :: y' :: xs, _ => rfl

/-- A text in two parts is divided as the parts are, the second from the depth at the end of the
first. -/
theorem splitTopLevelAt_append (depth : Int) (t u : Text) :
    splitTopLevelAt depth (t ++ u) =
      glue (splitTopLevelAt depth t) (splitTopLevelAt (depth + netNesting t) u) := by
  induction t generalizing depth with
  | nil =>
    rw [List.nil_append, netNesting_nil, Int.add_zero]
    obtain ⟨piece, pieces, hpieces⟩ := List.exists_cons_of_ne_nil (splitTopLevelAt_ne_nil depth u)
    rw [hpieces]
    rfl
  | cons c t ih =>
    by_cases hc : c = ',' ∧ depth = 0
    · obtain ⟨rfl, rfl⟩ := hc
      have hcomma : nesting ',' = 0 := by decide
      rw [List.cons_append, splitTopLevelAt, if_pos ⟨rfl, rfl⟩, splitTopLevelAt,
        if_pos ⟨rfl, rfl⟩, glue_cons (splitTopLevelAt_ne_nil 0 t), ih, netNesting_cons, hcomma,
        Int.zero_add, Int.zero_add]
    · have hkeep : c = ',' → depth ≠ 0 := fun hcomma hdepth => hc ⟨hcomma, hdepth⟩
      rw [List.cons_append, splitTopLevelAt_cons hkeep, splitTopLevelAt_cons hkeep, ih,
        modifyHead_glue c (splitTopLevelAt_ne_nil _ t), netNesting_cons, Int.add_assoc]

/-- Between the pieces stand commas. -/
theorem intercalate_splitTopLevelAt (depth : Int) (t : Text) :
    [','].intercalate (splitTopLevelAt depth t) = t := by
  induction t generalizing depth with
  | nil => rfl
  | cons c t ih =>
    by_cases hc : c = ',' ∧ depth = 0
    · obtain ⟨rfl, rfl⟩ := hc
      rw [splitTopLevelAt, if_pos ⟨rfl, rfl⟩,
        List.intercalate_cons_of_ne_nil (splitTopLevelAt_ne_nil 0 t), ih]
      rfl
    · -- The character goes to the first piece of the rest.
      have hrest := ih (depth + nesting c)
      rw [splitTopLevelAt_cons fun hcomma hdepth => hc ⟨hcomma, hdepth⟩]
      obtain ⟨piece, pieces, hpieces⟩ :=
        List.exists_cons_of_ne_nil (splitTopLevelAt_ne_nil (depth + nesting c) t)
      rw [hpieces] at hrest ⊢
      rw [List.modifyHead_cons]
      cases pieces with
      | nil =>
        rw [List.intercalate_singleton] at hrest ⊢
        rw [hrest]
      | cons piece' pieces =>
        rw [List.intercalate_cons_cons] at hrest ⊢
        rw [← hrest]
        simp

/-- The one piece of a text that is not divided is the text. -/
theorem eq_of_splitTopLevelAt {piece : Text} (h : splitTopLevelAt depth t = [piece]) :
    piece = t := by
  have hjoined := intercalate_splitTopLevelAt depth t
  rwa [h, List.intercalate_singleton] at hjoined

/-- A text is level at depth zero when it is not divided and its brackets balance. -/
theorem level_zero_iff : Level 0 t ↔ splitTopLevel t = [t] ∧ netNesting t = 0 := by
  unfold splitTopLevel
  constructor
  · intro h
    have hwhole := h []
    rw [List.append_nil, splitTopLevelAt, List.modifyHead_cons, List.append_nil] at hwhole
    refine ⟨hwhole, ?_⟩
    -- A comma behind the text divides, so the depth there is zero.
    have hcomma := h [',']
    rw [splitTopLevelAt_append, hwhole] at hcomma
    by_contra hdepth
    rw [splitTopLevelAt_cons (by simpa using hdepth)] at hcomma
    simp [glue, splitTopLevelAt] at hcomma
  · rintro ⟨hwhole, hnet⟩ rest
    rw [splitTopLevelAt_append, hwhole, hnet]
    rfl

instance (t : Text) : Decidable (Level 0 t) := decidable_of_iff _ level_zero_iff.symm

/-- Behind a level text a text is divided as it is alone. -/
theorem Level.undivided_append_iff (ht : Level 0 t) :
    splitTopLevel (t ++ u) = [t ++ u] ↔ splitTopLevel u = [u] := by
  obtain ⟨piece, pieces, hpieces⟩ := List.exists_cons_of_ne_nil (splitTopLevelAt_ne_nil 0 u)
  unfold splitTopLevel
  rw [ht, hpieces, List.modifyHead_cons]
  simp

/-- Behind a level text a text is level when it is so alone. -/
theorem Level.level_append_iff (ht : Level 0 t) : Level 0 (t ++ u) ↔ Level 0 u := by
  rw [level_zero_iff, level_zero_iff, ht.undivided_append_iff, netNesting_append,
    (level_zero_iff.1 ht).2, Int.zero_add]

/-- A comma behind a text parts it from the rest exactly when the text is level. -/
theorem splitTopLevel_comma_iff {ts : List Text} :
    splitTopLevel (t ++ ',' :: u) = t :: ts ↔ Level 0 t ∧ splitTopLevel u = ts := by
  constructor
  · intro h
    unfold splitTopLevel at h
    rw [splitTopLevelAt_append] at h
    obtain ⟨piece, pieces, hpieces⟩ := List.exists_cons_of_ne_nil (splitTopLevelAt_ne_nil 0 t)
    cases pieces with
    | nil =>
      obtain rfl := eq_of_splitTopLevelAt hpieces
      by_cases hnet : netNesting piece = 0
      · have hlevel : Level 0 piece := level_zero_iff.2 ⟨hpieces, hnet⟩
        rw [hpieces, hnet, Int.add_zero, splitTopLevelAt, if_pos ⟨rfl, rfl⟩] at h
        simp only [glue, List.modifyHead_cons, List.append_nil, List.cons.injEq, true_and] at h
        exact ⟨hlevel, h⟩
      · -- The comma does not part, so the first piece is longer than the text.
        rw [hpieces, splitTopLevelAt_cons (by simpa using hnet)] at h
        obtain ⟨piece', pieces', hpieces'⟩ := List.exists_cons_of_ne_nil
          (splitTopLevelAt_ne_nil (0 + netNesting piece + nesting ',') u)
        rw [hpieces'] at h
        simp [glue] at h
    | cons piece' pieces =>
      -- The text itself is divided, so its first piece is shorter.
      have hjoined := intercalate_splitTopLevelAt 0 t
      rw [hpieces, glue_cons (by simp)] at h
      rw [hpieces, (List.cons.inj h).1, List.intercalate_cons_cons] at hjoined
      simp at hjoined
  · rintro ⟨hlevel, rfl⟩
    unfold splitTopLevel
    rw [hlevel, splitTopLevelAt, if_pos ⟨rfl, rfl⟩, List.modifyHead_cons, List.append_nil]

/-- Texts between commas are the pieces exactly when those in front of a comma are level and the
last one is not divided. -/
theorem splitTopLevel_intercalate_iff {ts : List Text} (hne : ts ≠ []) :
    splitTopLevel ([','].intercalate ts) = ts ↔
      (∀ t ∈ ts.dropLast, Level 0 t) ∧ ∀ t ∈ ts.getLast?, splitTopLevel t = [t] := by
  induction ts with
  | nil => exact absurd rfl hne
  | cons t ts ih =>
    cases ts with
    | nil => simp
    | cons s ts =>
      rw [List.intercalate_cons_cons, List.append_assoc, List.singleton_append,
        splitTopLevel_comma_iff, ih (by simp), List.dropLast_cons_cons, List.forall_mem_cons,
        List.getLast?_cons_cons, and_assoc]

/-! ## Blanks -/

/-- No blank is a bracket or a comma. -/
theorem nesting_of_isBlank {c : Char} (hc : isBlank c) : nesting c = 0 ∧ c ≠ ',' := by
  have hne : ∀ d : Char, isBlank d = false → c ≠ d := by
    rintro d hd rfl
    rw [hd] at hc
    cases hc
  refine ⟨?_, hne ',' (by decide)⟩
  unfold nesting
  simp [hne '(' (by decide), hne '<' (by decide), hne '[' (by decide), hne ')' (by decide),
    hne '>' (by decide), hne ']' (by decide)]

/-- A blank neither divides nor nests. -/
theorem splitTopLevelAt_blank {c : Char} (hc : isBlank c) (depth : Int) (t : Text) :
    splitTopLevelAt depth (c :: t) = (splitTopLevelAt depth t).modifyHead (c :: ·) := by
  obtain ⟨hnesting, hcomma⟩ := nesting_of_isBlank hc
  rw [splitTopLevelAt_cons fun heq => absurd heq hcomma, hnesting, Int.add_zero]

/-- A text with its blanks collapsed changes the depth as it does. -/
theorem netNesting_collapse (t : Text) : netNesting t.collapse = netNesting t := by
  have hfilter : ∀ t : Text, netNesting (t.filter (!isBlank ·)) = netNesting t := by
    intro t
    induction t with
    | nil => rfl
    | cons c t ih =>
      cases hc : isBlank c with
      | true =>
        rw [List.filter_cons_of_neg (by simp [hc]), ih, netNesting_cons,
          (nesting_of_isBlank hc).1, Int.zero_add]
      | false => rw [List.filter_cons_of_pos (by simp [hc]), netNesting_cons, netNesting_cons, ih]
  rw [← hfilter, Text.filter_collapse, hfilter]

/-- Words do not go on behind a blank, so those of the pieces are put together as the pieces are. -/
theorem map_words_glue {c : Char} (hc : isBlank c) {xs ys : List Text} (hys : ys ≠ []) :
    (glue xs (ys.modifyHead (c :: ·))).map Text.words =
      glue (xs.map Text.words) (ys.map Text.words) := by
  obtain ⟨y, ys, rfl⟩ := List.exists_cons_of_ne_nil hys
  rw [List.modifyHead_cons]
  induction xs with
  | nil => simp [glue, Text.words_cons_blank hc]
  | cons x xs ih =>
    cases xs with
    | nil => simp [glue, Text.words_append_blank hc]
    | cons x' xs =>
      rw [glue_cons (List.cons_ne_nil x' xs), List.map_cons, ih]
      rfl

/-- The words of the pieces on the two sides of a blank. -/
theorem map_words_blank {c : Char} (hc : isBlank c) (depth : Int) (t u : Text) :
    (splitTopLevelAt depth (t ++ c :: u)).map Text.words =
      glue ((splitTopLevelAt depth t).map Text.words)
        ((splitTopLevelAt (depth + netNesting t) u).map Text.words) := by
  rw [splitTopLevelAt_append, splitTopLevelAt_blank hc,
    map_words_glue hc (splitTopLevelAt_ne_nil _ u)]

/-- A list with its blanks collapsed is divided between the same words. -/
theorem map_words_collapse (depth : Int) (t : Text) :
    (splitTopLevelAt depth t.collapse).map Text.words =
      (splitTopLevelAt depth t).map Text.words := by
  induction hn : t.length using Nat.strongRecOn generalizing depth t with
  | ind n ih =>
    -- The text up to its first blank, and the rest behind it.
    by_cases hsolid : Text.Solid t
    · rw [(Text.SingleSpaced.of_solid hsolid).collapse_eq]
    · obtain ⟨w, c, rest, rfl, hw, hc⟩ := Text.exists_eq_append_blank hsolid
      have hshorter : rest.length < n := by
        rw [← hn, List.length_append, List.length_cons]
        omega
      have hrest := ih rest.length hshorter (depth + netNesting w) rest rfl
      have hfirst : Text.words w = [w] ∨ w = [] := by
        by_cases hempty : w = []
        · exact .inr hempty
        · exact .inl (Text.words_of_solid hempty hw)
      have hne : (splitTopLevelAt depth w).map Text.words ≠ [] := by
        simpa using splitTopLevelAt_ne_nil depth w
      rw [map_words_blank hc, ← hrest]
      unfold Text.collapse
      rw [Text.words_append_blank hc]
      rcases hfirst with hword | rfl
      · by_cases hnone : Text.words rest = []
        · -- Behind the first word there are blanks only.
          have hempty : (splitTopLevelAt (depth + netNesting w) []).map Text.words = [[]] := rfl
          rw [hword, hnone, List.append_nil, Text.unwords_singleton, Text.unwords_nil, hempty,
            glue_nil hne]
        · rw [hword, List.singleton_append, Text.unwords_cons hnone, map_words_blank (by decide)]
      · -- The text starts with the blank.
        have hempty : (splitTopLevelAt depth []).map Text.words = [[]] := rfl
        obtain ⟨piece, pieces, hpieces⟩ := List.exists_cons_of_ne_nil
          (splitTopLevelAt_ne_nil depth (Text.unwords (Text.words rest)))
        rw [Text.words_nil, List.nil_append, hempty, netNesting_nil, Int.add_zero, hpieces]
        rfl

/-! ## Parameters -/

/-- A piece of a list without further blanks is collapsed when its ends are trimmed. -/
theorem trim_eq_collapse {piece : Text} (h : piece ∈ splitTopLevelAt depth t.collapse) :
    piece.trim = piece.collapse := by
  have hpart : piece <:+: t.collapse := by
    have hinfix : piece <:+: [','].intercalate (splitTopLevelAt depth t.collapse) :=
      Text.infix_intercalate h
    rwa [intercalate_splitTopLevelAt] at hinfix
  have hchain : t.collapse.IsChain Text.MayFollow := (Text.singleSpaced_collapse t).chain
  have hspaced : Text.SingleSpaced piece.trim := Text.singleSpaced_trim <| hchain.infix hpart
  rw [← hspaced.collapse_eq, Text.collapse_trim]

/-- The parameter that some words declare. -/
def readWords (function : String) (words : List Text) : Except Defect Parameter :=
  readParameter function (Text.unwords words)

/-- Functions that agree on the elements of a list give the same along it. -/
theorem mapM_congr {α β ε : Type} {f g : α → Except ε β} {xs : List α}
    (h : ∀ x ∈ xs, f x = g x) : xs.mapM f = xs.mapM g := by
  induction xs with
  | nil => rfl
  | cons x xs ih =>
    obtain ⟨hx, hxs⟩ := List.forall_mem_cons.1 h
    rw [List.mapM_cons, List.mapM_cons, hx, ih hxs]

/-- The parameters of a list depend on the words of its pieces only. -/
theorem readParameters_eq_words (function : String) (params : Text) :
    readParameters function params =
      if params.collapse = [] ∨ params.collapse = "void".toList then .ok []
      else ((splitTopLevel params).map Text.words).mapM (readWords function) := by
  have hpieces : ∀ piece ∈ splitTopLevel params.collapse,
      readParameter function piece = readWords function piece.words := by
    intro piece hpiece
    have htrim := trim_eq_collapse hpiece
    unfold readWords readParameter
    rw [show Text.unwords piece.words = piece.collapse from rfl, htrim,
      (Text.singleSpaced_collapse piece).trim_eq]
  have hwords : (splitTopLevel params).map Text.words =
      (splitTopLevel params.collapse).map Text.words := (map_words_collapse 0 params).symm
  have hread : (splitTopLevel params.collapse).mapM (readParameter function) =
      ((splitTopLevel params.collapse).map Text.words).mapM (readWords function) := by
    rw [List.mapM_map]
    exact mapM_congr hpieces
  unfold readParameters
  rw [hwords, ← hread]
  simp only [Bool.or_eq_true, List.isEmpty_iff, decide_eq_true_eq]

end NativeBindings
