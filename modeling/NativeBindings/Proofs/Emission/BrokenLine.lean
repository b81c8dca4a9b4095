import NativeBindings.Proofs.Emission.Listing
import NativeBindings.Proofs.Emission.Literal

/-!
# Lines of the generated language

The generated language ends a line at more characters than the line feed, and the emitter writes
what it is given into a line as it is. So a line of the generated file can be several lines of the
language, and one of these can be a declaration that stands for no function (`strayDeclarations`).
The file declares what it lists and the stray declarations of its lines, and nothing else
(`length_declaringLines_render`).
-/

namespace NativeBindings.Emission

open StringLiteral (isLineBreak)

/-! ## Broken lines -/

/-- The lines that the generated language divides a text into. A carriage return and a line feed
behind it end one line together; behind the last end there is one more line. -/
def brokenLines : Text → List Text
  | [] => [[]]
  | '\r' :: '\n' :: cs => [] :: brokenLines cs
  | c :: cs => if isLineBreak c then [] :: brokenLines cs else Text.consToFirst c (brokenLines cs)

theorem brokenLines_ne_nil (t : Text) : brokenLines t ≠ [] := by
  fun_induction brokenLines t with
  | case1 => simp
  | case2 cs ih => simp
  | case3 c cs hpair hbreak ih => simp
  | case4 c cs hpair hbreak ih =>
    unfold Text.consToFirst
    split <;> simp

/-- A text is one line exactly when no line ends in it. -/
theorem brokenLines_eq_singleton_iff (t : Text) :
    brokenLines t = [t] ↔ ∀ c ∈ t, isLineBreak c = false := by
  fun_induction brokenLines t with
  | case1 => simp
  | case2 cs ih => simp [isLineBreak]
  | case3 c cs hpair hbreak ih => simp [hbreak]
  | case4 c cs hpair hbreak ih =>
    have hcons : Text.consToFirst c (brokenLines cs) = [c :: cs] ↔ brokenLines cs = [cs] := by
      obtain ⟨first, rest, hlines⟩ := List.exists_cons_of_ne_nil (brokenLines_ne_nil cs)
      rw [hlines]
      simp [Text.consToFirst]
    rw [hcons, ih, List.forall_mem_cons]
    simp [hbreak]

/-- The lines of a text that starts with a character of a line by itself, or with an end of a line
by itself. -/
theorem brokenLines_cons {c : Char} {cs : Text} (h : c = '\r' → cs.head? ≠ some '\n') :
    brokenLines (c :: cs) =
      if isLineBreak c then [] :: brokenLines cs else Text.consToFirst c (brokenLines cs) := by
  refine brokenLines.eq_3 c cs fun ds hc hcs => h hc ?_
  rw [hcs, List.head?_cons]

/-- What is in front of a line feed has the same lines there as by itself. Only when it ends with a
carriage return, which ends its line together with the line feed, the empty line behind it is
missing. -/
theorem exists_brokenLines_append (l t : Text) : ∃ ls, ls ≠ [] ∧
    brokenLines (l ++ '\n' :: t) = ls ++ brokenLines t ∧
      (brokenLines l = ls ∨ brokenLines l = ls ++ [[]]) := by
  fun_induction brokenLines l with
  | case1 => exact ⟨[[]], by simp, rfl, .inl rfl⟩
  | case2 cs ih =>
    obtain ⟨ls, -, happend, hlines⟩ := ih
    refine ⟨[] :: ls, by simp, ?_, hlines.imp (congrArg ([] :: ·)) (congrArg ([] :: ·))⟩
    rw [List.cons_append, List.cons_append, brokenLines, happend, List.cons_append]
  | case3 c cs hpair hbreak ih =>
    -- A carriage return at the end is the one that the line feed belongs to.
    by_cases hlast : c = '\r' ∧ cs = []
    · obtain ⟨rfl, rfl⟩ := hlast
      exact ⟨[[]], by simp, rfl, .inr rfl⟩
    · obtain ⟨ls, -, happend, hlines⟩ := ih
      refine ⟨[] :: ls, by simp, ?_, hlines.imp (congrArg ([] :: ·)) (congrArg ([] :: ·))⟩
      -- Another carriage return stands in front of no line feed, here as by itself.
      have hnext : c = '\r' → (cs ++ '\n' :: t).head? ≠ some '\n' := by
        rintro rfl hhead
        cases cs with
        | nil => exact hlast ⟨rfl, rfl⟩
        | cons d ds =>
          obtain rfl : d = '\n' := Option.some.inj hhead
          exact hpair ds rfl rfl
      rw [List.cons_append, brokenLines_cons hnext, if_pos hbreak, happend, List.cons_append]
  | case4 c cs hpair hbreak ih =>
    obtain ⟨ls, hne, happend, hlines⟩ := ih
    obtain ⟨first, rest, rfl⟩ := List.exists_cons_of_ne_nil hne
    have hnext : c = '\r' → (cs ++ '\n' :: t).head? ≠ some '\n' := by
      rintro rfl
      exact absurd rfl hbreak
    refine ⟨(c :: first) :: rest, by simp, ?_, ?_⟩
    · rw [List.cons_append, brokenLines_cons hnext, if_neg hbreak, happend]
      rfl
    · exact hlines.imp (congrArg (Text.consToFirst c)) (congrArg (Text.consToFirst c))

/-- A text without a line break in front goes to the first line. -/
theorem brokenLines_append {p : Text} (h : ∀ c ∈ p, isLineBreak c = false) (t : Text) :
    ∃ first rest, brokenLines t = first :: rest ∧ brokenLines (p ++ t) = (p ++ first) :: rest := by
  induction p with
  | nil =>
    obtain ⟨first, rest, hlines⟩ := List.exists_cons_of_ne_nil (brokenLines_ne_nil t)
    exact ⟨first, rest, hlines, hlines⟩
  | cons c p ih =>
    obtain ⟨hc, hp⟩ := List.forall_mem_cons.1 h
    obtain ⟨first, rest, hlines, happend⟩ := ih hp
    refine ⟨first, rest, hlines, ?_⟩
    have hnext : c = '\r' → (p ++ t).head? ≠ some '\n' := by
      rintro rfl
      exact absurd hc (by decide)
    rw [List.cons_append, brokenLines_cons hnext, if_neg (by rw [hc]; decide), happend]
    rfl

/-- The first line of a text starts it. -/
theorem exists_brokenLines_eq (t : Text) :
    ∃ first rest, brokenLines t = first :: rest ∧ first <+: t := by
  fun_induction brokenLines t with
  | case1 => exact ⟨[], [], rfl, List.prefix_rfl⟩
  | case2 cs ih => exact ⟨[], _, rfl, List.nil_prefix⟩
  | case3 c cs hpair hbreak ih => exact ⟨[], _, rfl, List.nil_prefix⟩
  | case4 c cs hpair hbreak ih =>
    obtain ⟨first, rest, hlines, hfirst⟩ := ih
    rw [hlines]
    exact ⟨c :: first, rest, rfl, List.cons_prefix_cons.2 ⟨rfl, hfirst⟩⟩

/-- Indentation adds spaces to a line. -/
theorem mem_indented {depth : Nat} {line : String} {c : Char} :
    c ∈ (indented depth line).toList ↔ (c = ' ' ∧ depth ≠ 0) ∨ c ∈ line.toList := by
  unfold indented
  rw [String.toList_append, List.mem_append]
  refine or_congr_left ?_
  induction depth with
  | zero => simp
  | succ depth ih =>
    rw [List.replicate_succ, String.join_cons, String.toList_append, List.mem_append, ih]
    have hspaces : c ∈ "  ".toList ↔ c = ' ' := by simp
    rw [hspaces]
    tauto

/-! ## Declarations in a text -/

/-- The lines of a text that begin like the declaration of a function. -/
def declaringLines (text : String) : List String :=
  ((brokenLines text.toList).map String.ofList).filter declares

/-- What a line of the file declares behind the first line break in it. -/
def strayDeclarations (line : String) : List String :=
  ((brokenLines line.toList).tail.map String.ofList).filter declares

/-- Ended lines declare what each of them declares. -/
theorem declaringLines_join (lines : List String) :
    declaringLines (String.join (lines.map (· ++ "\n"))) = lines.flatMap declaringLines := by
  have hempty : (([[]] : List Text).map String.ofList).filter declares = [] := by decide
  induction lines with
  | nil => exact hempty
  | cons line lines ih =>
    obtain ⟨ls, -, happend, hlines⟩ := exists_brokenLines_append line.toList
      (String.join (lines.map (· ++ "\n"))).toList
    -- The break at the end of a line may leave an empty line, which declares nothing.
    have hline : declaringLines line = (ls.map String.ofList).filter declares := by
      unfold declaringLines
      rcases hlines with hlines | hlines <;> rw [hlines]
      rw [List.map_append, List.filter_append, hempty, List.append_nil]
    have htext : (String.join ((line :: lines).map (· ++ "\n"))).toList =
        line.toList ++ '\n' :: (String.join (lines.map (· ++ "\n"))).toList := by
      simp
    rw [List.flatMap_cons, ← ih, hline]
    unfold declaringLines
    rw [htext, happend, List.map_append, List.filter_append]

/-- What begins like a declaration does so whatever follows. -/
theorem declares_of_prefix {first line : Text} (hstarts : first <+: line)
    (h : declares (String.ofList first)) : declares (String.ofList line) := by
  obtain ⟨rest, rfl⟩ := hstarts
  unfold declares at h ⊢
  rw [String.toList_ofList, List.isPrefixOf_iff_prefix] at h ⊢
  unfold Text.trimLeft at h ⊢
  have hne : (first.dropWhile isBlank).isEmpty = false := by
    rw [List.isEmpty_eq_false_iff]
    intro hnil
    rw [hnil, List.prefix_nil] at h
    exact absurd h (by decide)
  rw [List.dropWhile_append, if_neg (by rw [hne]; decide)]
  exact h.trans (List.prefix_append _ _)

/-- A line that does not begin like a declaration has stray declarations only. -/
theorem declaringLines_of_not_declares {line : String} (h : ¬declares line) :
    declaringLines line = strayDeclarations line := by
  obtain ⟨first, rest, hlines, hfirst⟩ := exists_brokenLines_eq line.toList
  have hnot : ¬declares (String.ofList first) := fun hdeclares =>
    h (String.ofList_toList (s := line) ▸ declares_of_prefix hfirst hdeclares)
  unfold declaringLines strayDeclarations
  rw [hlines, List.map_cons, List.filter_cons_of_neg hnot, List.tail_cons]

/-- The line of a declaration declares the function, and then what is stray. -/
theorem length_declaringLines_externLine (depth : Nat) (s : Signature) :
    (declaringLines (indented depth (externLine s))).length =
      1 + (strayDeclarations (indented depth (externLine s))).length := by
  obtain ⟨rest, hrest⟩ : ∃ rest, externLine s = "internal static extern " ++ rest := by
    unfold externLine
    simp only [String.append_assoc]
    exact ⟨_, rfl⟩
  have hline : (indented depth (externLine s)).toList =
      (indented depth "internal static extern ").toList ++ rest.toList := by
    rw [hrest, ← String.toList_append]
    unfold indented
    rw [String.append_assoc]
  -- No line ends in front of the return type, so the first line starts with the words of a
  -- declaration.
  have hword : ∀ c ∈ "internal static extern ".toList, isLineBreak c = false := by
    simp [isLineBreak]
  have hclean : ∀ c ∈ (indented depth "internal static extern ").toList,
      isLineBreak c = false := by
    intro c hc
    rcases mem_indented.1 hc with ⟨rfl, -⟩ | hc
    · rfl
    · exact hword c hc
  have hstart : declares (indented depth "internal static extern ") := by
    rw [declares_indented]
    decide
  obtain ⟨first, later, -, hlines⟩ := brokenLines_append hclean rest.toList
  have hdeclares : declares (String.ofList
      ((indented depth "internal static extern ").toList ++ first)) := by
    refine declares_of_prefix (List.prefix_append _ _) ?_
    rwa [String.ofList_toList]
  unfold declaringLines strayDeclarations
  rw [hline, hlines, List.map_cons, List.filter_cons_of_pos hdeclares, List.length_cons,
    List.tail_cons, Nat.add_comm]

/-- The generated file declares the functions that it lists, and what is stray in its lines. -/
theorem length_declaringLines_render (o : Options) (c : Catalogue) :
    (declaringLines (render o c)).length =
      ((fileLines o c).filter declares).length +
        ((fileLines o c).flatMap strayDeclarations).length := by
  have hextern : ∀ line ∈ fileLines o c, declares line →
      ∃ s, line = indented (level o) (externLine s) := by
    intro line hline hdeclares
    have hmem := List.mem_filter.2 ⟨hline, hdeclares⟩
    rw [filter_declares_fileLines] at hmem
    obtain ⟨s, -, rfl⟩ := List.mem_map.1 hmem
    exact ⟨s, rfl⟩
  unfold render
  rw [declaringLines_join]
  generalize fileLines o c = lines at hextern ⊢
  -- Each line declares at most one function, in front of what is stray.
  induction lines with
  | nil => rfl
  | cons line lines ih =>
    obtain ⟨hline, hlines⟩ := List.forall_mem_cons.1 hextern
    rw [List.flatMap_cons, List.flatMap_cons, List.length_append, List.length_append, ih hlines]
    by_cases hdeclares : declares line
    · obtain ⟨s, rfl⟩ := hline hdeclares
      rw [length_declaringLines_externLine, List.filter_cons_of_pos hdeclares, List.length_cons]
      omega
    · rw [declaringLines_of_not_declares hdeclares, List.filter_cons_of_neg hdeclares]
      omega

/-- Where no line ends inside a line of the file, the lines of the text are those of the file, and
nothing stands behind the last one. -/
theorem brokenLines_join {lines : List String}
    (h : ∀ line ∈ lines, ∀ c ∈ line.toList, isLineBreak c = false) :
    brokenLines (String.join (lines.map (· ++ "\n"))).toList = lines.map String.toList ++ [[]] := by
  induction lines with
  | nil => rfl
  | cons line lines ih =>
    obtain ⟨hline, hlines⟩ := List.forall_mem_cons.1 h
    obtain ⟨first, rest, hbreak, happend⟩ := brokenLines_append hline
      ('\n' :: (String.join (lines.map (· ++ "\n"))).toList)
    rw [brokenLines_cons (by simp), if_pos (by rfl)] at hbreak
    obtain ⟨rfl, rfl⟩ := List.cons.inj hbreak
    have htext : (String.join ((line :: lines).map (· ++ "\n"))).toList =
        line.toList ++ '\n' :: (String.join (lines.map (· ++ "\n"))).toList := by
      simp
    rw [htext, happend, ih hlines, List.append_nil]
    rfl

end NativeBindings.Emission
