import NativeBindings.Proofs.Catalogue.Groups
import NativeBindings.Proofs.Emission.Block
import NativeBindings.Proofs.Pass.Merge
import NativeBindings.Proofs.Scanner.Accounting

/-!
# What the generated file lists

Between its opening and closing lines the generated file has the groups of the catalogue
(`fileLines_eq`), and of all its lines only those that declare a function begin like a declaration
(`declares`). So the declarations can be read off the lines, and they are those of the entries,
group by group (`filter_declares_fileLines`). Groups put together what comes from one file. The
sources of a pass are files that are read one after another, so for them the order of the file is
the order in which the entries were added (`inRuns_signatures`).
-/

namespace NativeBindings.Emission

/-! ## Lines that declare -/

/-- What the declaration of a function begins with. -/
def declarationStart : Text := "internal static extern ".toList

/-- Whether a line, apart from its indentation, begins like the declaration of a function. -/
def declares (line : String) : Bool := declarationStart.isPrefixOf (Text.trimLeft line.toList)

/-- Indentation makes no difference. -/
@[simp] theorem declares_indented (depth : Nat) (line : String) :
    declares (indented depth line) = declares line := by
  unfold declares indented
  congr 1
  induction depth with
  | zero => simp
  | succ depth ih =>
    rw [List.replicate_succ, String.join_cons, String.append_assoc, String.toList_append]
    exact ih

/-- A line does not declare a function when it begins with a text that neither begins like a
declaration nor is part of such a beginning. -/
theorem declares_append {start : String} (rest : String)
    (h : Text.trimLeft start.toList = start.toList ∧ start.toList ≠ [] ∧
      ¬start.toList <+: declarationStart ∧ ¬declarationStart <+: start.toList) :
    declares (start ++ rest) = false := by
  obtain ⟨htrim, hne, hshort, hlong⟩ := h
  have hline : Text.trimLeft (start ++ rest).toList = start.toList ++ rest.toList := by
    rw [String.toList_append]
    unfold Text.trimLeft at htrim ⊢
    rw [List.dropWhile_append, htrim, if_neg (by simpa using hne)]
  unfold declares
  rw [hline, Bool.eq_false_iff]
  intro hprefix
  -- Of two beginnings of one text the shorter one begins the other.
  rcases List.prefix_or_prefix_of_prefix (List.isPrefixOf_iff_prefix.1 hprefix)
    (List.prefix_append start.toList rest.toList) with h | h
  · exact hlong h
  · exact hshort h

/-- Of the lines of a function only its declaration declares. -/
theorem filter_declares_functionBlock (o : Options) (depth : Nat) (s : Signature) :
    (functionBlock o depth s).filter declares = [indented depth (externLine s)] := by
  -- None of the other lines starts like a declaration: remarks, notes, the import and the
  -- attribute.
  have hdoc : ∀ doc, declares ("// " ++ doc) = false := fun doc =>
    declares_append doc (by decide)
  have hnote : ∀ slot t, declares (noteLine slot t) = false := fun slot t => by
    unfold noteLine
    simp only [String.append_assoc]
    exact declares_append _ (by decide)
  have himport : declares (importLine o s) = false := by
    unfold importLine
    simp only [String.append_assoc]
    exact declares_append _ (by decide)
  have hreturn : declares "[return: MarshalAs(UnmanagedType.U1)]" = false := by decide
  have hextern : declares (externLine s) = true := by
    unfold externLine declares
    simp only [String.append_assoc]
    rw [String.toList_append]
    rfl
  have hremarks : (remarks s).filter declares = [] := by
    refine List.filter_eq_nil_iff.2 fun line hline => ?_
    unfold remarks at hline
    rcases List.mem_append.1 hline with h | h
    · obtain ⟨doc, -, rfl⟩ := List.mem_map.1 h
      simp [hdoc]
    · obtain ⟨⟨slot, t⟩, -, rfl⟩ := List.mem_map.1 h
      simp [hnote]
  have hlines : (functionLines o s).filter declares = [externLine s] := by
    have hsplit : functionLines o s = remarks s ++ importLine o s ::
        ((if isBool s.returnType then ["[return: MarshalAs(UnmanagedType.U1)]"] else []) ++
          [externLine s]) := by
      unfold functionLines remarks
      simp only [List.append_assoc, List.cons_append, List.nil_append]
    rw [hsplit, List.filter_append, hremarks, List.filter_cons_of_neg (by simp [himport]),
      List.filter_append, List.filter_cons_of_pos hextern]
    split <;> simp [hreturn]
  have hindent : declares ∘ indented depth = declares := funext (declares_indented depth)
  unfold functionBlock
  rw [List.filter_append, List.filter_map, hindent, hlines]
  rfl

/-- Of the lines of a group those declare that declare its functions. -/
theorem filter_declares_groupLines (o : Options) (depth : Nat) (g : Path × List Signature) :
    (groupLines o depth g).filter declares = g.2.map fun e => indented depth (externLine e) := by
  have hbanner : declares (indented depth ("// " ++ g.1.displayName)) = false := by
    rw [declares_indented]
    exact declares_append _ (by decide)
  unfold groupLines
  rw [List.filter_cons_of_neg (by simp [hbanner]), List.filter_flatMap]
  simp only [filter_declares_functionBlock]
  exact List.map_eq_flatMap.symm

/-! ## The lines of the file -/

/-- The lines before the first group. -/
def openingLines (o : Options) : List String :=
  headerLines o ++
    match o.enclosing with
    | some name => ["namespace " ++ name, "\x7b",
        indented 1 ("internal partial class " ++ o.className), indented 1 "\x7b"]
    | none => [indented 0 ("internal partial class " ++ o.className), indented 0 "\x7b"]

/-- The lines behind the last group. -/
def closingLines (o : Options) : List String :=
  match o.enclosing with
  | some _ => [indented 1 "\x7d", "\x7d"]
  | none => [indented 0 "\x7d"]

/-- How far the functions are indented. -/
def level (o : Options) : Nat := if o.enclosing.isSome then 2 else 1

/-- The file is its opening lines, the groups with an empty line between neighbours, and its closing
lines. -/
theorem fileLines_eq (o : Options) (c : Catalogue) :
    fileLines o c = openingLines o ++ [""].intercalate (c.groups.map (groupLines o (level o))) ++
      closingLines o := by
  unfold fileLines openingLines closingLines classLines level
  cases o.enclosing with
  | some name => simp
  | none => simp

/-- The fourth line of the generated file names the library. -/
theorem exists_render_eq (o : Options) (c : Catalogue) : ∃ rest, render o c =
    "// <auto-generated>\n" ++ ("// Generated by methodgen from native export declarations.\n" ++
      ("// Do not edit by hand: changes are lost when the file is regenerated.\n" ++
        ("// Library: " ++ (o.library ++ ("\n" ++ rest))))) := by
  obtain ⟨lines, hlines⟩ : ∃ lines, fileLines o c = ["// <auto-generated>",
      "// Generated by methodgen from native export declarations.",
      "// Do not edit by hand: changes are lost when the file is regenerated.",
      "// Library: " ++ o.library] ++ lines := by
    unfold fileLines headerLines
    simp only [List.append_assoc, List.append_cancel_left_eq, exists_eq']
  refine ⟨String.join (lines.map (· ++ "\n")), ?_⟩
  unfold render
  rw [hlines]
  simp only [List.cons_append, List.nil_append, List.map_cons, String.join_cons,
    String.append_assoc]
  rfl

/-- The files for two libraries differ. -/
theorem library_eq_of_render_eq {o o' : Options} {c c' : Catalogue}
    (h : render o c = render o' c') (hline : '\n' ∉ o.library.toList)
    (hline' : '\n' ∉ o'.library.toList) : o.library = o'.library := by
  obtain ⟨rest, hrest⟩ := exists_render_eq o c
  obtain ⟨rest', hrest'⟩ := exists_render_eq o' c'
  rw [hrest, hrest'] at h
  simp only [← String.toList_inj, String.toList_append, List.append_cancel_left_eq] at h
  exact String.toList_inj.1 (eq_of_append_cons_eq hline hline' h).1

/-- Apart from its imports the header has remarks and empty lines. -/
theorem exists_headerLines_eq (o : Options) : ∃ remarks, headerLines o =
    remarks ++ ((usingNames o).map ("using " ++ · ++ ";") ++ [""]) ∧
      ∀ line ∈ remarks, line = "" ∨ ∃ rest, line = "//" ++ rest := by
  refine ⟨["// <auto-generated>",
    "// Generated by methodgen from native export declarations.",
    "// Do not edit by hand: changes are lost when the file is regenerated.",
    "// Library: " ++ o.library] ++ o.fingerprint.toList.map ("// Fingerprint: " ++ ·) ++
      ["// </auto-generated>", ""], ?_, fun line hline => ?_⟩
  · unfold headerLines
    simp only [List.append_assoc]
  · rcases List.mem_append.1 hline with hline | hend
    · refine .inr ?_
      rcases List.mem_append.1 hline with hfirst | hfingerprint
      · -- The lines that every header has, and then the fingerprint.
        simp only [List.mem_cons, List.not_mem_nil, or_false] at hfirst
        obtain rfl | rfl | rfl | rfl := hfirst
        · exact ⟨" <auto-generated>", rfl⟩
        · exact ⟨" Generated by methodgen from native export declarations.", rfl⟩
        · exact ⟨" Do not edit by hand: changes are lost when the file is regenerated.", rfl⟩
        · exact ⟨" Library: " ++ o.library, by rw [← String.append_assoc]; rfl⟩
      · obtain ⟨f, -, rfl⟩ := List.mem_map.1 hfingerprint
        exact ⟨" Fingerprint: " ++ f, by rw [← String.append_assoc]; rfl⟩
    · simp only [List.mem_cons, List.not_mem_nil, or_false] at hend
      exact hend.symm.imp_right fun h => ⟨" </auto-generated>", h⟩

/-- The lines of the header do not declare. -/
theorem filter_declares_headerLines (o : Options) : (headerLines o).filter declares = [] := by
  obtain ⟨remarks, hlines, hremarks⟩ := exists_headerLines_eq o
  rw [hlines]
  refine List.filter_eq_nil_iff.2 fun line hline => ?_
  rw [Bool.not_eq_true]
  rcases List.mem_append.1 hline with hremark | hline
  · obtain rfl | ⟨rest, rfl⟩ := hremarks line hremark
    · decide
    · exact declares_append rest (by decide)
  · rcases List.mem_append.1 hline with husing | hlast
    · obtain ⟨name, -, rfl⟩ := List.mem_map.1 husing
      rw [String.append_assoc]
      exact declares_append _ (by decide)
    · rw [List.mem_singleton.1 hlast]
      decide

/-- The lines before the first group do not declare. -/
theorem filter_declares_openingLines (o : Options) : (openingLines o).filter declares = [] := by
  have hnamespace : ∀ name, declares ("namespace " ++ name) = false := fun name =>
    declares_append name (by decide)
  have hclass : declares ("internal partial class " ++ o.className) = false :=
    declares_append _ (by decide)
  have hbrace : declares "\x7b" = false := by decide
  unfold openingLines
  rw [List.filter_append, filter_declares_headerLines]
  split <;> simp [hnamespace, hclass, hbrace]

/-- The lines behind the last group do not declare. -/
theorem filter_declares_closingLines (o : Options) : (closingLines o).filter declares = [] := by
  have hbrace : declares "\x7d" = false := by decide
  unfold closingLines
  split <;> simp [hbrace]

/-- Empty lines between groups do not declare. -/
theorem filter_declares_intercalate (ls : List (List String)) :
    ([""].intercalate ls).filter declares = ls.flatMap (·.filter declares) := by
  have hempty : [""].filter declares = [] := by decide
  induction ls with
  | nil => rfl
  | cons l ls ih =>
    cases ls with
    | nil => simp
    | cons l' ls =>
      rw [List.intercalate_cons_cons, List.filter_append, List.filter_append, hempty, ih,
        List.append_nil]
      rfl

/-- The lines of the file that declare are those of the entries, group by group. -/
theorem filter_declares_fileLines (o : Options) (c : Catalogue) :
    (fileLines o c).filter declares =
      (c.groups.flatMap (·.2)).map fun e => indented (level o) (externLine e) := by
  rw [fileLines_eq, List.filter_append, List.filter_append, filter_declares_openingLines,
    filter_declares_closingLines, filter_declares_intercalate, List.flatMap_map]
  simp only [filter_declares_groupLines, List.nil_append, List.append_nil]
  exact List.map_flatMap.symm

/-- The lines of a group stand together in the file. -/
theorem infix_groupLines {o : Options} {c : Catalogue} {g : Path × List Signature}
    (hg : g ∈ c.groups) : groupLines o (level o) g <:+: fileLines o c := by
  have hmem : groupLines o (level o) g ∈ c.groups.map (groupLines o (level o)) :=
    List.mem_map_of_mem hg
  rw [fileLines_eq]
  exact (Text.infix_intercalate hmem).trans (List.infix_append _ _ _)

/-! ## The order of additions -/

/-- Additions up to a conflict are additions of what comes before it. -/
theorem exists_addUntil_eq (c : Catalogue) (ss : List Signature) :
    ∃ ts, ts <+: ss ∧ (c.addUntil ss).1 = c.insertAll ts := by
  induction ss generalizing c with
  | nil => exact ⟨[], List.prefix_rfl, rfl⟩
  | cons s ss ih =>
    rw [Catalogue.addUntil]
    cases hadd : c.add s with
    | error conflict => exact ⟨[], List.nil_prefix, rfl⟩
    | ok r =>
      obtain ⟨ts, hts, heq⟩ := ih r.2
      have hinsert : c.insert s = r.2 := Catalogue.insert_of_add hadd
      refine ⟨s :: ts, (List.cons_prefix_cons).2 ⟨rfl, hts⟩, heq.trans ?_⟩
      unfold Catalogue.insertAll
      rw [List.foldl_cons, hinsert]

/-- The signatures of a source have it for their origin. -/
theorem file_origin_scanSource {settings : Settings} {file : Path} {text : Text} {s : Signature}
    (hs : s ∈ (scanSource settings file text).signatures) : s.origin.file = file := by
  unfold scanSource at hs
  split at hs
  · cases hs
  · rename_i filtered _
    obtain ⟨d, hd, rfl⟩ := List.mem_map.1 hs
    -- The declaration answers a marker of the file.
    obtain ⟨accounts, haccounts⟩ := Scanner.exists_accounted settings.scan file filtered.live
    rw [haccounts.declared] at hd
    obtain ⟨a, ha, hdeclared⟩ := List.mem_filterMap.1 hd
    rcases haccounts.answers a ha with ⟨d', hd', -, hplace⟩ | ⟨w, hnone, -⟩
    · obtain rfl : d' = d := Option.some.inj (hd'.symm.trans hdeclared)
      change d'.location.file = file
      rw [hplace]
    · rw [hnone] at hdeclared
      cases hdeclared

/-- The lines of a file list the entries of a catalogue. -/
structure Lists (o : Options) (c : Catalogue) (lines : List String) : Prop where
  /-- Between the opening and the closing lines stand the groups. -/
  groups : lines = openingLines o ++
    [""].intercalate (c.groups.map fun g =>
      indented (level o) ("// " ++ g.1.displayName) :: g.2.flatMap (functionBlock o (level o))) ++
    closingLines o
  /-- The lines that declare a function are one for each entry, group by group. -/
  declarations : lines.filter declares =
    (c.groups.flatMap (·.2)).map fun e => indented (level o) (externLine e)
  /-- Above the lines of an entry stands the name of its own file, and nothing is between them but
  other entries of that file. -/
  banner : ∀ g ∈ c.groups, ∀ es e later, g.2 = es ++ e :: later →
    indented (level o) ("// " ++ g.1.displayName) :: es.flatMap (functionBlock o (level o)) ++
      functionBlock o (level o) e <:+: lines

/-- The lines of the generated file list the entries of the catalogue. -/
theorem lists_fileLines (o : Options) (c : Catalogue) : Lists o c (fileLines o c) := by
  refine ⟨fileLines_eq o c, filter_declares_fileLines o c, fun g hg es e later hmembers => ?_⟩
  refine List.IsInfix.trans ?_ (infix_groupLines hg)
  have hgroup : groupLines o (level o) g =
      (indented (level o) ("// " ++ g.1.displayName) :: es.flatMap (functionBlock o (level o)) ++
        functionBlock o (level o) e) ++ later.flatMap (functionBlock o (level o)) := by
    unfold groupLines
    rw [hmembers, List.flatMap_append, List.flatMap_cons, List.cons_append, List.cons_append,
      List.append_assoc]
  rw [hgroup]
  exact (List.prefix_append _ _).isInfix

end NativeBindings.Emission
