import NativeBindings.Config.Lines
import NativeBindings.Proofs.Emission.Listing
import NativeBindings.Proofs.Text.Word
import NativeBindings.Proofs.Text.Words

/-!
# Imports of a configuration in lines

A line that imports a namespace goes through two readers. The configuration takes every line that
starts with `using` and keeps it as written. The generated file takes the word off where one space
stands behind it, and so it knows only some of these lines. The imports reach the header of the
generated file intact exactly when there is a space behind the word in each of them
(`usingLines_ofLines_iff`).
-/

namespace NativeBindings

namespace Config

open Emission (Options headerLines usingName usingNames baseUsings)

/-! ## Lines -/

/-- A line that imports a namespace, with all blanks in it. -/
structure ImportLine where
  /-- What stands in front. -/
  lead : Text
  /-- What stands between the word and the namespace. -/
  gap : Text
  /-- The namespace. -/
  name : String
  /-- What stands between the namespace and the semicolon. -/
  space : Text
  /-- What stands behind the semicolon. -/
  trail : Text
  /-- Blanks stand in front. -/
  blank_lead : ∀ c ∈ lead, isBlank c
  /-- Blanks stand behind the word. -/
  blank_gap : ∀ c ∈ gap, isBlank c
  /-- There is one at least. -/
  gap_ne_nil : gap ≠ []
  /-- The namespace is a word. -/
  name_ne_nil : name.toList ≠ []
  /-- It has no blanks. -/
  solid_name : Text.Solid name.toList
  /-- It has no semicolons. -/
  semicolon_not_mem_name : ';' ∉ name.toList
  /-- Blanks may stand in front of the semicolon. -/
  blank_space : ∀ c ∈ space, isBlank c
  /-- Blanks may stand behind it. -/
  blank_trail : ∀ c ∈ trail, isBlank c

namespace ImportLine

variable (l : ImportLine)

/-- What stands between the word `using` and the semicolon. -/
def inside : Text := l.gap ++ l.name.toList ++ l.space

/-- The line without the blanks around it. -/
def core : Text := "using".toList ++ l.inside ++ [';']

/-- The line as written. -/
def text : Text := l.lead ++ l.core ++ l.trail

theorem trimmed_core : Text.Trimmed l.core := by
  refine ⟨fun c hc => ?_, fun c hc => ?_⟩
  · cases hc
    decide
  · unfold core at hc
    rw [List.getLast?_concat] at hc
    cases hc
    decide

theorem trim_text : l.text.trim = l.core :=
  Text.trim_surrounded l.blank_lead l.blank_trail l.trimmed_core (by unfold core; simp)

theorem ofLine?_core : Entry.ofLine? l.core = some (.using_ (String.ofList l.core)) := by
  have hword : "using".toList.isPrefixOf? l.core = some (l.inside ++ [';']) := by
    unfold core
    rw [List.append_assoc]
    exact Text.isPrefixOf?_append _ _
  unfold Entry.ofLine?
  rw [hword]

theorem semicolon_not_mem_inside : ';' ∉ l.inside := by
  have hblank : ∀ {t : Text}, (∀ c ∈ t, isBlank c) → ';' ∉ t := fun ht hmem =>
    absurd (ht _ hmem) (by decide)
  unfold inside
  rw [List.mem_append, List.mem_append]
  rintro ((hmem | hmem) | hmem)
  · exact hblank l.blank_gap hmem
  · exact l.semicolon_not_mem_name hmem
  · exact hblank l.blank_space hmem

/-- Behind a text without semicolons only the one at the end is dropped. -/
theorem dropTrailing_semicolon {t : Text} (h : ';' ∉ t) :
    dropTrailing (· == ';') (t ++ [';']) = t := by
  rw [dropTrailing_concat rfl, dropTrailing_eq]
  intro c hc
  rw [beq_eq_false_iff_ne]
  rintro rfl
  exact h (List.mem_of_mem_getLast? hc)

theorem usingName_core : usingName (String.ofList l.core) = String.ofList (Text.trim
    (dropTrailing (· == ';') (("using ".toList.isPrefixOf? l.core).getD l.core))) := by
  have htrim : Text.trim (String.ofList l.core).toList = l.core := by
    rw [String.toList_ofList, l.trimmed_core.trim_eq]
  conv_rhs => rw [← htrim]
  rfl

/-- Behind a space the namespace is found. -/
theorem usingName_of_space (h : l.gap.head? = some ' ') :
    usingName (String.ofList l.core) = l.name := by
  obtain ⟨gap, hgap⟩ := List.head?_eq_some_iff.1 h
  have hinside : l.inside = ' ' :: (gap ++ l.name.toList ++ l.space) := by
    unfold inside
    rw [hgap]
    simp
  -- The word and one space are taken off, and then the semicolon and the blanks.
  have hword : "using ".toList.isPrefixOf? l.core =
      some (gap ++ l.name.toList ++ l.space ++ [';']) := by
    have hcore : l.core = "using ".toList ++ (gap ++ l.name.toList ++ l.space ++ [';']) := by
      unfold core
      rw [hinside]
      simp
    rw [hcore]
    exact Text.isPrefixOf?_append _ _
  have hsemicolon := l.semicolon_not_mem_inside
  rw [hinside] at hsemicolon
  have hblank := l.blank_gap
  rw [hgap] at hblank
  rw [usingName_core, hword, Option.getD_some,
    dropTrailing_semicolon (List.not_mem_of_not_mem_cons hsemicolon),
    Text.trim_surrounded (List.forall_mem_cons.1 hblank).2 l.blank_space l.solid_name.trimmed
      l.name_ne_nil, String.ofList_toList]

/-- Behind another blank the word is taken for a part of the name. -/
theorem usingName_of_ne_space (h : l.gap.head? ≠ some ' ') :
    usingName (String.ofList l.core) =
      String.ofList ("using".toList ++ l.gap ++ l.name.toList) := by
  -- The word is not followed by a space, so it is not taken off.
  have hword : "using ".toList.isPrefixOf? l.core = none := by
    refine Option.eq_none_iff_forall_ne_some.2 fun rest hrest => h ?_
    have hcore := Text.eq_append_of_isPrefixOf? hrest
    obtain ⟨c, gap, hgap⟩ := List.exists_cons_of_ne_nil l.gap_ne_nil
    unfold core inside at hcore
    rw [hgap, List.append_assoc] at hcore
    change "using".toList ++ _ = "using".toList ++ ' ' :: rest at hcore
    rw [hgap, (List.cons.inj (List.append_cancel_left hcore)).1]
    rfl
  have hsemicolon : ';' ∉ "using".toList ++ l.inside := by
    rw [List.mem_append]
    exact not_or.2 ⟨by decide, l.semicolon_not_mem_inside⟩
  have htrimmed : Text.Trimmed ("using".toList ++ l.gap ++ l.name.toList) := by
    refine ⟨fun c hc => ?_, fun c hc => ?_⟩
    · cases hc
      decide
    · rw [List.getLast?_append_of_ne_nil _ l.name_ne_nil] at hc
      exact l.solid_name.trimmed.last c hc
  -- Only the blanks in front of the semicolon go with it.
  have hsurrounded : Text.trim ([] ++ ("using".toList ++ l.gap ++ l.name.toList) ++ l.space) = _ :=
    Text.trim_surrounded (by simp) l.blank_space htrimmed (by simp)
  have hdropped : dropTrailing (· == ';') l.core = "using".toList ++ l.inside :=
    dropTrailing_semicolon hsemicolon
  rw [usingName_core, hword, Option.getD_none, hdropped, ← hsurrounded]
  unfold inside
  simp

/-- The name that is found is free of blanks exactly when a space stands behind the word. -/
theorem solid_usingName_iff :
    Text.Solid (usingName (String.ofList l.core)).toList ↔ l.gap.head? = some ' ' := by
  constructor
  · intro hsolid
    by_contra hspace
    rw [l.usingName_of_ne_space hspace, String.toList_ofList] at hsolid
    have hblank := hsolid (l.gap.head l.gap_ne_nil) (by simp)
    rw [l.blank_gap _ (List.head_mem l.gap_ne_nil)] at hblank
    cases hblank
  · intro hspace
    rw [l.usingName_of_space hspace]
    exact l.solid_name

end ImportLine

/-- A line behind the two directories. -/
inductive Line
  /-- A line that imports a namespace. -/
  | import_ (l : ImportLine)
  /-- A line that says something else. -/
  | other (text : Text) (h : "using".toList.isPrefixOf? text.trim = none)

/-- A line as written. -/
def Line.text : Line → Text
  | .import_ l => l.text
  | .other text _ => text

/-- The imports among lines. -/
def imports (lines : List Line) : List ImportLine :=
  lines.filterMap fun
    | .import_ l => some l
    | .other _ _ => none

/-- The namespaces that lines import; without an import these are the namespaces of Rhino. -/
def namespaces (lines : List Line) : List String :=
  match imports lines with
  | [] => ["Rhino", "Rhino.Geometry"]
  | ls => ls.map (·.name)

/-- The lines that import namespaces: the two of every file, and then each further one once, in the
order of their first mention. -/
def importLines (names : List String) : List String :=
  ["using System;", "using System.Runtime.InteropServices;"] ++
    (names.filter (· ∉ ["System", "System.Runtime.InteropServices"])).eraseDups.map
      ("using " ++ · ++ ";")

/-- Whether a line starts with `using`. -/
def startsWithUsing (line : String) : Bool := "using".toList.isPrefixOf line.toList

/-- The lines of the header that start with `using`. -/
def usingLines (o : Options) : List String := (headerLines o).filter startsWithUsing

/-! ## The configuration -/

/-- A line that says something else imports nothing. -/
theorem usingsOf_other {t : Text} (h : "using".toList.isPrefixOf? t = none) :
    usingsOf (Entry.ofLine? t).toList = [] := by
  unfold Entry.ofLine?
  rw [h]
  cases "define".toList.isPrefixOf? t with
  | none => rfl
  | some rest =>
    dsimp only
    split <;> rfl

/-- The imports are kept as written. -/
theorem usingsOf_lines (lines : List Line) :
    usingsOf ((lines.map fun l => l.text.trim).filterMap Entry.ofLine?) =
      (imports lines).map fun l => String.ofList l.core := by
  induction lines with
  | nil => rfl
  | cons line lines ih =>
    -- A line that is no entry gives nothing.
    have hcons : usingsOf (((line :: lines).map fun l => l.text.trim).filterMap Entry.ofLine?) =
        usingsOf (Entry.ofLine? line.text.trim).toList ++
          (imports lines).map fun l => String.ofList l.core := by
      rw [← ih, List.map_cons, List.filterMap_cons]
      cases Entry.ofLine? line.text.trim with
      | none => rfl
      | some e => cases e <;> rfl
    rw [hcons]
    cases line with
    | import_ l =>
      rw [Line.text, l.trim_text, l.ofLine?_core]
      rfl
    | other text h =>
      rw [Line.text, usingsOf_other h]
      rfl

/-- The header imports the namespaces of its options. -/
theorem usingLines_eq (o : Options) : usingLines o = (usingNames o).map ("using " ++ · ++ ";") := by
  obtain ⟨remarks, hlines, hremarks⟩ := Emission.exists_headerLines_eq o
  -- None of the lines in front of the imports starts with the word; all of the imports do.
  have hnone : remarks.filter startsWithUsing = [] := by
    refine List.filter_eq_nil_iff.2 fun line hline => ?_
    rw [Bool.not_eq_true]
    obtain rfl | ⟨rest, rfl⟩ := hremarks line hline
    · decide
    · unfold startsWithUsing
      rw [String.toList_append]
      rfl
  have hnames : ((usingNames o).map ("using " ++ · ++ ";")).filter startsWithUsing =
      (usingNames o).map ("using " ++ · ++ ";") := by
    refine List.filter_eq_self.2 fun line hline => ?_
    obtain ⟨name, -, rfl⟩ := List.mem_map.1 hline
    unfold startsWithUsing
    rw [String.append_assoc, String.toList_append]
    rfl
  have hempty : [""].filter startsWithUsing = [] := by decide
  unfold usingLines
  rw [hlines, List.filter_append, List.filter_append, hnone, hnames, hempty, List.nil_append,
    List.append_nil]

/-- Where the names of the options are read as given, the header has one line for each. -/
theorem usingLines_eq_importLines {o : Options} {names : List String}
    (h : o.usings.map usingName = names) (hnames : "" ∉ names) :
    usingLines o = importLines names := by
  have hbase : baseUsings.eraseDups = baseUsings := by decide
  -- No name is empty, neither of the two of every file nor of the others.
  have hnonempty : ∀ name ∈ baseUsings ++ (names.removeAll baseUsings).eraseDups,
      (name != "") = true := by
    intro name hname
    rw [bne_iff_ne]
    rintro rfl
    rcases List.mem_append.1 hname with hbase | hother
    · exact absurd hbase (by decide)
    · exact hnames (List.mem_filter.1 (List.mem_eraseDups.1 hother)).1
  have hother : names.removeAll baseUsings =
      names.filter (· ∉ ["System", "System.Runtime.InteropServices"]) := by
    unfold List.removeAll
    refine List.filter_congr fun name _ => ?_
    simp [baseUsings]
  rw [usingLines_eq, usingNames, h, List.eraseDups_append, hbase, List.filter_eq_self.2 hnonempty,
    hother, List.map_append]
  rfl

/-- Every name that is imported is one of every file or one of the given names. -/
theorem mem_importLines {names : List String} {name : String}
    (h : "using " ++ name ++ ";" ∈ importLines names) : name ∈ baseUsings ∨ name ∈ names := by
  have hmap : importLines names = (baseUsings ++
      (names.filter (· ∉ ["System", "System.Runtime.InteropServices"])).eraseDups).map
        ("using " ++ · ++ ";") := by
    rw [List.map_append]
    rfl
  rw [hmap] at h
  obtain ⟨name', hname', hline⟩ := List.mem_map.1 h
  have heq : name' = name := by
    simpa only [← String.toList_inj, String.toList_append, List.append_cancel_left_eq,
      List.append_cancel_right_eq] using hline
  rw [← heq]
  refine (List.mem_append.1 hname').imp_right fun hother => ?_
  exact (List.mem_filter.1 (List.mem_eraseDups.1 hother)).1

section Lines

variable {text : Text} {source output : Text} {lines : List Line}

/-- Lines with two directories are a configuration with one target, which imports the namespaces of
Rhino or the lines that import one. -/
theorem exists_ofLines_eq (h : Text.lines text = source :: output :: lines.map Line.text)
    (hsource : source.trim ≠ []) (houtput : output.trim ≠ []) (base : Path) :
    ∃ c target, ofLines text base = .ok c ∧ c.targets = [target] ∧
      (c.emitOptions target).usings = (if imports lines = [] then rhinoNamespaces else []) ++
        (imports lines).map fun l => String.ofList l.core := by
  have htrimmed : (Text.lines text).map Text.trim =
      source.trim :: output.trim :: lines.map fun l => l.text.trim := by
    rw [h, List.map_cons, List.map_cons, List.map_map]
    rfl
  have hdirectories : (source.trim.isEmpty || output.trim.isEmpty) = false := by
    rw [Bool.or_eq_false_iff, List.isEmpty_eq_false_iff, List.isEmpty_eq_false_iff]
    exact ⟨hsource, houtput⟩
  unfold ofLines
  rw [htrimmed]
  dsimp only
  rw [hdirectories, usingsOf_lines]
  refine ⟨_, _, rfl, rfl, ?_⟩
  unfold emitOptions Target.rebase
  simp

/-- The names that lines import are words. -/
theorem ne_nil_of_mem_namespaces {name : String} (h : name ∈ namespaces lines) :
    name.toList ≠ [] ∧ Text.Solid name.toList := by
  unfold namespaces at h
  split at h
  · have hrhino : ∀ name ∈ ["Rhino", "Rhino.Geometry"],
        name.toList ≠ [] ∧ Text.Solid name.toList := by decide
    exact hrhino name h
  · obtain ⟨l, -, rfl⟩ := List.mem_map.1 h
    exact ⟨l.name_ne_nil, l.solid_name⟩

/-- Lines with two directories are a configuration with one target. Its file imports the two
namespaces of every file and then those that the lines import, each once and in the order of their
first mention, or the namespaces of Rhino where the lines import none. The imports arrive in the
header like this exactly when a space stands behind the word `using` in each of their lines. -/
theorem usingLines_ofLines_iff (h : Text.lines text = source :: output :: lines.map Line.text)
    (hsource : source.trim ≠ []) (houtput : output.trim ≠ []) (base : Path) :
    ∃ c target, ofLines text base = .ok c ∧ c.targets = [target] ∧
      ∀ fingerprint, usingLines { c.emitOptions target with fingerprint } =
        importLines (namespaces lines) ↔ ∀ l ∈ imports lines, l.gap.head? = some ' ' := by
  obtain ⟨c, target, hread, htargets, husings⟩ := exists_ofLines_eq h hsource houtput base
  refine ⟨c, target, hread, htargets, fun fingerprint => ?_⟩
  let o : Options := { c.emitOptions target with fingerprint }
  have ho : o.usings = (if imports lines = [] then rhinoNamespaces else []) ++
      (imports lines).map fun l => String.ofList l.core := husings
  change usingLines o = _ ↔ _
  constructor
  · intro hlines l hl
    -- A name without a blank in it is what a space behind the word leaves.
    rw [← l.solid_usingName_iff]
    by_cases hempty : usingName (String.ofList l.core) = ""
    · rw [hempty]
      exact fun c hc => absurd hc List.not_mem_nil
    have hname : usingName (String.ofList l.core) ∈ usingNames o := by
      unfold usingNames
      rw [List.mem_filter, List.mem_eraseDups, List.mem_append, ho, List.map_append]
      exact ⟨.inr (List.mem_append_right _ (List.mem_map_of_mem (List.mem_map_of_mem hl))),
        bne_iff_ne.2 hempty⟩
    have hline := List.mem_map_of_mem (f := ("using " ++ · ++ ";")) hname
    rw [← usingLines_eq, hlines] at hline
    -- The lines are those of the namespaces, none of which has a blank in it.
    have hbase : ∀ name ∈ baseUsings, Text.Solid name.toList := by decide
    rcases mem_importLines hline with hmem | hmem
    · exact hbase _ hmem
    · exact (ne_nil_of_mem_namespaces hmem).2
  · intro hspaces
    refine usingLines_eq_importLines ?_ fun hmem => (ne_nil_of_mem_namespaces hmem).1 rfl
    -- With a space each import is its namespace.
    have hnames : ((imports lines).map fun l => String.ofList l.core).map usingName =
        (imports lines).map (·.name) := by
      rw [List.map_map]
      exact List.map_congr_left fun l hl => l.usingName_of_space (hspaces l hl)
    rw [ho, List.map_append, hnames]
    unfold namespaces
    cases imports lines with
    | nil => decide
    | cons l ls => rfl

end Lines

/-- An import with a tab behind the space, a blank in front of the semicolon and a carriage return
at the end of its line, then one that every file has, and then the first one again. -/
theorem usingLines_ofLines_iff_spaces :
    let text :=
      "c\ndotnet\nusing \tON.Geometry ;\r\ndefine X\n  using System;\nusing ON.Geometry;".toList
    ∃ c target, ofLines text ⟨"base"⟩ = .ok c ∧ c.targets = [target] ∧
      usingLines { c.emitOptions target with fingerprint := some "f00d" } =
        ["using System;", "using System.Runtime.InteropServices;", "using ON.Geometry;"] := by
  intro text
  -- The three lines that import.
  let spaced : ImportLine := ⟨[], [' ', '\t'], "ON.Geometry", [' '], [], List.all_eq_true.1 rfl,
    List.all_eq_true.1 rfl, by decide, by decide, by decide, by decide, List.all_eq_true.1 rfl,
    List.all_eq_true.1 rfl⟩
  let base : ImportLine := ⟨[' ', ' '], [' '], "System", [], [], List.all_eq_true.1 rfl,
    List.all_eq_true.1 rfl, by decide, by decide, by decide, by decide, List.all_eq_true.1 rfl,
    List.all_eq_true.1 rfl⟩
  let again : ImportLine := ⟨[], [' '], "ON.Geometry", [], [], List.all_eq_true.1 rfl,
    List.all_eq_true.1 rfl, by decide, by decide, by decide, by decide, List.all_eq_true.1 rfl,
    List.all_eq_true.1 rfl⟩
  let lines : List Line := [.import_ spaced, .other "define X".toList (by decide), .import_ base,
    .import_ again]
  have hlines : Text.lines text = "c".toList :: "dotnet".toList :: lines.map Line.text := by
    decide +kernel
  obtain ⟨c, target, hread, htargets, hiff⟩ :=
    usingLines_ofLines_iff hlines (by decide) (by decide) ⟨"base"⟩
  have hnames : importLines (namespaces lines) =
      ["using System;", "using System.Runtime.InteropServices;", "using ON.Geometry;"] := by
    decide +kernel
  have hgaps : ∀ l ∈ imports lines, l.gap.head? = some ' ' := by
    intro l hl
    rcases hl with _ | ⟨_, _ | ⟨_, _ | ⟨_, _ | _⟩⟩⟩ <;> rfl
  exact ⟨c, target, hread, htargets, ((hiff (some "f00d")).2 hgaps).trans hnames⟩

/-- With a tab behind the word, the word is imported as a part of the name. -/
theorem usingLines_of_tab :
    let text := "c\ndotnet\nusing\tON.Geometry;".toList
    ∃ l : ImportLine, l.name = "ON.Geometry" ∧
      Text.lines text = ["c".toList, "dotnet".toList, l.text] ∧
      ∃ c target, ofLines text ⟨"base"⟩ = .ok c ∧ c.targets = [target] ∧
        usingLines (c.emitOptions target) =
          ["using System;", "using System.Runtime.InteropServices;",
            "using using\tON.Geometry;"] ∧
        importLines [l.name] =
          ["using System;", "using System.Runtime.InteropServices;", "using ON.Geometry;"] := by
  intro text
  let tab : ImportLine := ⟨[], ['\t'], "ON.Geometry", [], [], List.all_eq_true.1 rfl,
    List.all_eq_true.1 rfl, by decide, by decide, by decide, by decide, List.all_eq_true.1 rfl,
    List.all_eq_true.1 rfl⟩
  have hread : ofLines text ⟨"base"⟩ = .ok {
      targets := [{ sourceDir := ⟨"base/c"⟩, outputDir := ⟨"base/dotnet"⟩
                    usings := ["using\tON.Geometry;"] }]
      mapping := { rhinoUsings := false } } := by decide +kernel
  exact ⟨tab, rfl, by decide +kernel, _, _, hread, rfl, by decide +kernel, by decide +kernel⟩

end Config

end NativeBindings
