import NativeBindings.Proofs.Declaration.DefaultValue
import NativeBindings.Proofs.Scanner.Alike
import NativeBindings.Proofs.Scanner.Balance

/-!
# Declarations with default values

The scanner counts parentheses only, so it finds the end of a list of parameters whatever default
values with balanced parentheses stand in it (`keepsOpen_fullList`). What it collects is then read
with the default values or without them. As long as these are level the findings are the same, in
whatever lines the declaration stands (`findingsFrom_fullList`); a comparison as a default value
hides the parameters behind it (`comparison_hides_parameter`).
-/

namespace NativeBindings

namespace Scanner

variable {policy : ScanPolicy} {file : Path} {s : State} {c : Candidate} {n depth : Nat}
  {comment : Option Text} {front rest : Text} {ps : List Defaulted}

/-! ## Parentheses in default values -/

/-- Balanced parentheses in a default value leave the list open as it is without it. -/
theorem keepsOpen_text {p : Defaulted} (hdepth : 1 ≤ depth) (h : KeepsOpen depth p.declared)
    (hvalue : ∀ e ∈ p.value, Balanced e) :
    KeepsOpen depth p.text ∧ p.text.foldl depthAfter depth = p.declared.foldl depthAfter depth := by
  obtain ⟨declared, value⟩ := p
  cases value with
  | none => exact ⟨h, rfl⟩
  | some e =>
    obtain ⟨hkeeps, hsame⟩ := (hvalue e rfl).keepsOpen (h.one_le hdepth)
    obtain ⟨hsign, hsigned⟩ := keepsOpen_of_plain (t := [' ', '=', ' ']) (by simp)
      (declared.foldl depthAfter depth)
    have htext : Defaulted.text ⟨declared, some e⟩ = declared ++ ([' ', '=', ' '] ++ e) := rfl
    rw [htext]
    refine ⟨h.append (hsign.append ?_), ?_⟩
    · rwa [hsigned]
    · rw [List.foldl_append, List.foldl_append, hsigned, hsame]

theorem keepsOpen_fullList (hdepth : 1 ≤ depth) (h : KeepsOpen depth (plainList ps))
    (hvalues : ∀ p ∈ ps, ∀ e ∈ p.value, Balanced e) :
    KeepsOpen depth (fullList ps) ∧
      (fullList ps).foldl depthAfter depth = (plainList ps).foldl depthAfter depth := by
  induction ps generalizing depth with
  | nil => exact ⟨h, rfl⟩
  | cons p ps ih =>
    obtain ⟨hvalue, hvalues⟩ := List.forall_mem_cons.1 hvalues
    cases ps with
    | nil =>
      unfold plainList at h ⊢
      unfold fullList
      simp only [List.map_cons, List.map_nil, List.intercalate_singleton] at h ⊢
      exact keepsOpen_text hdepth h hvalue
    | cons q ps =>
      -- Both lists are a parameter, a comma and the list of the others.
      have hplain : plainList (p :: q :: ps) = p.declared ++ ([','] ++ plainList (q :: ps)) := by
        unfold plainList
        rw [List.map_cons, List.map_cons, List.intercalate_cons_cons, List.append_assoc]
      have hfull : fullList (p :: q :: ps) = p.text ++ ([','] ++ fullList (q :: ps)) := by
        unfold fullList
        rw [List.map_cons, List.map_cons, List.intercalate_cons_cons, List.append_assoc]
      rw [hplain] at h ⊢
      obtain ⟨hfirst, hrest⟩ := KeepsOpen.append_iff.1 h
      obtain ⟨hcomma, hrest⟩ := KeepsOpen.append_iff.1 hrest
      -- Behind the parameter as many parentheses are open with its value as without, and so behind
      -- the comma.
      obtain ⟨htext, hsame⟩ := keepsOpen_text hdepth hfirst hvalue
      obtain ⟨hmore, hend⟩ := ih (hcomma.one_le (hfirst.one_le hdepth)) hrest hvalues
      rw [hfull]
      constructor
      · refine htext.append ?_
        rw [hsame]
        exact hcomma.append hmore
      · rw [List.foldl_append, List.foldl_append, hsame, hend, List.foldl_append,
          List.foldl_append]

/-! ## Scanning -/

/-- Lists of parameters that are read alike give the same findings up to the end of the file. -/
theorem findingsFrom_list (hall : ∀ m ∈ policy.markers, isIdentifier m.toList) (hs : s.Sound)
    (hfront : (readText policy file n comment (s.expire policy n).1 front).1 = .inHead c)
    (hname : String.ofList (trailingWord c.head.toList) ∉ attributeMacros) {list list' : Text}
    (hlist : Balanced list) (hlist' : Balanced list')
    (hread : ∀ function, readParameters function list = readParameters function list')
    (more : List CodeLine) :
    findingsFrom policy file s (⟨n, codeWith front list rest, comment⟩ :: more) =
      findingsFrom policy file s (⟨n, codeWith front list' rest, comment⟩ :: more) := by
  -- In a head no parameters have been collected, so the list is all there is of them.
  have hsound : (State.inHead c).Sound := by
    rw [← hfront]
    refine State.Sound.readText ?_ front
    rcases s.expire_cases policy n with hstays | ⟨k, -, hends⟩
    · rwa [hstays]
    · rw [hends]
      trivial
  have hparams : c.params = "" := hsound
  have hcollected : ∀ t, (c.addParams t).params.toList = t := by
    intro t
    rw [Candidate.toList_addParams, hparams]
    rfl
  have halike : (c.addParams list).Alike (c.addParams list') := by
    refine ⟨rfl, fun location doc => ?_⟩
    rw [hcollected, hcollected]
    exact Declaration.read_congr rfl hread location doc
  exact findingsFrom_codeWith hall (Prod.ext hfront rfl) (Prod.ext hfront rfl) hname hname hlist
    hlist' halike more

/-- Default values with balanced parentheses do not change what a declaration gives as long as they
are level: in the line of the declaration, with whatever follows it, and over several lines without
comments, but for line numbers. And level values are exactly those with which the list is divided
between the same parameters. -/
theorem findingsFrom_fullList (hall : ∀ m ∈ policy.markers, isIdentifier m.toList) (hs : s.Sound)
    (hfront : (readText policy file n comment (s.expire policy n).1 front).1 = .inHead c)
    (hname : String.ofList (trailingWord c.head.toList) ∉ attributeMacros) (hps : Accepted ps)
    (hlist : Balanced (plainList ps)) (hvalues : ∀ p ∈ ps, ∀ e ∈ p.value, Balanced e) :
    (splitTopLevel (fullList ps) = ps.map (·.text) ↔ LevelValues ps) ∧
      (LevelValues ps →
        (∀ rest more,
          findingsFrom policy file s (⟨n, codeWith front (fullList ps) rest, comment⟩ :: more) =
            findingsFrom policy file s (⟨n, codeWith front (plainList ps) rest, comment⟩ :: more)) ∧
        ∀ rest lines lines', Text.unwords lines = codeWith front (fullList ps) rest →
          Text.unwords lines' = codeWith front (plainList ps) rest →
          NoneExpires policy file s (numbered n lines) →
          NoneExpires policy file s (numbered n lines') →
          (findingsFrom policy file s (numbered n lines)).map Finding.unplaced =
            (findingsFrom policy file s (numbered n lines')).map Finding.unplaced) := by
  have hfull : Balanced (fullList ps) := by
    obtain ⟨hkeeps, hsame⟩ := keepsOpen_fullList (le_refl 1) hlist.1 hvalues
    exact ⟨hkeeps, hsame.trans hlist.2⟩
  refine ⟨hps.divided_iff, fun hlevel => ⟨fun rest more => ?_, ?_⟩⟩
  · exact findingsFrom_list hall hs hfront hname hfull hlist
      (hps.readParameters_fullList hlevel) more
  · intro rest lines lines' hlines hlines' hgo hgo'
    have hfront' : (readText policy file n none (s.expire policy n).1 front).1 = .inHead c := by
      rw [readText_comment comment, hfront]
    exact findingsFrom_lines hall hlines hlines' hgo hgo'
      (findingsFrom_list hall hs hfront' hname hfull hlist (hps.readParameters_fullList hlevel) [])

/-- Commas in a call, brackets and, in the last default value, an arrow: the list is read as without
them, in one line and in two. -/
theorem findingsFrom_fullList_arrow :
    let policy : ScanPolicy := {}
    let file : Path := ⟨"t.cpp"⟩
    let ps : List Defaulted := [⟨"int a".toList, some "f(1, g(2)) + h[3]".toList⟩,
      ⟨" Pair<int, T> b".toList, none⟩, ⟨" int c".toList, some "x->y".toList⟩]
    let front := "RH_C_FUNCTION void F".toList
    let lines := ["RH_C_FUNCTION void F(int a = f(1,".toList,
      "g(2)) + h[3], Pair<int, T> b, int c = x->y);".toList]
    LevelValues ps ∧
      findingsFrom policy file .outside [⟨1, codeWith front (fullList ps) [';'], none⟩] =
        findingsFrom policy file .outside [⟨1, codeWith front (plainList ps) [';'], none⟩] ∧
      (findingsFrom policy file .outside (numbered 1 lines)).map Finding.unplaced =
        (findingsFrom policy file .outside
          (numbered 1 [codeWith front (plainList ps) [';']])).map Finding.unplaced := by
  intro policy file ps front lines
  have hps : Accepted ps := ⟨by decide +kernel, by decide +kernel, by decide⟩
  have hfront : (readText policy file 1 none (State.outside.expire policy 1).1 front).1 =
      .inHead ⟨1, " void F", ""⟩ := by decide +kernel
  have hsound : State.outside.Sound := trivial
  obtain ⟨hdivided, hsame⟩ := findingsFrom_fullList (by decide) hsound hfront (by decide +kernel)
    hps (by decide +kernel) (by decide +kernel)
  have hlevel : LevelValues ps := hdivided.1 (by decide +kernel)
  obtain ⟨hline, hlines⟩ := hsame hlevel
  exact ⟨hlevel, hline [';'] [], hlines [';'] lines _ (by decide +kernel) (by decide +kernel)
    (by decide +kernel) (by decide +kernel)⟩

/-- A comparison as a default value opens a bracket that nothing closes, so the list is not divided
behind it and the second parameter is cut off with the value. -/
theorem comparison_hides_parameter :
    let ps : List Defaulted := [⟨"int a".toList, some "1 < 2".toList⟩, ⟨" int b".toList, none⟩]
    let front := "RH_C_FUNCTION void F".toList
    let found (params : List Parameter) : Finding :=
      .declared ⟨⟨⟨"t.cpp"⟩, 1⟩, "void", "F", params, none, none⟩
    Accepted ps ∧ Balanced (plainList ps) ∧ (∀ p ∈ ps, ∀ e ∈ p.value, Balanced e) ∧
      findingsFrom {} ⟨"t.cpp"⟩ .outside [⟨1, codeWith front (plainList ps) [';'], none⟩] =
        [found [⟨"int", "a"⟩, ⟨"int", "b"⟩]] ∧
      findingsFrom {} ⟨"t.cpp"⟩ .outside [⟨1, codeWith front (fullList ps) [';'], none⟩] =
        [found [⟨"int", "a"⟩]] := by
  intro ps front found
  exact ⟨⟨by decide +kernel, by decide +kernel, by decide⟩, by decide, by decide,
    by decide +kernel, by decide +kernel⟩

end Scanner

end NativeBindings
