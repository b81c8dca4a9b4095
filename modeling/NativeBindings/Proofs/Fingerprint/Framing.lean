import Mathlib.Algebra.Group.Nat.Defs
import NativeBindings.Fingerprint
import NativeBindings.Proofs.Text.Utf8
import NativeBindings.Proofs.Text.Word

/-!
# What a stream tells of its inputs

Each frame is told from what follows it: a text without NUL by the zero byte behind it
(`frameText_append_inj`), data by the length in front (`frameData_append_inj`). So the files are
told from their section (`framedFiles_inj`). The symbols are not: nothing says how many there are,
and the label behind them is framed like a symbol. Two streams of texts with the label behind them
agree when the texts and the rest do, or when one of the texts is the label and takes its part
(`framedTexts_append_eq`). This is the only way in which different inputs have one stream
(`stream_eq_iff`), and there are such inputs (`stream_of_label`).
-/

namespace NativeBindings.Fingerprint

variable {s t : String} {u v : List UInt8}

/-! ## Frames -/

/-- A text without the NUL character. -/
def NulFree (s : String) : Prop := '\x00' ∉ s.toList

instance (s : String) : Decidable (NulFree s) := inferInstanceAs (Decidable ('\x00' ∉ s.toList))

/-- A framed text is told from what follows it. -/
theorem frameText_append_inj (hs : NulFree s) (ht : NulFree t)
    (h : frameText s ++ u = frameText t ++ v) : s = t ∧ u = v := by
  unfold frameText at h
  rw [← List.append_cons, ← List.append_cons] at h
  obtain ⟨htexts, hrest⟩ :=
    eq_of_append_cons_eq (Utf8.zero_not_mem_encode hs) (Utf8.zero_not_mem_encode ht) h
  exact ⟨String.toList_inj.1 (Utf8.encode_inj.1 htexts), hrest⟩

theorem littleEndian_succ (n value : Nat) :
    littleEndian (n + 1) value = UInt8.ofNat value :: littleEndian n (value / 256) := by
  unfold littleEndian
  rw [List.range_succ_eq_map, List.map_cons, List.map_map]
  congr 1
  · simp
  · refine List.map_congr_left fun i _ => ?_
    have hpow : Nat.pow 256 (i + 1) = 256 * Nat.pow 256 i := Nat.pow_succ'
    show UInt8.ofNat (value / Nat.pow 256 (i + 1)) = _
    rw [hpow, Nat.div_div_eq_div_mul]

@[simp] theorem length_littleEndian (n value : Nat) : (littleEndian n value).length = n := by
  simp [littleEndian]

/-- A number is told by its bytes when there are enough of them. -/
theorem littleEndian_inj {n a b : Nat} (ha : a < 256 ^ n) (hb : b < 256 ^ n)
    (h : littleEndian n a = littleEndian n b) : a = b := by
  induction n generalizing a b with
  | zero => omega
  | succ n ih =>
    rw [littleEndian_succ, littleEndian_succ] at h
    obtain ⟨hlow, hhigh⟩ := List.cons.inj h
    have hmod : a % 256 = b % 256 := by simpa using congrArg UInt8.toNat hlow
    have hdiv : a / 256 = b / 256 := by
      refine ih ?_ ?_ hhigh
      · rw [Nat.div_lt_iff_lt_mul (by decide)]
        omega
      · rw [Nat.div_lt_iff_lt_mul (by decide)]
        omega
    omega

/-- Framed data is told from what follows it. -/
theorem frameData_append_inj {a b : List UInt8} (ha : a.length < 2 ^ 64) (hb : b.length < 2 ^ 64)
    (h : frameData a ++ u = frameData b ++ v) : a = b ∧ u = v := by
  unfold frameData at h
  rw [List.append_assoc, List.append_assoc] at h
  obtain ⟨hlengths, hdata⟩ := List.append_inj h (by simp)
  exact List.append_inj hdata (littleEndian_inj (by simpa using ha) (by simpa using hb) hlengths)

/-! ## Sections -/

/-- The section of the files, without its label. -/
def framedFiles (files : List (String × String)) : List UInt8 :=
  files.flatMap fun (name, text) => frameText name ++ frameData (Utf8.encode text.toList)

/-- A file whose name can be framed and whose text has a length in eight bytes. -/
def IsFramable (file : String × String) : Prop :=
  NulFree file.1 ∧ (Utf8.encode file.2.toList).length < 2 ^ 64

/-- Files are told from their section. -/
theorem framedFiles_inj {files files' : List (String × String)}
    (h : ∀ f ∈ files, IsFramable f) (h' : ∀ f ∈ files', IsFramable f)
    (heq : framedFiles files = framedFiles files') : files = files' := by
  have hne : ∀ (f : String × String) (fs : List (String × String)), framedFiles (f :: fs) ≠ [] := by
    intro f fs
    unfold framedFiles frameText
    simp
  induction files generalizing files' with
  | nil =>
    cases files' with
    | nil => rfl
    | cons f' fs' => exact absurd heq.symm (hne f' fs')
  | cons f fs ih =>
    cases files' with
    | nil => exact absurd heq (hne f fs)
    | cons f' fs' =>
      obtain ⟨⟨hname, htext⟩, hfs⟩ := List.forall_mem_cons.1 h
      obtain ⟨⟨hname', htext'⟩, hfs'⟩ := List.forall_mem_cons.1 h'
      -- The name and the text of the first file, and what follows.
      have hfirst : frameText f.1 ++ (frameData (Utf8.encode f.2.toList) ++ framedFiles fs) =
          frameText f'.1 ++ (frameData (Utf8.encode f'.2.toList) ++ framedFiles fs') := by
        unfold framedFiles at heq ⊢
        simpa only [List.flatMap_cons, List.append_assoc] using heq
      obtain ⟨hnames, hrest⟩ := frameText_append_inj hname hname' hfirst
      obtain ⟨htexts, hrest⟩ := frameData_append_inj htext htext' hrest
      rw [ih hfs hfs' hrest, Prod.ext hnames (String.toList_inj.1 (Utf8.encode_inj.1 htexts))]

/-- Framed texts with a label behind them agree when the texts do and what follows, or when the
label is one of the texts on one side, whose further texts stand where the other side goes on. -/
theorem framedTexts_append_eq {label : String} {ss ts : List String} (hlabel : NulFree label)
    (hss : ∀ s ∈ ss, NulFree s) (hts : ∀ t ∈ ts, NulFree t)
    (h : ss.flatMap frameText ++ (frameText label ++ u) =
      ts.flatMap frameText ++ (frameText label ++ v)) :
    (ss = ts ∧ u = v) ∨
      (∃ later, ts = ss ++ label :: later ∧
        u = later.flatMap frameText ++ (frameText label ++ v)) ∨
      ∃ later, ss = ts ++ label :: later ∧
        v = later.flatMap frameText ++ (frameText label ++ u) := by
  induction ss generalizing ts with
  | nil =>
    cases ts with
    | nil => exact .inl ⟨rfl, List.append_cancel_left h⟩
    | cons t ts =>
      -- The label stands where the other side has its first text.
      obtain ⟨ht, -⟩ := List.forall_mem_cons.1 hts
      rw [List.flatMap_nil, List.nil_append, List.flatMap_cons, List.append_assoc] at h
      obtain ⟨rfl, hrest⟩ := frameText_append_inj hlabel ht h
      exact .inr (.inl ⟨ts, rfl, hrest⟩)
  | cons s ss ih =>
    obtain ⟨hs, hss⟩ := List.forall_mem_cons.1 hss
    cases ts with
    | nil =>
      rw [List.flatMap_nil, List.nil_append, List.flatMap_cons, List.append_assoc] at h
      obtain ⟨rfl, hrest⟩ := frameText_append_inj hs hlabel h
      exact .inr (.inr ⟨ss, rfl, hrest.symm⟩)
    | cons t ts =>
      obtain ⟨ht, hts'⟩ := List.forall_mem_cons.1 hts
      -- Both sides start with the same text.
      rw [List.flatMap_cons, List.flatMap_cons, List.append_assoc, List.append_assoc] at h
      obtain ⟨rfl, hrest⟩ := frameText_append_inj hs ht h
      rcases ih hss hts' hrest with ⟨rfl, hsame⟩ | ⟨later, rfl, hlater⟩ | ⟨later, rfl, hlater⟩
      · exact .inl ⟨rfl, hsame⟩
      · exact .inr (.inl ⟨later, rfl, hlater⟩)
      · exact .inr (.inr ⟨later, rfl, hlater⟩)

/-! ## Inputs -/

namespace Inputs

variable {i j : Inputs}

/-- The inputs have no NUL character in names, and texts whose lengths have eight bytes. -/
structure Framable (i : Inputs) : Prop where
  /-- The library has no NUL character. -/
  library : NulFree i.library
  /-- No symbol has a NUL character. -/
  symbols : ∀ s ∈ i.symbols.toList, NulFree s
  /-- The names of files have no NUL character, and their texts are not too long. -/
  files : ∀ f ∈ i.files, IsFramable f

/-- The inputs `i` can be read as `j`: their label of the files stands for a symbol of `j`, and
their section of files starts with the later symbols of `j` and the label. -/
def ReadsAs (i j : Inputs) : Prop :=
  i.library = j.library ∧ ∃ later, j.symbols.toList = i.symbols.toList ++ "files" :: later ∧
    framedFiles i.files = later.flatMap frameText ++ (frameText "files" ++ framedFiles j.files)

/-- A stream by its sections. -/
theorem stream_eq (i : Inputs) :
    i.stream = frameText "library" ++ (frameText i.library ++ (frameText "symbols" ++
      (i.symbols.toList.flatMap frameText ++ (frameText "files" ++ framedFiles i.files)))) := by
  unfold stream framedFiles
  simp only [List.append_assoc]

/-- The symbols of a set are told by the list. -/
theorem symbols_inj (h : i.symbols.toList = j.symbols.toList) : i.symbols = j.symbols := by
  obtain ⟨_, ⟨⟨_, _⟩⟩, _⟩ := i
  obtain ⟨_, ⟨⟨_, _⟩⟩, _⟩ := j
  simpa [SymbolSet.toList] using h

/-- Inputs that can be read as others have the label of the files as a symbol there only. -/
theorem ReadsAs.label (h : i.ReadsAs j) :
    j.symbols.isDefined "files" = true ∧ i.symbols.isDefined "files" = false := by
  obtain ⟨-, later, hsymbols, -⟩ := h
  have hsorted : j.symbols.toList.Pairwise (· < ·) := j.symbols.names.sorted
  rw [hsymbols, List.pairwise_append] at hsorted
  obtain ⟨-, -, hbelow⟩ := hsorted
  refine ⟨?_, ?_⟩
  · have hmem : "files" ∈ j.symbols.toList := by
      rw [hsymbols]
      simp
    exact decide_eq_true hmem
  · refine decide_eq_false fun hmem => ?_
    exact String.lt_irrefl _ (hbelow "files" hmem "files" List.mem_cons_self)

/-- Inputs that can be read as others have one stream with them. -/
theorem ReadsAs.stream_eq (h : i.ReadsAs j) : i.stream = j.stream := by
  obtain ⟨hlibrary, later, hsymbols, hfiles⟩ := h
  rw [i.stream_eq, j.stream_eq, hlibrary, hsymbols, hfiles]
  simp only [List.flatMap_append, List.flatMap_cons, List.append_assoc]

/-- Inputs with one stream are the same, or one of them can be read as the other. -/
theorem Framable.cases_of_stream (hi : i.Framable) (hj : j.Framable) (h : i.stream = j.stream) :
    i = j ∨ i.ReadsAs j ∨ j.ReadsAs i := by
  rw [i.stream_eq, j.stream_eq] at h
  obtain ⟨hlibrary, h⟩ := frameText_append_inj hi.library hj.library (List.append_cancel_left h)
  rcases framedTexts_append_eq (by decide) hi.symbols hj.symbols (List.append_cancel_left h) with
    ⟨hsymbols, hfiles⟩ | ⟨later, hsymbols, hfiles⟩ | ⟨later, hsymbols, hfiles⟩
  · have hfiles := framedFiles_inj hi.files hj.files hfiles
    have hsymbols := symbols_inj hsymbols
    obtain ⟨_, _, _⟩ := i
    obtain ⟨_, _, _⟩ := j
    exact .inl (by simp_all)
  · exact .inr (.inl ⟨hlibrary, later, hsymbols, hfiles⟩)
  · exact .inr (.inr ⟨hlibrary.symm, later, hsymbols, hfiles⟩)

/-- Two inputs have one stream exactly when they are the same or one of them can be read as the
other. So inputs are told by their streams when the label of the files is a symbol of both or of
neither. -/
theorem stream_eq_iff (hi : i.Framable) (hj : j.Framable) :
    (i.stream = j.stream ↔ i = j ∨ i.ReadsAs j ∨ j.ReadsAs i) ∧
      (i.symbols.isDefined "files" = j.symbols.isDefined "files" →
        (i.stream = j.stream ↔ i = j)) := by
  have hcases := hi.cases_of_stream hj
  refine ⟨⟨hcases, ?_⟩, fun hlabel => ⟨fun h => ?_, congrArg stream⟩⟩
  · rintro (rfl | h | h)
    · rfl
    · exact h.stream_eq
    · exact h.stream_eq.symm
  · rcases hcases h with h | h | h
    · exact h
    · exact absurd hlabel (by simp [h.label])
    · exact absurd hlabel (by simp [h.label])

/-- No symbols, and a file with the label as its name and two NUL characters as its text. -/
def labelAsFile : Inputs := ⟨"lib", ⟨.empty⟩, [("files", "\x00\x00")]⟩

/-- The label as a symbol, and an empty file with U+0002 as its name. -/
def labelAsSymbol : Inputs := ⟨"lib", ⟨NameSet.empty.insert "files"⟩, [("\x02", "")]⟩

theorem labelAsFile_framable : labelAsFile.Framable where
  library := by decide
  symbols := by decide
  files := by
    rintro f (_ | ⟨_, ⟨⟩⟩)
    exact ⟨by decide, by decide⟩

theorem labelAsSymbol_framable : labelAsSymbol.Framable where
  library := by decide
  symbols := by decide
  files := by
    rintro f (_ | ⟨_, ⟨⟩⟩)
    exact ⟨by decide, by decide⟩

/-- A file with the name of the label reads as the label behind a symbol: two different inputs
without NUL in their names have one stream. -/
theorem stream_of_label :
    labelAsFile.Framable ∧ labelAsSymbol.Framable ∧
      labelAsFile.stream = labelAsSymbol.stream ∧ labelAsFile ≠ labelAsSymbol :=
  ⟨labelAsFile_framable, labelAsSymbol_framable, by decide, by decide⟩

/-- The two inputs with the label can be read one as the other, and inputs without the label as a
symbol are told by their streams. -/
theorem stream_eq_iff_label :
    (labelAsFile.ReadsAs labelAsSymbol ∨ labelAsSymbol.ReadsAs labelAsFile) ∧
      labelAsFile.stream ≠ ({ labelAsFile with files := [] } : Inputs).stream := by
  have hlabels := stream_eq_iff labelAsFile_framable labelAsSymbol_framable
  have hempty : ({ labelAsFile with files := [] } : Inputs).Framable :=
    ⟨labelAsFile_framable.library, labelAsFile_framable.symbols, by simp⟩
  refine ⟨(hlabels.1.1 (by decide)).resolve_left (by decide), fun h => ?_⟩
  exact absurd (((stream_eq_iff labelAsFile_framable hempty).2 rfl).1 h) (by decide)

end Inputs

end NativeBindings.Fingerprint
