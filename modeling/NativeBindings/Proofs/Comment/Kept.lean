import NativeBindings.Proofs.Comment.Carry
import NativeBindings.Proofs.Comment.Piece
import NativeBindings.Proofs.Comment.Reachable

/-!
# Which block comments stay

The code of lines is put together from the code of their pieces (`exists_hasPieces`): every block
comment gives what its own text asks for, and the text of no other piece takes part. The same holds
of the comment that lines leave open: what the reader carries on to the next line is the text of
that comment from its delimiter on. Outside comments it carries nothing, between lines and inside
them (`block_stays_iff`).
-/

namespace NativeBindings.Comment

/-! ## What a piece gives -/

/-- The text of a comment; the end of a line belongs to it as a line feed. -/
def commentText (t : List (Option Char)) : Text := t.map (·.getD '\n')

/-- The ends of lines in a text. -/
def lineEnds (t : List (Option Char)) : List (Option Char) := t.filter (·.isNone)

namespace Piece

/-- The code of a piece: a block comment gives what its text asks for. The lines that a comment goes
over stay lines. -/
def code (kept : List Text) : Piece → List (Option Char)
  | .plain c => [some c]
  | .literal t => t.map some
  | .block t => lineEnds t ++ (replacement kept (commentText t)).map some
  | .remark _ => []
  | .lineEnd => [none]
  | .unclosed t => lineEnds t

/-- The text of a block comment that is not closed. -/
def open? : Piece → Option Text
  | .unclosed t => some (commentText t)
  | _ => none

end Piece

/-! ## Reading from a place on -/

/-- What is read from a place in a line on: the code, with the ends of lines, and the text, last
character first, of the block comment that the lines leave open. -/
def run (kept : List Text) (place : Place) (t : Text) (lines : List Text) :
    List (Option Char) × Option Text :=
  let line := readFrom kept place t
  (stream (line.code :: (readLinesAfter kept line.pending lines).map (·.code)),
    openAfter line.pending lines)

/-- Behind the end of a line the next line is read. -/
theorem run_nil_cons (kept : List Text) (place : Place) (line : Text) (lines : List Text) :
    run kept place [] (line :: lines) =
      (none :: (run kept (placeOf (readFrom kept place []).pending) line lines).1,
        (run kept (placeOf (readFrom kept place []).pending) line lines).2) := by
  have hcode : (readFrom kept place []).code = [] := by cases place <;> rfl
  unfold run
  simp only [hcode, readLinesAfter, List.map_cons, openAfter_cons, stream_cons [], List.map_nil,
    List.nil_append, readLine_eq, pending_readFrom kept]

/-- A text that gives code in front of the code of another one. -/
theorem run_prepend {kept : List Text} {place place' : Place} {t t' code : Text}
    (h : readFrom kept place t = (readFrom kept place' t').prepend code) (lines : List Text) :
    run kept place t lines =
      (code.map some ++ (run kept place' t' lines).1, (run kept place' t' lines).2) := by
  unfold run
  rw [h]
  dsimp only
  rw [code_prepend, stream_append]
  rfl

/-! ## Literals and block comments -/

/-- A literal is read up to its end. -/
theorem exists_literalSpan (kept : List Text) {q : Char} (hq : isQuote q) (t : Text)
    (lines : List Text) :
    ∃ body rest, LiteralSpan q (stream (t :: lines)) body (stream (rest :: lines)) ∧
      readFrom kept (.literal q) t = (readFrom kept .code rest).prepend body := by
  -- In every case but those of a literal the place is another one.
  generalize hplace : Place.literal q = place
  fun_induction readFrom kept place t with
  | case2 => exact ⟨[], [], .lineEnd _, rfl⟩
  | case6 q' c cs ih =>
    obtain ⟨body, rest, hspan, hread⟩ := ih hplace
    refine ⟨'\\' :: c :: body, rest, ?_, by rw [hread]; rfl⟩
    rw [stream_cons_cons, stream_cons_cons]
    exact .escaped c hspan
  | case7 q' c cs hescape ih =>
    cases hplace
    rw [stream_cons_cons]
    -- The quote ends it, and a backslash ends it at the end of the line alone.
    by_cases hquote : c = q
    · subst hquote
      exact ⟨[c], cs, .quote _, by rw [if_pos rfl]⟩
    · rw [if_neg hquote] at ih ⊢
      by_cases hbackslash : c = '\\'
      · obtain rfl := eq_nil_of_not_escape hescape hbackslash
        subst hbackslash
        exact ⟨['\\'], [], .backslash _, rfl⟩
      · obtain ⟨body, rest, hspan, hread⟩ := ih rfl
        exact ⟨c :: body, rest, .char hquote hbackslash hspan, by rw [hread]; rfl⟩
  | _ => cases hplace

/-- A character in front of a text without the closing delimiter. -/
theorem NoClosing.cons {c : Option Char} {t : List (Option Char)} (h : NoClosing t)
    (hc : c = some '*' → t.head? ≠ some (some '/')) : NoClosing (c :: t) := by
  rintro hinfix
  rcases List.infix_cons_iff.1 hinfix with hprefix | hinfix
  · obtain ⟨rest, hrest⟩ := hprefix
    obtain ⟨rfl, rfl⟩ := List.cons.inj hrest
    exact hc rfl rfl
  · exact h hinfix

/-- A block comment, of which `seen` is read, is read up to its closing delimiter, on whatever line
that stands, or to the end of all lines. -/
def ReadsBlock (kept : List Text) (seen t : Text) (lines : List Text) : Prop :=
  (∃ u rest lines', stream (t :: lines) = u ++ some '*' :: some '/' :: stream (rest :: lines') ∧
    NoClosing u ∧ run kept (.block seen) t lines =
      (lineEnds u ++ (replacement kept (seen.reverse ++ commentText u)).map some ++
        (run kept .code rest lines').1, (run kept .code rest lines').2)) ∨
  (NoClosing (stream (t :: lines)) ∧ run kept (.block seen) t lines =
    (lineEnds (stream (t :: lines)),
      some (seen.reverse ++ commentText (stream (t :: lines))).reverse))

/-- A character or the end of a line that is read into a comment. -/
theorem ReadsBlock.step {kept : List Text} {seen t t' : Text} {lines lines' : List Text}
    {x : Option Char} (h : ReadsBlock kept (x.getD '\n' :: seen) t' lines')
    (hstream : stream (t :: lines) = x :: stream (t' :: lines'))
    (hopen : x = some '*' → (stream (t' :: lines')).head? ≠ some (some '/'))
    (hrun : run kept (.block seen) t lines =
      (lineEnds [x] ++ (run kept (.block (x.getD '\n' :: seen)) t' lines').1,
        (run kept (.block (x.getD '\n' :: seen)) t' lines').2)) :
    ReadsBlock kept seen t lines := by
  -- The line ends and the text of the comment begin with what is read.
  have hends : ∀ u, lineEnds (x :: u) = lineEnds [x] ++ lineEnds u := fun u =>
    List.filter_append [x] u
  have htext : ∀ u, (x.getD '\n' :: seen).reverse ++ commentText u =
      seen.reverse ++ commentText (x :: u) := by
    intro u
    rw [List.reverse_cons, List.append_assoc]
    rfl
  -- The comment is closed further on, or in no line.
  rcases h with ⟨u, rest, ls, hsplit, hu, hmore⟩ | ⟨hall, hmore⟩
  · refine .inl ⟨x :: u, rest, ls, by rw [hstream, hsplit]; rfl, hu.cons fun hx => ?_, ?_⟩
    · cases u with
      | nil => exact fun hnil => by cases hnil
      | cons c u =>
        rw [hsplit] at hopen
        exact hopen hx
    · rw [hrun, hmore, htext, hends u]
      simp only [List.append_assoc]
  · refine .inr ⟨?_, ?_⟩
    · rw [hstream]
      exact hall.cons hopen
    · rw [hrun, hmore, hstream, htext, hends (stream (t' :: lines'))]

/-- Every block comment is read like this. -/
theorem readsBlock (kept : List Text) (seen t : Text) (lines : List Text) :
    ReadsBlock kept seen t lines := by
  -- A comment goes over several lines, so the induction is on what is left of them together.
  induction hn : (stream (t :: lines)).length using Nat.strongRecOn
    generalizing seen t lines with
  | ind n ih =>
    subst hn
    match t, lines with
    | [], [] =>
      -- No line is left, and nothing closes the comment.
      refine .inr ⟨?_, by simp [run, readFrom, stream, readLinesAfter, lineEnds, commentText]⟩
      rintro ⟨a, b, hab⟩
      have hlength := congrArg List.length hab
      simp [stream] at hlength
      omega
    | [], l :: ls =>
      refine (ih _ ?_ ('\n' :: seen) l ls rfl).step (x := none) rfl (fun hx => by cases hx) ?_
      · rw [stream_cons [], List.map_nil, List.nil_append, List.length_cons]
        omega
      · rw [run_nil_cons]
        rfl
    | c :: cs, lines =>
      rw [stream_cons_cons] at ih
      -- The comment is closed here, or the character belongs to it.
      by_cases hclose : ∃ rest, c = '*' ∧ cs = '/' :: rest
      · obtain ⟨rest, rfl, rfl⟩ := hclose
        refine .inl ⟨[], rest, lines, ?_, ?_, ?_⟩
        · rw [stream_cons_cons, stream_cons_cons]
          rfl
        · rintro ⟨a, b, hab⟩
          simp at hab
        · rw [run_prepend (readFrom.eq_4 kept seen rest)]
          simp [commentText, lineEnds]
      · have hgo : readFrom kept (.block seen) (c :: cs) = readFrom kept (.block (c :: seen)) cs :=
          readFrom.eq_5 _ _ _ _ fun rest hc hcs => hclose ⟨rest, hc, hcs⟩
        refine (ih _ (by simp) (c :: seen) cs lines rfl).step (x := some c)
          (stream_cons_cons c cs lines) ?_ ?_
        · rintro hc hhead
          cases cs with
          | nil => cases hhead
          | cons d ds =>
            rw [stream_cons_cons] at hhead
            exact hclose ⟨ds, Option.some.inj hc,
              by rw [Option.some.inj (Option.some.inj hhead)]⟩
        · unfold run
          rw [hgo]
          rfl

/-! ## All pieces -/

/-- What pieces give: their code, and the text, last character first, of the comment that they leave
open. -/
def result (kept : List Text) (ps : List Piece) : List (Option Char) × Option Text :=
  (ps.flatMap (Piece.code kept), (ps.findSome? Piece.open?).map List.reverse)

/-- A piece in front of others, unless it is a comment that is not closed. -/
theorem result_cons {kept : List Text} {p : Piece} (hp : p.open? = none) (ps : List Piece) :
    result kept (p :: ps) = (p.code kept ++ (result kept ps).1, (result kept ps).2) := by
  unfold result
  rw [List.flatMap_cons, List.findSome?_cons, hp]

/-- Outside comments and literals lines are divided into pieces, and give what these give. -/
def ReadsPieces (kept : List Text) (t : Text) (lines : List Text) : Prop :=
  ∃ ps, HasPieces (stream (t :: lines)) ps ∧ run kept .code t lines = result kept ps

namespace ReadsPieces

variable {kept : List Text} {t : Text} {lines : List Text}

/-- Behind the end of a line. -/
theorem lineEnd (h : ReadsPieces kept t lines) : ReadsPieces kept [] (t :: lines) := by
  obtain ⟨ps, hps, hrun⟩ := h
  refine ⟨.lineEnd :: ps, .lineEnd hps, ?_⟩
  rw [run_nil_cons, result_cons rfl, ← hrun]
  rfl

/-- In front of a block comment, when the lines behind it are read by their pieces. -/
theorem block (h : ∀ u rest lines', stream (t :: lines) = u ++ some '*' :: some '/' ::
    stream (rest :: lines') → ReadsPieces kept rest lines') :
    ReadsPieces kept ('/' :: '*' :: t) lines := by
  have hread : run kept .code ('/' :: '*' :: t) lines = run kept (.block []) t lines := rfl
  unfold ReadsPieces
  rw [stream_cons_cons, stream_cons_cons, hread]
  rcases readsBlock kept [] t lines with ⟨u, rest, ls, hsplit, hu, hrun⟩ | ⟨hu, hrun⟩
  · obtain ⟨ps, hps, hmore⟩ := h u rest ls hsplit
    refine ⟨.block u :: ps, hsplit ▸ .block hu hps, ?_⟩
    rw [hrun, result_cons rfl, ← hmore]
    rfl
  · refine ⟨[.unclosed _], .unclosed hu, ?_⟩
    rw [hrun]
    simp [result, Piece.code, Piece.open?]

/-- In front of a line comment, behind which the line ends. -/
theorem remark (h : ReadsPieces kept [] lines) : ReadsPieces kept ('/' :: '/' :: t) lines := by
  obtain ⟨ps, hps, hrun⟩ := h
  refine ⟨.remark ('/' :: '/' :: t) :: ps, ?_, ?_⟩
  · rw [stream_cons_cons, stream_cons_cons, stream_cons]
    exact .remark t hps
  · rw [result_cons rfl, ← hrun]
    rfl

/-- In front of a literal. -/
theorem literal {q : Char} {body rest : Text} (hquote : isQuote q)
    (hspan : LiteralSpan q (stream (t :: lines)) body (stream (rest :: lines)))
    (hread : readFrom kept (.literal q) t = (readFrom kept .code rest).prepend body)
    (h : ReadsPieces kept rest lines) : ReadsPieces kept (q :: t) lines := by
  obtain ⟨ps, hps, hrun⟩ := h
  have hslash : q ≠ '/' := (ne_of_isQuote hquote).2
  have hopens : readFrom kept .code (q :: t) = (readFrom kept .code rest).prepend (q :: body) := by
    rw [readFrom.eq_10 _ _ _ (fun _ h _ => hslash h) (fun _ h _ => hslash h), if_pos hquote, hread]
    rfl
  refine ⟨.literal (q :: body) :: ps, ?_, ?_⟩
  · rw [stream_cons_cons]
    exact .literal hquote hspan hps
  · rw [run_prepend hopens, result_cons rfl, ← hrun]
    rfl

/-- In front of another character. -/
theorem plain {c : Char} (hquote : isQuote c = false)
    (hblock : ∀ rest, c = '/' → t = '*' :: rest → False)
    (hline : ∀ rest, c = '/' → t = '/' :: rest → False) (h : ReadsPieces kept t lines) :
    ReadsPieces kept (c :: t) lines := by
  obtain ⟨ps, hps, hrun⟩ := h
  have hread : readFrom kept .code (c :: t) = (readFrom kept .code t).prepend [c] := by
    rw [readFrom.eq_10 _ _ _ hblock hline, if_neg (by rw [hquote]; simp)]
  refine ⟨.plain c :: ps, ?_, ?_⟩
  · rw [stream_cons_cons]
    refine .plain hquote (fun hc => ?_) hps
    cases t with
    | nil => simp [stream_cons]
    | cons d ds =>
      rw [stream_cons_cons, List.head?_cons]
      refine ⟨fun hd => ?_, fun hd => ?_⟩
      · exact hblock ds hc (by rw [Option.some.inj (Option.some.inj hd)])
      · exact hline ds hc (by rw [Option.some.inj (Option.some.inj hd)])
  · rw [run_prepend hread, result_cons rfl, ← hrun]
    rfl

end ReadsPieces

/-- A literal is not shorter than nothing. -/
theorem LiteralSpan.length_le {q : Char} {s s' : List (Option Char)} {t : Text}
    (h : LiteralSpan q s t s') : s'.length ≤ s.length := by
  induction h <;> simp only [List.length_cons] <;> omega

/-- Lines are read by their pieces. -/
theorem readsPieces (kept : List Text) (t : Text) (lines : List Text) :
    ReadsPieces kept t lines := by
  -- Each piece leaves less of the lines, and a comment or a literal may leave any smaller part.
  induction hn : (stream (t :: lines)).length using Nat.strongRecOn generalizing t lines with
  | ind n ih =>
    subst hn
    match t, lines with
    | [], [] => exact ⟨[.lineEnd], .lineEnd .nil, rfl⟩
    | [], l :: ls => exact (ih _ (by rw [stream_cons []]; simp) l ls rfl).lineEnd
    | c :: cs, lines =>
      -- What starts here: a block comment, a line comment, a literal, or none of them.
      by_cases hblock : ∃ rest, c = '/' ∧ cs = '*' :: rest
      · obtain ⟨rest, rfl, rfl⟩ := hblock
        refine .block fun u rest' ls hsplit => ih _ ?_ rest' ls rfl
        rw [stream_cons_cons, stream_cons_cons, hsplit]
        simp
        omega
      by_cases hline : ∃ rest, c = '/' ∧ cs = '/' :: rest
      · obtain ⟨rest, rfl, rfl⟩ := hline
        refine .remark (ih _ ?_ [] lines rfl)
        rw [stream_cons, stream_cons]
        simp
        omega
      cases hquote : isQuote c with
      | true =>
        obtain ⟨body, rest, hspan, hread⟩ := exists_literalSpan kept hquote cs lines
        refine .literal hquote hspan hread (ih _ ?_ rest lines rfl)
        rw [stream_cons_cons]
        exact Nat.lt_succ_of_le hspan.length_le
      | false =>
        refine .plain hquote (fun rest hc hcs => hblock ⟨rest, hc, hcs⟩)
          (fun rest hc hcs => hline ⟨rest, hc, hcs⟩) (ih _ ?_ cs lines rfl)
        rw [stream_cons_cons]
        exact Nat.lt_succ_self _

/-- Lines divide into pieces, and their code is the code of these. -/
theorem exists_hasPieces (kept lines : List Text) :
    ∃ ps, HasPieces (stream lines) ps ∧
      stream ((readLines kept lines).map (·.code)) = ps.flatMap (Piece.code kept) ∧
      (openAfter none lines).map List.reverse = ps.findSome? Piece.open? := by
  cases lines with
  | nil => exact ⟨[], .nil, rfl, rfl⟩
  | cons l ls =>
    obtain ⟨ps, hps, hrun⟩ := readsPieces kept l ls
    have hline : readLine kept none l = readFrom kept .code l := readLine_eq kept none l
    obtain ⟨hcode, hopen⟩ := Prod.mk.inj hrun
    refine ⟨ps, hps, ?_, ?_⟩
    · rw [readLines_eq, readLinesAfter, hline]
      exact hcode
    · rw [openAfter_cons, ← pending_readLine kept, hline, hopen, Option.map_map]
      simp

/-- In every state that the reader reaches in lines it has no text outside comments, and the states
between lines are among those reached. The lines divide into pieces in one way only, and their code
is the code of these pieces: a block comment stays if its own text, trimmed, is one of the kept
words, and leaves a space if it is not. What the reader carries on behind the lines is the text of
the comment that they leave open, from its delimiter on, and nothing when they leave none open. -/
theorem block_stays_iff (kept lines : List Text) :
    (∀ r quote rest, Reached kept lines r quote rest → r.inBlock = false → r.block = []) ∧
    (∀ before after, lines = before ++ after →
      Reached kept lines (({} : LineReader).stripAll kept before).2 none after) ∧
    ∃ ps, (∀ qs, HasPieces (stream lines) qs ↔ qs = ps) ∧
      stream ((readLines kept lines).map (·.code)) = ps.flatMap (Piece.code kept) ∧
      (({} : LineReader).stripAll kept lines).2 =
        (match ps.findSome? Piece.open? with
        | none => { inBlock := false, block := [] }
        | some text => { inBlock := true, block := text.reverse }) ∧
      ∀ t,
        ((Piece.block t).code kept =
          lineEnds t ++ (" /*".toList ++ (commentText t).trim ++ "*/ ".toList).map some ↔
            (commentText t).trim ∈ kept) ∧
        ((Piece.block t).code kept = lineEnds t ++ [some ' '] ↔ (commentText t).trim ∉ kept) := by
  obtain ⟨ps, hps, hcode, hopen⟩ := exists_hasPieces kept lines
  refine ⟨fun r quote rest h => h.clean, ?_, ps,
    fun qs => ⟨fun hqs => hqs.unique hps, fun h => h ▸ hps⟩, hcode, ?_, fun t => ?_⟩
  · rintro before after rfl
    exact Reached.start.stripAll
  · -- Behind the lines the reader has the comment that is open there.
    have hbehind : (({} : LineReader).stripAll kept lines).2 = .ofPending (openAfter none lines) :=
      congrArg Prod.snd (stripAll_ofPending kept none lines)
    rw [hbehind, ← hopen]
    cases openAfter none lines with
    | none => rfl
    | some text => exact congrArg (LineReader.mk true) (List.reverse_reverse text).symm
  · by_cases hkept : (commentText t).trim ∈ kept <;> simp [Piece.code, replacement, hkept]

/-- Two comments on one line, of which the second one ends on the next line and says the kept word.
When the first one has closed, nothing of it is left for the second one. -/
theorem block_stays_iff_array :
    let kept := ["ARRAY".toList]
    let lines := ["a/*b*/c/* ARRAY".toList, "*/d".toList]
    (∃ r, Reached kept lines r none ["c/* ARRAY".toList, "*/d".toList] ∧ r.inBlock = false ∧
      r.block = []) ∧
    (∃ r, Reached kept lines r none ["*/d".toList] ∧ r.block = " ARRAY\n".toList.reverse) ∧
    (readLines kept lines).map (·.code) = ["a c".toList, " /*ARRAY*/ d".toList] := by
  intro kept lines
  obtain ⟨houtside, hbetween, -⟩ := block_stays_iff kept lines
  -- The first comment, round by round.
  have hline : lines =
      ('a' :: '/' :: '*' :: 'b' :: '*' :: '/' :: "c/* ARRAY".toList) :: ["*/d".toList] := by
    decide +kernel
  have hstart : Reached kept lines {} none
      (('a' :: '/' :: '*' :: 'b' :: '*' :: '/' :: "c/* ARRAY".toList) :: ["*/d".toList]) :=
    hline ▸ .start
  have hopened : Reached kept lines { inBlock := true } none _ := (hstart.one rfl).two rfl
  have hclosed : Reached kept lines {} none ["c/* ARRAY".toList, "*/d".toList] :=
    (hopened.one rfl).two rfl
  refine ⟨⟨_, hclosed, rfl, houtside _ _ _ hclosed rfl⟩,
    ⟨_, hbetween [lines.head (by decide)] ["*/d".toList] rfl, by decide +kernel⟩, by decide +kernel⟩

end NativeBindings.Comment
