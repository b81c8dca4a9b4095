import NativeBindings.Declaration.ParameterText
import NativeBindings.Proofs.Text.Word

/-!
# Commas and brackets

A text is level at a depth when no comma of it parts a parameter list there: of a list that goes on
behind it, the first piece holds the whole text. A text with balanced brackets is level as long as
its commas stand inside brackets. `Spelled` is the grammar of types without tags: identifiers, the
marks `*` and `&`, the scope operator, and argument lists in angle brackets, which hold the commas.
Level texts joined by commas come apart where they were joined (`splitTopLevel_joined`).
-/

namespace NativeBindings

/-! ## Level texts -/

/-- The text does not part a parameter list at the given depth, and leaves the depth as it is. -/
def Level (depth : Int) (t : Text) : Prop :=
  ∀ rest, splitTopLevelAt depth (t ++ rest) = (splitTopLevelAt depth rest).modifyHead (t ++ ·)

namespace Level

variable {depth : Int} {t s : Text}

theorem nil (depth : Int) : Level depth [] := by
  intro rest
  rw [List.nil_append]
  cases splitTopLevelAt depth rest <;> rfl

theorem append (ht : Level depth t) (hs : Level depth s) : Level depth (t ++ s) := by
  intro rest
  rw [List.append_assoc, ht, hs, List.modifyHead_modifyHead]
  congr 1
  funext piece
  exact (List.append_assoc t s piece).symm

/-- A character that is no bracket, and no comma at depth zero. -/
theorem cons {c : Char} (hc : nesting c = 0) (hcomma : c = ',' → depth ≠ 0) (h : Level depth t) :
    Level depth (c :: t) := by
  intro rest
  rw [List.cons_append, splitTopLevelAt, if_neg fun hand => hcomma hand.1 hand.2, hc, Int.add_zero,
    h, List.modifyHead_modifyHead]
  rfl

/-- A text in brackets, which is level inside them. -/
theorem brackets (opening closing : Char) (hopening : nesting opening = 1)
    (hclosing : nesting closing = -1) (h : Level (depth + 1) t) :
    Level depth (opening :: (t ++ [closing])) := by
  have hcomma : nesting ',' = 0 := by decide
  -- Neither bracket is a comma, which leaves the depth as it is.
  have ho : opening ≠ ',' := by
    rintro rfl
    rw [hcomma] at hopening
    cases hopening
  have hc : closing ≠ ',' := by
    rintro rfl
    rw [hcomma] at hclosing
    cases hclosing
  intro rest
  have hdepth : depth + 1 + nesting closing = depth := by
    rw [hclosing]
    omega
  rw [List.cons_append, List.append_assoc, List.singleton_append, splitTopLevelAt,
    if_neg fun hand => ho hand.1, hopening, h, splitTopLevelAt, if_neg fun hand => hc hand.1,
    hdepth, List.modifyHead_modifyHead, List.modifyHead_modifyHead]
  congr 1
  funext piece
  simp

/-- Identifier characters are level at every depth. -/
theorem of_allIdent (h : AllIdent t) : Level depth t := by
  induction t with
  | nil => exact nil depth
  | cons c cs ih =>
    -- `nesting` looks for brackets only, and none of them is an identifier character.
    have hne : ∀ d : Char, isIdentChar d = false → c ≠ d := by
      rintro d hd rfl
      exact h.not_mem hd (.head cs)
    refine cons ?_ (fun heq => absurd heq (hne ',' (by decide))) (ih fun x hx => h x (.tail c hx))
    unfold nesting
    simp only [beq_iff_eq, Bool.or_eq_true, hne '(' (by decide), hne '<' (by decide),
      hne '[' (by decide), hne ')' (by decide), hne '>' (by decide), hne ']' (by decide), or_self,
      if_false]

end Level

/-- Texts with a comma and a space between neighbours. -/
def joined (ts : List Text) : Text := [',', ' '].intercalate ts

/-- Level texts that are joined come apart again. -/
theorem splitTopLevel_joined {t : Text} {ts : List Text} (h : ∀ x ∈ t :: ts, Level 0 x) :
    splitTopLevel (joined (t :: ts)) = t :: ts.map (' ' :: ·) := by
  unfold splitTopLevel
  induction ts generalizing t with
  | nil =>
    have ht := h t (.head _) []
    rw [List.append_nil] at ht
    unfold joined
    rw [List.intercalate_singleton, ht, splitTopLevelAt, List.modifyHead_cons, List.append_nil]
    rfl
  | cons s ts ih =>
    have htail := ih fun x hx => h x (.tail t hx)
    have hjoined : joined (t :: s :: ts) = t ++ ',' :: ' ' :: joined (s :: ts) := by
      unfold joined
      rw [List.intercalate_cons_cons, List.append_assoc]
      rfl
    -- The space behind the comma goes to the next piece.
    have hspace : splitTopLevelAt 0 (' ' :: joined (s :: ts)) =
        (splitTopLevelAt 0 (joined (s :: ts))).modifyHead (' ' :: ·) := by
      exact Level.cons (by decide) (by simp) (.nil 0) (joined (s :: ts))
    rw [hjoined, h t (.head _), splitTopLevelAt, if_pos ⟨rfl, rfl⟩, hspace, htail,
      List.modifyHead_cons, List.modifyHead_cons, List.append_nil, List.map_cons]

/-! ## The spelling of types -/

/-- Texts of types without tags, where a comma may stand inside an argument list only. -/
inductive Spelled : Bool → Text → Prop
  /-- Nothing. -/
  | nil (inList : Bool) : Spelled inList []
  /-- A character of an identifier. -/
  | ident {inList : Bool} {c : Char} {t : Text} (hc : isIdentChar c) (h : Spelled inList t) :
      Spelled inList (c :: t)
  /-- A mark of indirection. -/
  | mark {inList : Bool} {c : Char} {t : Text} (hc : TypeText.isMark c) (h : Spelled inList t) :
      Spelled inList (c :: t)
  /-- A space. -/
  | space {inList : Bool} {t : Text} (h : Spelled inList t) : Spelled inList (' ' :: t)
  /-- The scope operator. -/
  | scope {inList : Bool} {t : Text} (h : Spelled inList t) : Spelled inList (':' :: ':' :: t)
  /-- A comma between the arguments of a list. -/
  | comma {t : Text} (h : Spelled true t) : Spelled true (',' :: t)
  /-- A list of arguments. -/
  | list {inList : Bool} {arguments t : Text} (harguments : Spelled true arguments)
      (h : Spelled inList t) : Spelled inList ('<' :: (arguments ++ '>' :: t))

namespace Spelled

variable {inList : Bool} {t : Text}

/-- The characters of types. -/
theorem mem (h : Spelled inList t) {c : Char} (hc : c ∈ t) :
    isIdentChar c ∨ TypeText.isMark c ∨ c ∈ [' ', ':', ',', '<', '>'] := by
  induction h with
  | nil => cases hc
  | ident hident _ ih =>
    rcases List.mem_cons.1 hc with rfl | hc
    · exact .inl hident
    · exact ih hc
  | mark hmark _ ih =>
    rcases List.mem_cons.1 hc with rfl | hc
    · exact .inr (.inl hmark)
    · exact ih hc
  | space _ ih | comma _ ih =>
    rcases List.mem_cons.1 hc with rfl | hc
    · exact .inr (.inr (by simp))
    · exact ih hc
  | scope _ ih =>
    rcases List.mem_cons.1 hc with rfl | hc
    · exact .inr (.inr (by simp))
    · rcases List.mem_cons.1 hc with rfl | hc
      · exact .inr (.inr (by simp))
      · exact ih hc
  | list _ _ iharguments ih =>
    rcases List.mem_cons.1 hc with rfl | hc
    · exact .inr (.inr (by simp))
    · rcases List.mem_append.1 hc with hc | hc
      · exact iharguments hc
      · rcases List.mem_cons.1 hc with rfl | hc
        · exact .inr (.inr (by simp))
        · exact ih hc

/-- A character that no type holds. -/
theorem not_mem (h : Spelled inList t) {c : Char} (hident : isIdentChar c = false)
    (hmark : TypeText.isMark c = false) (hc : c ∉ [' ', ':', ',', '<', '>']) : c ∉ t := by
  intro hmem
  rcases h.mem hmem with h | h | h
  · rw [hident] at h
    cases h
  · rw [hmark] at h
    cases h
  · exact hc h

/-- The spelling of a type is level; inside argument lists, where the depth is not zero, commas are
too. -/
theorem level (h : Spelled inList t) {depth : Int} (hdepth : 0 ≤ depth)
    (hlist : inList = true → depth ≠ 0) : Level depth t := by
  induction h generalizing depth with
  | nil => exact .nil depth
  | @ident _ c t hc _ ih =>
    -- One identifier character is a run of them.
    have hone : Level depth [c] := Level.of_allIdent fun x hx => by
      rw [List.mem_singleton.1 hx]
      exact hc
    exact hone.append (ih hdepth hlist)
  | @mark _ c t hc _ ih =>
    unfold TypeText.isMark at hc
    rw [Bool.or_eq_true, beq_iff_eq, beq_iff_eq] at hc
    rcases hc with rfl | rfl
    · exact .cons (by decide) (by simp) (ih hdepth hlist)
    · exact .cons (by decide) (by simp) (ih hdepth hlist)
  | space _ ih => exact .cons (by decide) (by simp) (ih hdepth hlist)
  | scope _ ih =>
    exact .cons (by decide) (by simp) (.cons (by decide) (by simp) (ih hdepth hlist))
  -- A comma stands inside an argument list only, where it parts nothing.
  | comma _ ih => exact .cons (by decide) (fun _ => hlist rfl) (ih hdepth hlist)
  | @list _ arguments t _ _ iharguments ih =>
    -- Inside the brackets the depth is not zero, whatever it is around them.
    have hinside : Level (depth + 1) arguments := iharguments (by omega) (by omega)
    have hbrackets := Level.brackets '<' '>' (by decide) (by decide) hinside
    have happend := hbrackets.append (ih hdepth hlist)
    rw [List.cons_append, List.append_assoc, List.singleton_append] at happend
    exact happend

end Spelled

end NativeBindings
