import NativeBindings.Proofs.Comment.Carry
import NativeBindings.Proofs.Text.Words

/-!
# What a line comment says

A line comment starts at two slashes outside literals and block comments and goes on to the end of
its line. What it says is the text behind all slashes that it starts with, without the blanks around
it (`remark?`). So whatever the remark of a line is, it is written in that line behind two slashes
(`endsInRemark_readLine`), and no character is in it that the line does not have.
-/

namespace NativeBindings.Comment

/-- A line ends in a line comment that says the given text. -/
def EndsInRemark (line remark : Text) : Prop :=
  ∃ before behind, line = before ++ '/' :: '/' :: behind ∧
    remark? ('/' :: '/' :: behind) = some remark

/-- More text in front of a line comment makes no difference to it. -/
theorem EndsInRemark.append_left {line remark : Text} (h : EndsInRemark line remark)
    (front : Text) : EndsInRemark (front ++ line) remark := by
  obtain ⟨before, behind, rfl, hremark⟩ := h
  exact ⟨front ++ before, behind, (List.append_assoc _ _ _).symm, hremark⟩

/-- The remark of the rest of a line is written in it. -/
theorem endsInRemark_readFrom {kept : List Text} {place : Place} {t remark : Text}
    (h : (readFrom kept place t).remark = some remark) : EndsInRemark t remark := by
  fun_induction readFrom kept place t with
  | case1 => cases h
  | case2 => cases h
  | case3 => cases h
  | case4 seen cs ih => exact (ih h).append_left ['*', '/']
  | case5 seen c cs hclose ih => exact (ih h).append_left [c]
  | case6 q c cs ih => exact (ih h).append_left ['\\', c]
  | case7 q c cs hescape ih => exact (ih h).append_left [c]
  | case8 cs ih => exact (ih h).append_left ['/', '*']
  | case9 cs => exact ⟨[], cs, rfl, h⟩
  | case10 c cs hblock hline ih => exact (ih h).append_left [c]

/-- The remark of a line is written in it. -/
theorem endsInRemark_readLine {kept : List Text} {pending : Option Text} {line remark : Text}
    (h : (readLine kept pending line).remark = some remark) : EndsInRemark line remark := by
  rw [readLine_eq] at h
  exact endsInRemark_readFrom h

/-- A remark is part of its line. -/
theorem EndsInRemark.sublist {line remark : Text} (h : EndsInRemark line remark) :
    remark.Sublist line := by
  obtain ⟨before, behind, rfl, hremark⟩ := h
  have htrim : remark = Text.trim (('/' :: '/' :: behind).dropWhile (· == '/')) := by
    unfold remark? at hremark
    split at hremark
    · cases hremark
    · exact (Option.some.inj hremark).symm
  rw [htrim]
  exact ((Text.trim_sublist _).trans (List.dropWhile_sublist _)).trans
    (List.sublist_append_right _ _)

end NativeBindings.Comment
