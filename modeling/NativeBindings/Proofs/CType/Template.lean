import NativeBindings.Proofs.CType.Shape
import NativeBindings.Proofs.Declaration.TypeText

/-!
# Names of template instances

The name of a template instance is the last word in front of its arguments and all that follows,
without the spaces that are glued in arguments (`ofBase_of_arguments`). Done a second time, neither
part of it changes (`templateName_of_solid`, `dropSpaces_dropSpaces`).
-/

namespace NativeBindings

namespace Text

variable {glued : Char → Char → Bool}

/-- Where blanks are single spaces, a space that stays has the same neighbours as before, and so
stays again. -/
theorem dropSpaces_dropSpaces {t : Text} (h : t.IsChain MayFollow) :
    dropSpaces glued (dropSpaces glued t) = dropSpaces glued t := by
  rw [dropSpaces_comp h]
  simp only [Bool.or_self]

end Text

namespace CType

/-- The last word in front of the arguments of a template. -/
def templateName (head : Text) : Text :=
  match Text.splitLast? [' '] (Text.trimRight head) with
  | some (_, name) => name
  | none => Text.trimRight head

/-- The arguments of a template without the spaces that are glued. -/
def compact (arguments : Text) : Text := Text.dropSpaces gluedInTemplate arguments

/-- A text with arguments names the instance of a template. -/
theorem ofBase_of_arguments {head : Text} (hhead : '<' ∉ head) (arguments : Text) :
    ofBase (head ++ '<' :: arguments) =
      .named (String.ofList (templateName head ++ compact ('<' :: arguments))) := by
  have hsplit : Text.splitFirst? ['<'] (head ++ '<' :: arguments) = some (head, arguments) :=
    Text.splitFirst?_pattern hhead [] arguments
  unfold ofBase
  rw [hsplit]
  rfl

/-- The name is the end of what precedes the arguments, and holds no space. -/
theorem templateName_suffix (head : Text) :
    templateName head <:+ Text.trimRight head ∧ ' ' ∉ templateName head := by
  unfold templateName
  cases h : Text.splitLast? [' '] (Text.trimRight head) with
  | none => exact ⟨List.suffix_rfl, Text.not_mem_of_splitLast? h⟩
  | some parts => exact ⟨⟨_, (Text.eq_of_splitLast? h).symm⟩, Text.not_mem_behind_splitLast? h⟩

theorem mem_of_mem_templateName {head : Text} {c : Char} (hc : c ∈ templateName head) :
    c ∈ head := by
  have htrim : Text.trimRight head ++ takeTrailing isBlank head = head :=
    dropTrailing_append_takeTrailing _ _
  rw [← htrim]
  exact List.mem_append_left _ ((templateName_suffix head).1.subset hc)

/-- Where a word precedes the arguments, there is a name. -/
theorem templateName_ne_nil {head : Text} (h : Text.trimRight head ≠ []) :
    templateName head ≠ [] := by
  unfold templateName
  cases hsplit : Text.splitLast? [' '] (Text.trimRight head) with
  | none => exact h
  | some parts =>
    obtain ⟨before, name⟩ := parts
    rintro rfl
    -- The text would end with the space in front of the name.
    have hlast : (Text.trimRight head).getLast? = some ' ' := by
      rw [Text.eq_of_splitLast? hsplit, List.append_nil, List.getLast?_concat]
    exact absurd (Text.isBlank_of_getLast?_trimRight hlast) (by decide)

/-- A word in front of the arguments is the name. -/
theorem templateName_of_solid {w : Text} (h : Text.Solid w) : templateName w = w := by
  have hspace : ' ' ∉ w := fun hmem => absurd (h ' ' hmem) (by decide)
  unfold templateName
  rw [Text.trimRight_eq h.trimmed.last,
    Text.splitLast?_eq_none (List.mem_singleton_self ' ') hspace]

end CType

end NativeBindings
