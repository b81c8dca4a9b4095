import NativeBindings.Text.Search

/-!
# Identifiers and whole words

The characters of an ASCII identifier, and the search for a word that stands alone: one with no
identifier character on either side.
-/

namespace NativeBindings

/-- A character of an identifier is an ASCII letter, an ASCII digit or an underscore. -/
def isIdentChar (c : Char) : Bool := c.isAlphanum || c == '_'

/-- A text is an identifier when it starts with an ASCII letter or an underscore and holds
identifier characters only. -/
def isIdentifier : Text → Bool
  | [] => false
  | c :: cs => (c.isAlpha || c == '_') && cs.all isIdentChar

namespace Text

/-- Text between `before` and `after` stands alone when neither neighbour is an identifier
character. -/
def standsAlone (before after : Text) : Bool :=
  !before.getLast?.any isIdentChar && !after.head?.any isIdentChar

/-- A search that comes back to the same text forever. It never gives anything; its value `none`
does not say that the word was looked for and not found. -/
def searchForever : Text → Option (Text × Text) := searchForever
partial_fixpoint

theorem searchForever_eq (t : Text) : searchForever t = none := by
  rw [Option.eq_none_iff_forall_ne_some]
  intro found hfound
  exact searchForever.partial_correctness (fun _ _ => False) (fun _ ih => ih) t found hfound

/-- The search for a word in `rest`, where `past` is the text already passed. After an occurrence
that does not stand alone the search goes on behind it. Behind an occurrence of the empty word lies
the same text again, so the search for it goes on forever unless the first one stands alone. -/
def findWordAfter (word past rest : Text) : Option (Text × Text) :=
  match h : splitFirst? word rest with
  | none => none
  | some (skipped, after) =>
    if standsAlone (past ++ skipped) after then some (past ++ skipped, after)
    else if hw : word = [] then searchForever rest
    else
      have : after.length < rest.length := length_lt_of_splitFirst? hw h
      findWordAfter word (past ++ skipped ++ word) after
termination_by rest.length

/-- The text before and after the first occurrence of `word` that stands alone. For the empty word
there need not be an answer, and `none` may stand for a search that does not end
(`searchForever`). -/
def findWord? (word text : Text) : Option (Text × Text) := findWordAfter word [] text

/-- The search parts the whole text into what precedes the word, the word and what follows. -/
theorem eq_of_findWordAfter {word past rest before after : Text}
    (h : findWordAfter word past rest = some (before, after)) :
    past ++ rest = before ++ word ++ after := by
  fun_induction findWordAfter word past rest with
  | case1 => simp at h
  | case2 past rest skipped after' hs =>
    simp only [Option.some.injEq, Prod.mk.injEq] at h
    obtain ⟨rfl, rfl⟩ := h
    simp [eq_of_splitFirst? hs]
  | case3 =>
    rw [searchForever_eq] at h
    cases h
  | case4 past rest skipped after' hs _ _ _ ih =>
    rw [← ih h, eq_of_splitFirst? hs]
    simp

/-- The text behind a word that is found is no longer than the whole text. -/
theorem length_le_of_findWord? {word text before after : Text}
    (h : findWord? word text = some (before, after)) : after.length ≤ text.length := by
  have := congrArg List.length (eq_of_findWordAfter h)
  simp only [List.nil_append, List.length_append] at this
  omega

/-- The number of bytes that a text takes in UTF-8. -/
def utf8Size : Text → Nat
  | [] => 0
  | c :: cs => c.utf8Size + utf8Size cs

/-- The byte offset in UTF-8 of the first occurrence of `word` that stands alone. -/
def wordOffset? (word text : Text) : Option Nat :=
  (findWord? word text).map fun (before, _) => utf8Size before

end Text

end NativeBindings
