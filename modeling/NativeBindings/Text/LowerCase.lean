import NativeBindings.Text.Blank
import NativeBindings.Text.LetterCase

/-!
# Lower case

The lower case of a text. A capital sigma becomes a final sigma at the end of a word: when a cased
character precedes it and none follows it, passing over characters that have no say in this.
-/

namespace NativeBindings

namespace LetterCase

/-- Whether a character lies in one of the given ranges. -/
def inRanges (ranges : List (Nat × Nat)) (c : Char) : Bool :=
  ranges.any fun (first, last) => first ≤ c.toNat && c.toNat ≤ last

/-- Whether a run holds a character. -/
def Run.holds (r : Run) (c : Char) : Bool :=
  r.first ≤ c.toNat && c.toNat ≤ r.last && (c.toNat - r.first) % r.step == 0

/-- The lower case of a character, whatever its neighbours. -/
def lowerChar (c : Char) : Text :=
  if c = '\u0130' then ['i', '\u0307']
  else
    match lowerRuns.find? (·.holds c) with
    | some r => [Char.ofNat (c.toNat + r.shift).toNat]
    | none => [c]

/-- Whether the nearest character that has a say is cased. -/
def meetsCased (t : Text) : Bool :=
  (t.dropWhile (inRanges ignorableRanges)).head?.any (inRanges casedRanges)

end LetterCase

namespace Text

open LetterCase in
/-- The lower case of a text behind the characters `past`, of which the last one comes first. -/
def lowerAfter (past : Text) : Text → Text
  | [] => []
  | c :: cs =>
    let lower :=
      if c = '\u03A3' then
        if meetsCased past && !meetsCased cs then ['\u03C2'] else ['\u03C3']
      else lowerChar c
    lower ++ lowerAfter (c :: past) cs

/-- The lower case of a text. -/
def lower (t : Text) : Text := lowerAfter [] t

end Text

end NativeBindings
