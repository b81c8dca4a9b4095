import NativeBindings.FileTree.Basic
import NativeBindings.Text.Search

/-!
# Source files

The sources of a directory are its files with the extension `cpp`, and then those with the
extension `h`; both in order of their names.
-/

namespace NativeBindings.FileTree

/-- The path one piece further, when it leads anywhere. The leading `.` of a relative search is not
written. -/
def descend? (t : FileTree) (p : Path) (piece : Text) : Option Path :=
  let next : Path := if p.same ⟨"."⟩ then ⟨String.ofList piece⟩ else p.join ⟨String.ofList piece⟩
  let leads := if piece = ['.'] ∨ piece = ['.', '.'] then t.isDirectory p else t.pathExists next
  if leads then some next else none

/-- The directory of a search as it is written in the results, when it can be reached. -/
def searchBase? (t : FileTree) (dir : Path) : Option Path :=
  let pieces := Path.pieces (dir.text.toList ++ ['/'])
  let (start, pieces) :=
    match pieces with
    | [] :: rest => ((⟨"/"⟩ : Path), rest)
    | all => (⟨"."⟩, all)
  pieces.dropLast.foldlM t.descend? start

/-- The extensions of sources, in the order of the listing. -/
def sourceExtensions : List String := [".cpp", ".h"]

/-- The paths to the files of a directory whose names end as given. -/
def filesEnding (t : FileTree) (base : Path) (ending : String) : List Path :=
  match t.find base with
  | .ok (place, .directory) =>
    let names := (t.namesIn place).filter fun name => ending.toList.isSuffixOf name.toList
    let paths := names.map fun name => if base.same ⟨"."⟩ then ⟨name⟩ else base.join ⟨name⟩
    paths.filter t.isFile
  | _ => []

/-- The paths to the sources of a directory. -/
def sources (t : FileTree) (dir : Path) : List Path :=
  match t.searchBase? dir with
  | none => []
  | some base => sourceExtensions.flatMap (t.filesEnding base)

end NativeBindings.FileTree
