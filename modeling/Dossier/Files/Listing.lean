import Dossier.Files.Tree
import Dossier.Glob.Filter
import Dossier.Order.Sorting
import Dossier.Source.Language

/-!
# Listings of source files

Which files of a directory or of a revision are source files: those whose extension is one
of a language and which a filter lets through, as long as no directory on the way is
passed over. Hidden directories are passed over, and so are those in which dependencies
and built files are kept. Links are not followed.

The listing of a directory is ordered name by name along the paths, that of a revision by
whole paths.
-/

namespace Dossier.Listing

/-- Whether the files of a directory of this name are passed over. -/
def isSkipped (name : String) : Bool :=
  name.toList.head? == some '.' ||
    ["node_modules", "target", "vendor", "dist", "build", "__pycache__"].contains name

/-- Whether a file is a source file, going by its path. -/
def isSource (filter : PathFilter) (path : String) : Bool :=
  (Language.ofPath? path).isSome && filter.accepts path

mutual

/-- The files at or below a node that has this name, as the names that lead to them;
directories that are passed over have none. -/
def filesAt (name : String) : FileNode → List (List String)
  | .file _ => [[name]]
  | .link _ => []
  | .directory entries =>
    if isSkipped name then [] else (filesBelow entries).map fun path => name :: path

/-- The files at or below the entries of a directory. -/
def filesBelow : List (String × FileNode) → List (List String)
  | [] => []
  | (name, node) :: entries => filesAt name node ++ filesBelow entries

end

/-- The names of a path with slashes between them. -/
def joinNames (names : List String) : String :=
  String.intercalate "/" names

/-- **The source files of a directory**, as the names that lead to them, in order. -/
def ofDirectory (filter : PathFilter) (entries : List (String × FileNode)) :
    List (List String) :=
  Order.sort (fun a b => !decide (b < a))
    ((filesBelow entries).filter fun names => isSource filter (joinNames names))

/-- The source files of the directory at a place, or why it cannot be listed. -/
def ofPlace (filter : PathFilter) (place : Place) (path : String) :
    Except FileError (List (List String)) :=
  match place.resolve path with
  | .error e => .error e
  | .ok ⟨.directory entries, _⟩ => .ok (ofDirectory filter entries)
  | .ok _ => .error .notADirectory

/-- Whether no directory on a path is passed over. -/
def isReached (path : String) : Bool :=
  let names := (Text.splitAt (· == '/') path.toList).map String.ofList
  !names.dropLast.any isSkipped

/-- **The source files among the paths of a revision**, in order. -/
def ofPaths (filter : PathFilter) (paths : List String) : List String :=
  Order.sort (fun a b => !decide (b < a))
    ((paths.map Path.normalize).filter fun path => isReached path && isSource filter path)

end Dossier.Listing
