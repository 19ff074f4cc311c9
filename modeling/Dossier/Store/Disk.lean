import Dossier.Files.Tree
import Dossier.Store.Directory
import Dossier.Store.Rows

/-!
# Stores on a disk

Where the stores of repositories are kept between runs: a table in a file, and artifacts in
a directory. To open a table makes the directories that lead to it and the file, and fails
where something else stands in the way. The directory of artifacts is made when the first
one is written.
-/

namespace Dossier

/-- A tree of files, the tables among its files and the directories of artifacts, by their
paths without dots and links. -/
structure Disk where
  tree : FileNode
  tables : List (String × Table)
  directories : List (String × ArtifactDirectory)
deriving Repr, Inhabited

namespace Disk

/-- The disk that holds a tree of files and no stores. -/
def ofTree (tree : FileNode) : Disk :=
  ⟨tree, [], []⟩

/-- The root of the tree. -/
def root (d : Disk) : Place :=
  Place.root d.tree

/-- Follows names below a place and makes the directories that are missing. The result is
the tree and the place reached in it, as names from the root. -/
def makeFrom (tree : FileNode) (done : List String) :
    List String → Except FileError (FileNode × List String)
  | [] => .ok (tree, done)
  | name :: rest =>
    match (Place.root tree).resolve ("/" ++ "/".intercalate (done ++ [name])) with
    | .ok ⟨.directory es, trail⟩ => makeFrom tree (Place.names ⟨.directory es, trail⟩) rest
    | .ok _ => .error .notADirectory
    | .error .notFound =>
      makeFrom (tree.insert (done ++ [name]) FileNode.empty) (done ++ [name]) rest
    | .error e => .error e

/-- Makes the directories of a path, which starts at the root. -/
def makeDirectories (tree : FileNode) (path : String) :
    Except FileError (FileNode × List String) :=
  makeFrom tree [] (Place.components path)

/-- The names of a path but the last one, and the last one. -/
def splitLast (path : String) : Option (List String × String) :=
  match (Place.components path).reverse with
  | [] => none
  | last :: others => some (others.reverse, last)

/-- The table that a file holds, when it is one or can become one. -/
def tableAt (d : Disk) (path : String) : FileNode → Option Table
  | .file text =>
    match d.tables.lookup path with
    | some t => some t
    | none => if text = some "" then some .empty else none
  | _ => none

/-- **Opens the table in a file**, which is made if it is missing. The result is the disk
with the file, the path of the table, and the table. -/
def openTable? (d : Disk) (path : String) : Option (Disk × String × Table) := do
  let (above, last) ← splitLast path
  let (tree, names) ← (makeFrom d.tree [] above).toOption
  let d := { d with tree := tree }
  let file := "/" ++ "/".intercalate (names ++ [last])
  match (Place.root tree).resolve file with
  | .ok place => (d.tableAt place.path place.node).map fun t => (d, place.path, t)
  | .error .notFound =>
    let d := { d with tree := tree.insert (names ++ [last]) (.file none) }
    return ({ d with tables := (file, .empty) :: d.tables }, file, .empty)
  | .error _ => none

/-- The directory of artifacts at a path, and what is in the way of writing there. -/
def directoryAt (d : Disk) (path : String) : String × ArtifactDirectory :=
  match makeDirectories d.tree path with
  | .ok (_, names) =>
    let path := "/" ++ "/".intercalate names
    (path, (d.directories.lookup path).getD .empty)
  | .error e => (path, { ArtifactDirectory.empty with obstacle := some e })

/-- The disk with a table as it is now. -/
def setTable (d : Disk) (path : String) (t : Table) : Disk :=
  { d with tables := (path, t) :: d.tables.filter fun e => e.1 != path }

/-- The disk with a directory of artifacts as it is now. -/
def setDirectory (d : Disk) (path : String) (a : ArtifactDirectory) : Disk :=
  { d with directories := (path, a) :: d.directories.filter fun e => e.1 != path }

end Disk

end Dossier
