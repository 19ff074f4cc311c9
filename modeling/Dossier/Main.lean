import Dossier.CommandLine.Session
import Dossier.Store.Saved
import Std.Time.DateTime.Timestamp

/-!
# The program

Reads the directory of the session and that of the repository, carries out the command in
the words of the command line, and saves the tables of records that it has left. It runs
no other program and calls no service, so there is neither a version control nor a model,
and artifacts are not saved.
-/

namespace Dossier.Program

/-- The entries of a directory and of all directories below it. Links are taken to lead
where they end. What cannot be read is no text. -/
partial def readEntries (entries : Array IO.FS.DirEntry) : IO (List (String × FileNode)) :=
  entries.toList.mapM fun entry => do
    let read : IO FileNode := do
      match (← entry.path.symlinkMetadata).type with
      | .dir => return .directory (← readEntries (← entry.path.readDir))
      | .symlink => return .link (← IO.FS.realPath entry.path).toString
      | _ => return .file (String.fromUTF8? (← IO.FS.readBinFile entry.path))
    let node ← try read catch _ => pure (.file none)
    return (entry.fileName, node)

/-- The tree with a directory put where it is, if there is such a directory. -/
def readDirectory (tree : FileNode) (path : String) : IO FileNode := do
  try
    let place ← IO.FS.realPath path
    let entries ← readEntries (← place.readDir)
    return tree.insert (Place.components place.toString) (.directory entries)
  catch _ => return tree

/-- The saved tables in a tree, by their paths. -/
def tablesOf (path : String) : FileNode → List (String × Table)
  | .file (some text) => ((Table.load? text).map fun t => (path, t)).toList
  | .file none | .link _ => []
  | .directory entries => entriesOf path entries
where
  /-- The saved tables in the entries of a directory. -/
  entriesOf (path : String) : List (String × FileNode) → List (String × Table)
    | [] => []
    | (name, node) :: entries =>
      tablesOf (path ++ "/" ++ name) node ++ entriesOf path entries

/-- The directory of the repository that a command is about, if it is about one. -/
def repositoryOf? : CommandLine.Command → Option String
  | .analyze o => some o.repository
  | .history o => some o.repository
  | .checkConfig _ | .showConfig _ => none

/-- The disk as far as a command is concerned with it. -/
def readDisk (directory : String) (words : List String) : IO Disk := do
  let tree ← readDirectory .empty directory
  let tree ←
    match (CommandLine.Command.ofWords? words).bind repositoryOf? with
    | none => pure tree
    | some repository => readDirectory tree (Path.join directory repository)
  return { Disk.ofTree tree with tables := tablesOf "" tree }

/-- Saves the tables on a disk that were not the same before. -/
def save (before after : Disk) : IO Unit :=
  (after.tables.filter fun t => !before.tables.contains t).forM fun (path, table) => do
    if let some (above, _) := Disk.splitLast path then
      IO.FS.createDirAll ("/" ++ "/".intercalate above)
    IO.FS.writeFile path table.save

/-- The time. -/
def now : IO Instant := do
  let nanos := (← Std.Time.Timestamp.now).toNanosecondsSinceUnixEpoch.val
  return .ofTimestamp (nanos / Instant.nanosPerSecond) (nanos % Instant.nanosPerSecond).toNat

end Dossier.Program

open Dossier in
/-- The program. -/
def main (words : List String) : IO UInt32 := do
  let directory := (← IO.FS.realPath (← IO.currentDir)).toString
  let session : CommandLine.Session :=
    { directory := directory
      git := none
      model := fun s => Synthesis.absent (s.keyVariable ++ " is not set")
      decoder := default
      now := ← Program.now }
  let before ← Program.readDisk directory words
  let (after, response) := session.run before words
  Program.save before after
  IO.print response.output
  IO.eprint response.complaint
  return response.code.toUInt32
