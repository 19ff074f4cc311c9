import Dossier.Files.Tree
import Dossier.Store.Artifacts

/-!
# Artifacts in a directory

Every artifact is a file of its own below a directory, compressed, at the path of its key.
A file that is there is left alone. A new one is written under another name and moved into
its place, so whoever reads finds nothing or all of it. The other name is the same for all
writers of one artifact.

The steps of writing are functions of their own, since several writers may take them at
the same time.
-/

namespace Dossier

/-- A directory with the files of artifacts, by their paths, and what is in the way of
reaching it, if anything is. -/
structure ArtifactDirectory where
  /-- Why nothing can be written below the directory. -/
  obstacle : Option FileError
  files : List (String × List UInt8)
deriving DecidableEq, Repr, Inhabited

namespace ArtifactDirectory

/-- The directory without files. -/
def empty : ArtifactDirectory :=
  ⟨none, []⟩

/-- The file of a key. -/
def fileOf (k : ArtifactKey) : String :=
  k.path ++ ".zst"

/-- The file in which the artifact of a key is written before it is moved. -/
def draftOf (k : ArtifactKey) : String :=
  k.path ++ ".tmp"

/-- The content of a file. -/
def read? (d : ArtifactDirectory) (file : String) : Option (List UInt8) :=
  (d.files.find? fun f => f.1 == file).map Prod.snd

/-- The directory with a file written, over an older one if there is one. -/
def write (d : ArtifactDirectory) (file : String) (content : List UInt8) : ArtifactDirectory :=
  { d with files := (file, content) :: d.files.filter fun f => f.1 != file }

/-- The directory with a file moved over another one, if there is such a file. -/
def move? (d : ArtifactDirectory) (source target : String) : Option ArtifactDirectory :=
  (d.read? source).map fun content =>
    { d with
      files := (target, content) :: d.files.filter fun f => f.1 != source && f.1 != target }

/-- What is wrong with the path of a file. -/
def pathFault? (file : String) : Option FileError :=
  if file.toList.contains '\x00' then some .invalidPath
  else if ((Text.splitAt (· == '/') file.toList).map String.ofList).any Place.isTooLong then
    some .nameTooLong
  else none

/-- The content under a key. -/
def get (d : ArtifactDirectory) (k : ArtifactKey) : Except StoreError (Option (List UInt8)) :=
  match pathFault? (fileOf k) with
  | some e => .error (.file e)
  | none => .ok (d.read? (fileOf k))

/-- The directory with a content under a key, unless there is one. -/
def put (d : ArtifactDirectory) (k : ArtifactKey) (content : List UInt8) :
    Except StoreError ArtifactDirectory :=
  if (d.read? (fileOf k)).isSome then .ok d
  else
    match d.obstacle <|> pathFault? (fileOf k) with
    | some e => .error (.file e)
    | none =>
      match (d.write (draftOf k) content).move? (draftOf k) (fileOf k) with
      | some d => .ok d
      | none => .error (.file .notFound)

instance : ArtifactStore ArtifactDirectory where
  get d k :=
    match d.get k with
    | .ok content => .answer content
    | .error e => .failure e
  put d k content :=
    match d.put k content with
    | .ok d => (d, .answer ())
    | .error e => (d, .failure e)

end ArtifactDirectory

end Dossier
