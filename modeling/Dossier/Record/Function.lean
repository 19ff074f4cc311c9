import Dossier.Digest.Sha256
import Dossier.Source.Path

/-!
# Names of functions

A function is named by its repository, its file within the repository and its name within
the file; an analysis of it also bears the fingerprint of the source it was made from. The
repository is named by its directory and a digest of the whole path.
-/

namespace Dossier

/-- A function as analyzed at a fingerprint. -/
structure FunctionRef where
  repositoryId : String
  filePath : String
  functionName : String
  fingerprint : String
deriving DecidableEq, Repr, Inhabited

/-- What an analysis is stored under. -/
structure RecordKey where
  repositoryId : String
  functionKey : String
  fingerprint : String
deriving DecidableEq, Repr, Inhabited

namespace FunctionRef

/-- The function with its path written as paths within a repository are. -/
def of (repositoryId filePath functionName fingerprint : String) : FunctionRef :=
  ⟨repositoryId, Path.normalize filePath, functionName, fingerprint⟩

/-- The file and the name of the function, with a number sign between them. -/
def key (f : FunctionRef) : String :=
  f.filePath ++ "#" ++ f.functionName

/-- What the analysis of a function is stored under. -/
def recordKey (f : FunctionRef) : RecordKey :=
  ⟨f.repositoryId, f.key, f.fingerprint⟩

end FunctionRef

/-- How many digits of the digest of its path the name of a repository has. -/
def repositoryDigestLength : Nat := 12

/-- **The name of the repository at a path**: its directory and the beginning of the digest
of the path. -/
def repositoryId (root : String) : String :=
  (Path.fileName? root).getD "repository" ++ "-" ++
    String.ofList ((Sha256.hexOfText (Path.toSlashes root)).take repositoryDigestLength)

end Dossier
