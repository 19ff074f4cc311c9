import Dossier.AnalysisError
import Dossier.Files.Listing

/-!
# Source trees

Where an analysis reads source files: in the working tree of a repository, or in one of its
revisions. A working tree is read without asking the version control.
-/

namespace Dossier

/-- Where source files are read. -/
inductive SourceTree where
  /-- The files below `root`. -/
  | workingTree (files : Place) (root : String)
  /-- The files that the version control has at a revision. -/
  | revision (versionControl : VersionControl) (revision : String)

namespace SourceTree

/-- **The text of a file**, whose path is given from the root of the repository. -/
def read (path : String) : SourceTree → Inquiry (Except ReadError String)
  | workingTree files root =>
    pure ((files.readText (Path.join root path)).mapError ReadError.file)
  | revision v rev => do
    match ← (Inquiry.ask v (.showFile rev path)).attempt with
    | .ok (some text) => return .ok text
    | .ok none => return .error (.absent path rev)
    | .error e => return .error (.versionControl e)

/-- **The source files of a tree**, as paths from the root of the repository. -/
def sourceFiles (filter : PathFilter) : SourceTree → Inquiry (Except ReadError (List String))
  | workingTree files root =>
    pure <|
      match Listing.ofPlace filter files root with
      | .ok paths => .ok (paths.map fun names => Path.normalize (Listing.joinNames names))
      | .error e => .error (.file e)
  | revision v rev => do
    match ← (Inquiry.ask v (.listFiles rev)).attempt with
    | .ok paths => return .ok (Listing.ofPaths filter paths)
    | .error e => return .error (.versionControl e)

end SourceTree

end Dossier
