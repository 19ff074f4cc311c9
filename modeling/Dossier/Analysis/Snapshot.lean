import Dossier.Analysis.Request
import Dossier.Text.Blank

/-!
# What an analysis looks at

Before anything else it is settled which source an analysis reads and which fingerprint
names it. A commit is read as it was committed and is its own fingerprint. Without a
commit the working tree is read. Its fingerprint is the head of the repository as long as
the file says the same there, blanks at the ends apart; otherwise a digest of the file is
added, to the head or to a word that stands for none.
-/

namespace Dossier.Analysis

/-- Stands for the head of a repository that has none. -/
def noHead : String := "worktree"

/-- How many digits of the digest of a file a fingerprint has. -/
def contentDigestLength : Nat := 16

/-- The digest of a file as part of a fingerprint. -/
def contentDigest (content : String) : String :=
  String.ofList ((Sha256.hexOfText content).take contentDigestLength)

/-- **The fingerprint of the working tree**, given the head, the file as it was committed
and the file as it is. -/
def fingerprint (head committed current : Option String) : String :=
  let base := head.getD noHead
  match current with
  | none => base
  | some content =>
    if head.isSome && committed.map Text.trim == some (Text.trim content) then base
    else base ++ "+" ++ contentDigest content

/-- What an analysis looks at. -/
structure Snapshot where
  fingerprint : String
  tree : SourceTree
  /-- The revision that the history leads to. -/
  revision : String
  /-- What went wrong on the way. -/
  remarks : List Degradation

/-- What is seen of the working tree: the head or why it is not known, the file as it was
committed, and the file as it is. -/
structure Sight where
  head : Except String String
  committed : Option String
  current : Option String

namespace Sight

/-- Looks at the working tree. -/
def inquiry (v : VersionControl) (files : Place) (root path : String) : Inquiry Sight := do
  let current := (files.readText (Path.join root path)).toOption
  match ← (Inquiry.ask v (.resolve "HEAD")).attempt with
  | .error e => return ⟨.error e.text, none, current⟩
  | .ok head =>
    let committed ← (Inquiry.ask v (.showFile head path)).attempt
    return ⟨.ok head, committed.toOption.bind id, current⟩

/-- What is seen when the version control does not return. -/
def ofError (e : AnalysisError) : Sight :=
  ⟨.error e.text, none, none⟩

/-- The remark on a head that is not known. -/
def remarks (s : Sight) : List Degradation :=
  match s.head with
  | .ok _ => []
  | .error reason =>
    [⟨.history, "cannot resolve HEAD, analyzing the working tree: " ++ reason⟩]

end Sight

namespace Snapshot

/-- The snapshot of a commit; one that is not known is taken by its name. -/
def ofCommit (k : Conditions) (c : Circumstances) (commit : String) : Snapshot :=
  let named (revision : String) (remarks : List Degradation) : Snapshot :=
    ⟨revision, .revision (c.versionControl .structure) revision, revision, remarks⟩
  match k.finish .history (Inquiry.ask (c.versionControl .cache) (.resolve commit)) with
  | .ok hash => named hash []
  | .error e => named commit [⟨.history, "cannot resolve " ++ commit ++ ": " ++ e.text⟩]

/-- The snapshot of the working tree. -/
def ofWorkingTree (k : Conditions) (c : Circumstances) (root path : String) : Snapshot :=
  let sight :=
    match k.finish .history (Sight.inquiry (c.versionControl .cache) c.files root path) with
    | .ok sight => sight
    | .error e => .ofError e
  { fingerprint := Analysis.fingerprint sight.head.toOption sight.committed sight.current
    tree := .workingTree c.files root
    revision := sight.head.toOption.getD "HEAD"
    remarks := sight.remarks }

/-- **What a request looks at**, for a file of the repository. -/
def take (k : Conditions) (c : Circumstances) (r : Request) (path : String) : Snapshot :=
  match r.commit with
  | some commit => ofCommit k c commit
  | none => ofWorkingTree k c r.root path

end Snapshot

end Dossier.Analysis
