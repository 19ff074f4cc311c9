import Dossier.Config.Settings
import Dossier.Structure.SourceTree
import Dossier.Store.Artifacts
import Dossier.Store.Records
import Dossier.Synthesis.Retry

/-!
# Requests

A request names a function of a repository and may name a commit. How it is answered hangs
on three things, which are kept apart: the `Conditions` hold for all requests, the
`Stores` are handed on from one request to the next, and the `Circumstances` are how
everyone else behaves while a request is answered.
-/

namespace Dossier

/-- The name of the repository at a path, which goes by where the path leads if it leads
anywhere. -/
def repositoryAt (files : Place) (root : String) : String :=
  match files.resolve root with
  | .ok place => repositoryId place.path
  | .error _ => repositoryId root

namespace Analysis

/-- A request for the analysis of a function. -/
structure Request where
  root : String
  /-- The file that defines the function, from the root of the repository. -/
  file : String
  function : String
  /-- The commit to look at, instead of the working tree. -/
  commit : Option String
deriving DecidableEq, Repr, Inhabited

/-- The request for a function in a file, whose path is put into its usual form. -/
def Request.of (root file function : String) (commit : Option String) : Request :=
  ⟨root, Path.normalize file, function, commit⟩

/-- What holds for all requests. -/
structure Conditions where
  ranges : Ranges Float
  /-- How long a stored record answers requests, in nanoseconds. -/
  lifetime : Int
  /-- How long a stage may take, in seconds. -/
  stageTimeout : Nat
  filter : PathFilter
  tokenBudget : Nat
  retry : Synthesis.RetryPolicy
deriving Repr, Inhabited

/-- The conditions that settings lay down, if the time to live is a time. -/
def Conditions.ofSettings? (s : Settings) : Option Conditions :=
  s.lifetime?.map fun seconds =>
    { ranges := s.ranges
      lifetime := seconds * Instant.nanosPerSecond
      stageTimeout := s.stageTimeout
      filter := s.filter
      tokenBudget := s.tokenBudget
      retry := s.policy }

/-- What requests leave behind for later ones. -/
structure Stores (σ τ : Type) where
  records : σ
  artifacts : τ
deriving Repr, Inhabited

/-- How everyone else behaves while a request is answered. -/
structure Circumstances where
  /-- The version control, as each stage finds it. -/
  versionControl : Stage → VersionControl
  files : Place
  model : Synthesis.Provider
  /-- What decodes the replies of the model. -/
  decoder : Synthesis.Decoder
  /-- Whether the request is cancelled before anything is done. -/
  cancelled : Bool
  /-- Whether the request is cancelled during a call of the model, by its number. -/
  cancelledDuring : Nat → Bool
  /-- Whether a call of the model does not return, by its number. -/
  modelStalls : Nat → Bool := fun _ => false
  /-- The time when the age of a stored record is told. -/
  lookedUpAt : Instant
  /-- The time when a new record is made. -/
  createdAt : Instant

/-- What comes of a stage that makes calls: a failure of a call is a failure of the stage,
and a call that does not return makes the stage take too long. -/
def Conditions.finish {α : Type} (k : Conditions) (stage : Stage) (i : Inquiry α) :
    Except AnalysisError α :=
  match i.reply with
  | .answer a => .ok a
  | .failure e => .error (.repositoryAccess e)
  | .stall => .error (.stageTimeout stage k.stageTimeout)

end Analysis

end Dossier
