import Dossier.CallGraph.Basic
import Dossier.Source.SyntaxError
import Dossier.Stage
import Dossier.Store.Error
import Dossier.VersionControl.Basic

/-!
# Why an analysis fails

The causes for which an analysis or one of its stages comes to nothing, and their wording.
A failure of the structural stage is the failure of the whole analysis; it is passed on as
the cause of an unavailable analysis, and only once.
-/

namespace Dossier

/-- Why a source text could not be read. -/
inductive ReadError where
  | file (error : FileError)
  | absent (path revision : String)
  | versionControl (error : VcsError)
deriving DecidableEq, Repr, Inhabited

/-- The reason in words. -/
def ReadError.text : ReadError → String
  | file e => e.text
  | absent path revision => path ++ " does not exist at " ++ revision
  | versionControl e => e.text

/-- Why an analysis or a stage of it failed. -/
inductive AnalysisError where
  | repositoryAccess (error : VcsError)
  | parse (error : SyntaxError)
  | unsupportedLanguage (path : String)
  | graphConstruction (conflict : Conflict)
  | functionNotFound (file function : String)
  | sourceUnreadable (path : String) (error : ReadError)
  /-- A stage took longer than this many seconds. -/
  | stageTimeout (stage : Stage) (seconds : Nat)
  /-- The structural stage failed. -/
  | unavailable (cause : AnalysisError)
  | cache (error : StoreError)
  | cancelled
  /-- A stage broke down. -/
  | taskFailed (stage : Stage) (message : String)
deriving DecidableEq, Repr, Inhabited

namespace AnalysisError

/-- The name of the kind of a failure. -/
def kind : AnalysisError → String
  | repositoryAccess _ => "RepositoryAccess"
  | parse _ => "Parse"
  | unsupportedLanguage _ => "UnsupportedLanguage"
  | graphConstruction _ => "GraphConstruction"
  | functionNotFound .. => "FunctionNotFound"
  | sourceUnreadable .. => "SourceUnreadable"
  | stageTimeout .. => "StageTimeout"
  | unavailable _ => "AnalysisUnavailable"
  | cache _ => "Cache"
  | cancelled => "Cancelled"
  | taskFailed .. => "TaskFailed"

/-- The failure in words. -/
def text : AnalysisError → String
  | repositoryAccess e => "repository access failed: " ++ e.text
  | parse e => e.text
  | unsupportedLanguage path => "unsupported language for " ++ path
  | graphConstruction c => c.text
  | functionNotFound file function => "function `" ++ function ++ "` not found in " ++ file
  | sourceUnreadable path e => "failed to read " ++ path ++ ": " ++ e.text
  | stageTimeout stage seconds =>
    stage.name ++ " stage timed out after " ++ Decimal.ofNat seconds ++ "s"
  | unavailable cause => "analysis unavailable: " ++ cause.text
  | cache e => "cache error: " ++ e.text
  | cancelled => "analysis cancelled"
  | taskFailed stage message => stage.name ++ " stage task failed: " ++ message

/-- The failure of an analysis whose structural stage failed. -/
def asUnavailable : AnalysisError → AnalysisError
  | unavailable cause => unavailable cause
  | cause => unavailable cause

/-- The failure behind an unavailable analysis. -/
def rootCause : AnalysisError → AnalysisError
  | unavailable cause => cause.rootCause
  | cause => cause

/-- Passing a failure on more than once changes nothing. -/
theorem asUnavailable_idem (e : AnalysisError) :
    e.asUnavailable.asUnavailable = e.asUnavailable := by
  cases e <;> rfl

/-- Passing a failure on keeps its root. -/
theorem rootCause_asUnavailable (e : AnalysisError) :
    e.asUnavailable.rootCause = e.rootCause := by
  cases e <;> simp [asUnavailable, rootCause]

end AnalysisError

end Dossier
