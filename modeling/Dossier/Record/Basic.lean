import Dossier.Record.Commit
import Dossier.Record.Function
import Dossier.Stability.Score
import Dossier.Stage
import Dossier.Time.Instant

/-!
# Records

A record is all that an analysis found out about a function: what calls it and what it
calls, its figures and its score, its history in brief, and a narrative with
recommendations. Where the narrative could not be written, a placeholder stands in its
place that says why. The failures that were passed over on the way are kept with it.
-/

namespace Dossier

/-- What is next to a function in the call graph. -/
structure Dependencies where
  /-- The functions that call it, in order. -/
  upstream : List String
  /-- The functions it calls, in order. -/
  downstream : List String
  /-- The number of functions that a change of it can reach. -/
  impactSize : Nat
deriving DecidableEq, Repr, Inhabited

/-- The sections of a narrative. -/
structure Narrative where
  intent : String
  dependencies : String
  risk : String
deriving DecidableEq, Repr, Inhabited

/-- Whether a narrative was written. -/
inductive SynthesisStatus where
  | complete
  /-- It was not, for this reason. -/
  | incomplete (reason : String)
deriving DecidableEq, Repr, Inhabited

/-- **The outcome of an analysis.** -/
structure Record where
  function : FunctionRef
  narrative : Narrative
  dependencies : Dependencies
  metrics : Metrics
  score : Float
  risk : Risk
  recommendations : List String
  /-- The commits that touched the function, oldest first. -/
  commits : List CommitDigest
  synthesis : SynthesisStatus
  degradations : List Degradation
  createdAt : Instant
  formatVersion : Nat
deriving Repr, Inhabited

/-- What stands in the place of a text that could not be written. -/
def unavailableText (reason : String) : String :=
  "synthesis unavailable: " ++ reason

/-- A narrative that was not written. -/
def Narrative.unavailable (reason : String) : Narrative :=
  let t := unavailableText reason
  ⟨t, t, t⟩

namespace Record

/-- The version of the format in which records are stored. -/
def currentFormat : Nat := 1

/-- Whether no failure was passed over. -/
def isFullyAnalyzed (r : Record) : Bool :=
  r.degradations.isEmpty

/-- Whether the narrative is a placeholder. -/
def isPartial (r : Record) : Bool :=
  match r.synthesis with
  | .complete => false
  | .incomplete _ => true

/-- What the record is stored under. -/
def key (r : Record) : RecordKey :=
  r.function.recordKey

end Record

end Dossier
