import Dossier.Analysis.Snapshot
import Dossier.CallGraph.Json
import Dossier.History.Collection
import Dossier.Json.Printer
import Dossier.Structure.Analysis
import Dossier.Synthesis.Prompt

/-!
# From findings to a record

What the stages have found about a function, and what follows from it: the figures and the
score, the prompt for the model, the artifacts that are kept, and the record.
-/

namespace Dossier.Analysis

/-- What was found about a function. -/
structure Findings where
  function : FunctionRef
  structural : Structure.Analysis
  /-- The commits that touched the function, oldest first. -/
  commits : List Commit
  /-- What was passed over on the way. -/
  remarks : List Degradation
deriving Repr, Inhabited

namespace Findings

/-- The figures of the function. -/
def metrics (f : Findings) : Metrics :=
  .ofDefinition f.structural.target f.commits.length f.structural.upstream.length

/-- The score of the function. -/
def score (f : Findings) (k : Conditions) : Float :=
  Stability.score k.ranges f.metrics

/-- The place of the function in the call graph. -/
def surroundings (f : Findings) : Synthesis.Surroundings where
  targetId := f.structural.targetId
  signature := f.structural.target.signature
  upstream := f.structural.upstream
  downstream := f.structural.downstream
  impactSize := f.structural.impact.length
  indirectEdges := f.structural.graph.indirectEdges f.structural.targetId

/-- The prompt for the model. -/
def prompt (f : Findings) (k : Conditions) : Synthesis.Prompt :=
  Synthesis.prompt f.function f.commits f.surroundings
    ⟨f.metrics, f.score k, Stability.risk (f.score k)⟩ k.tokenBudget

/-- **The record** of what was found and what the model made of it. -/
def record (f : Findings) (k : Conditions) (a : Synthesis.Asked) (createdAt : Instant) :
    Record where
  function := f.function
  narrative := a.narrative
  dependencies :=
    ⟨f.structural.upstream, f.structural.downstream, f.structural.impact.length⟩
  metrics := f.metrics
  score := f.score k
  risk := Stability.risk (f.score k)
  recommendations := a.recommendations
  commits := f.commits.map Commit.digest
  synthesis := a.status
  degradations :=
    f.remarks ++
      match a.status with
      | .complete => []
      | .incomplete reason => [⟨.synthesis, reason⟩]
  createdAt := createdAt
  formatVersion := Record.currentFormat

/-- **What is kept beside the record**: the changes of the commits that have some, and the
call graph. -/
def artifacts (f : Findings) : List (ArtifactKind × List UInt8) :=
  ((f.commits.filter fun c => !c.diff.isEmpty).map fun c =>
      (.diffs, c.diff.toUTF8.toList)) ++
    [(.callGraphs,
      (f.structural.graph.neighbourhood f.structural.targetId).toJson.compact.toUTF8.toList)]

theorem artifacts_ne_nil (f : Findings) : f.artifacts ≠ [] := by
  simp [artifacts]

end Findings

end Dossier.Analysis
