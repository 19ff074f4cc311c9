/-!
# Stages of an analysis

An analysis looks for a stored answer, collects the history of the function, analyzes the
structure of the code, has a narrative written, and stores what was found. A failure that
does not end the analysis is noted as a degradation of the stage it happened in.
-/

namespace Dossier

/-- A stage of an analysis. -/
inductive Stage where
  | cache : Stage
  | history : Stage
  | structure : Stage
  | synthesis : Stage
  | persist : Stage
deriving DecidableEq, Repr, Inhabited

namespace Stage

/-- All stages, in order. -/
def all : List Stage :=
  [cache, history, .structure, synthesis, persist]

/-- The name of a stage. -/
def name : Stage → String
  | cache => "cache"
  | history => "history"
  | .structure => "structure"
  | synthesis => "synthesis"
  | persist => "persist"

/-- The stage with a name. -/
def ofName? (name : String) : Option Stage :=
  all.find? fun s => s.name == name

/-- A name determines its stage. -/
theorem ofName?_name (s : Stage) : ofName? s.name = some s := by
  cases s <;> rfl

end Stage

/-- A failure that was taken note of and passed over. -/
structure Degradation where
  stage : Stage
  reason : String
deriving DecidableEq, Repr, Inhabited

end Dossier
