import Dossier.Stability.Score
import Dossier.Synthesis.Retry

/-!
# Configurations

A configuration as someone writes it: every entry may be left out. What holds in its place
is said by `Settings`.
-/

namespace Dossier

/-- The entries of a configuration about the model. -/
structure ModelOptions where
  endpoint : Option String := none
  model : Option String := none
  /-- The environment variable that holds the key. -/
  keyVariable : Option String := none
  maxOutputTokens : Option Nat := none
  /-- In seconds. -/
  requestTimeout : Option Nat := none
deriving Repr, Inhabited

/-- How often the model is asked again, and how long is waited in between, in milliseconds. -/
structure Retries where
  maxRetries : Nat
  initialBackoff : Nat
  maxBackoff : Nat
deriving DecidableEq, Repr, Inhabited

namespace Retries

/-- The retries of a policy, in whole milliseconds. -/
def ofPolicy (p : Synthesis.RetryPolicy) : Retries :=
  ⟨p.maxRetries, p.initialBackoff.millis, p.maxBackoff.millis⟩

/-- The retries that hold where none are given. -/
def standard : Retries :=
  .ofPolicy .standard

theorem standard_eq : standard = ⟨3, 1000, 8000⟩ := by decide +kernel

end Retries

/-- The entries of a configuration about prompts and retries. -/
structure SynthesisOptions where
  tokenBudget : Option Nat := none
  maxRetries : Option Nat := none
  /-- In milliseconds. -/
  initialBackoff : Option Nat := none
  /-- In milliseconds. -/
  maxBackoff : Option Nat := none
deriving Repr, Inhabited

/-- The entries of a configuration about what is stored where. -/
structure StoreOptions where
  path : Option String := none
  artifactDirectory : Option String := none
deriving Repr, Inhabited

/-- The entries of a configuration about the ranges of figures. -/
structure RangeOptions where
  complexity : Option (MetricRange Float) := none
  modifications : Option (MetricRange Float) := none
  callSites : Option (MetricRange Float) := none
  codeLines : Option (MetricRange Float) := none
deriving Repr, Inhabited

/-- A configuration. -/
structure Config where
  /-- Patterns of which a file has to match one. -/
  included : List String := []
  /-- Patterns that shut a file out. -/
  excluded : List String := []
  ranges : RangeOptions := {}
  /-- How long a stored analysis lives, in hours. -/
  lifetimeHours : Option Int := none
  /-- How long a stage may take, in seconds. -/
  stageTimeout : Option Nat := none
  synthesis : SynthesisOptions := {}
  model : ModelOptions := {}
  store : StoreOptions := {}
deriving Repr, Inhabited

end Dossier
