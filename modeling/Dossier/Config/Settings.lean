import Dossier.Config.Fault
import Dossier.Freshness
import Dossier.Time.Duration

/-!
# Settings

What holds for an analysis: every entry of a configuration that is given, and for every
other one the value that holds in its place. A faulty configuration has no settings.

Times to live are counted in milliseconds of sixty-four bits; hours that go beyond that
denote no time.
-/

namespace Dossier

/-- Everything that an analysis is told. -/
structure Settings where
  included : List String
  excluded : List String
  filter : PathFilter
  ranges : Ranges Float
  lifetimeHours : Int
  /-- In seconds. -/
  stageTimeout : Nat
  tokenBudget : Nat
  retry : Retries
  endpoint : String
  model : String
  /-- The environment variable that holds the key of the model. -/
  keyVariable : String
  maxOutputTokens : Nat
  /-- In seconds. -/
  requestTimeout : Nat
  storePath : String
  artifactDirectory : String
  /-- The file that the configuration was read from. -/
  source : Option String
deriving Repr, Inhabited

namespace Settings

/-- The ranges that are given, and the standard ones for other figures. -/
def rangesOf (o : RangeOptions) : Ranges Float where
  complexity := o.complexity.getD Stability.defaultRanges.complexity
  modifications := o.modifications.getD Stability.defaultRanges.modifications
  callSites := o.callSites.getD Stability.defaultRanges.callSites
  codeLines := o.codeLines.getD Stability.defaultRanges.codeLines

/-- The retries that are given, with standard values for what is not. -/
def retryOf (o : SynthesisOptions) : Retries where
  maxRetries := o.maxRetries.getD Retries.standard.maxRetries
  initialBackoff := o.initialBackoff.getD Retries.standard.initialBackoff
  maxBackoff := o.maxBackoff.getD Retries.standard.maxBackoff

theorem retryOf_eq (o : SynthesisOptions) :
    retryOf o = ⟨o.maxRetries.getD 3, o.initialBackoff.getD 1000, o.maxBackoff.getD 8000⟩ := by
  rw [retryOf, Retries.standard_eq]

/-- The entries of a configuration, with standard values for those that are not given. -/
def fill (c : Config) (filter : PathFilter) : Settings where
  included := c.included
  excluded := PathFilter.exclusions c.excluded
  filter := filter
  ranges := rangesOf c.ranges
  lifetimeHours := c.lifetimeHours.getD Freshness.defaultHours
  stageTimeout := c.stageTimeout.getD 120
  tokenBudget := c.synthesis.tokenBudget.getD 4000
  retry := retryOf c.synthesis
  endpoint := c.model.endpoint.getD "https://api.anthropic.com/v1/messages"
  model := c.model.model.getD "claude-3-5-sonnet-latest"
  keyVariable := c.model.keyVariable.getD "ANTHROPIC_API_KEY"
  maxOutputTokens := c.model.maxOutputTokens.getD 1024
  requestTimeout := c.model.requestTimeout.getD 60
  storePath := c.store.path.getD ".lineage/intelligence.db"
  artifactDirectory := c.store.artifactDirectory.getD ".lineage/blobs"
  source := none

/-- **The settings of a configuration**, or its fault. The patterns of a configuration
without fault can be read. -/
def ofConfig (c : Config) : Except Config.Fault Settings :=
  match c.fault? with
  | some fault => .error fault
  | none =>
    .ok (fill c ((PathFilter.ofPatterns? c.included c.excluded).getD PathFilter.standard))

/-- The greatest time to live, in seconds: as many milliseconds have to fit into
sixty-four bits with a sign. -/
def maxLifetime : Int :=
  (Decimal.signedLimit - 1) / 1000

/-- **How long a stored analysis lives**, in seconds, if that is a time at all. -/
def lifetime? (s : Settings) : Option Int :=
  let seconds := s.lifetimeHours * 3600
  if -maxLifetime ≤ seconds ∧ seconds ≤ maxLifetime then some seconds else none

/-- How long a stage may take, if that is a duration. -/
def stageDuration? (s : Settings) : Option Duration :=
  Duration.ofSeconds? s.stageTimeout

/-- How long a call of the model may take, if that is a duration. -/
def requestDuration? (s : Settings) : Option Duration :=
  Duration.ofSeconds? s.requestTimeout

/-- The first wait between calls of the model, if that is a duration. -/
def initialWait? (s : Settings) : Option Duration :=
  Duration.ofMillis? s.retry.initialBackoff

/-- The longest wait between calls of the model, if that is a duration. -/
def longestWait? (s : Settings) : Option Duration :=
  Duration.ofMillis? s.retry.maxBackoff

/-- **How the model is asked again.** Waits that are no durations would be the longest there are. -/
def policy (s : Settings) : Synthesis.RetryPolicy where
  maxRetries := s.retry.maxRetries
  initialBackoff := s.initialWait?.getD .longest
  maxBackoff := s.longestWait?.getD .longest

/-- Where records are stored for a repository. -/
def storeIn (s : Settings) (root : String) : String :=
  Path.join root s.storePath

/-- Where artifacts are stored for a repository. -/
def artifactsIn (s : Settings) (root : String) : String :=
  Path.join root s.artifactDirectory

end Settings

end Dossier
