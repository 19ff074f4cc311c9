import Dossier.Config.Basic
import Dossier.Decimal.Binary
import Dossier.Glob.Filter
import Dossier.Text.Slice

/-!
# What is wrong with a configuration

An entry is looked at only if it is there, except that the two backoffs are compared with
the ones that hold in their place. The entries are looked at in a fixed order: ranges,
times, the sections on prompts and on the model, patterns. The first fault that is found
is *the* fault of the configuration.
-/

namespace Dossier

/-- A figure that has a range. -/
inductive Figure where
  | complexity
  | modifications
  | callSites
  | codeLines
deriving DecidableEq, Repr, Inhabited

namespace Figure

/-- All figures, in order. -/
def all : List Figure :=
  [complexity, modifications, callSites, codeLines]

/-- The name of a figure. -/
def name : Figure → String
  | complexity => "complexity"
  | modifications => "modification_frequency"
  | callSites => "call_sites"
  | codeLines => "lines_of_code"

end Figure

/-- The range of a figure. -/
def Ranges.get {α : Type} (r : Ranges α) : Figure → MetricRange α
  | .complexity => r.complexity
  | .modifications => r.modifications
  | .callSites => r.callSites
  | .codeLines => r.codeLines

/-- The range that is given for a figure. -/
def RangeOptions.get? (r : RangeOptions) : Figure → Option (MetricRange Float)
  | .complexity => r.complexity
  | .modifications => r.modifications
  | .callSites => r.callSites
  | .codeLines => r.codeLines

namespace Config

/-- A fault of a configuration. -/
inductive Fault where
  | infiniteRange (figure : Figure) (range : MetricRange Float)
  | emptyRange (figure : Figure) (range : MetricRange Float)
  | lifetime (hours : Int)
  | stageTimeout
  | tokenBudget (tokens : Nat)
  | backoff (max initial : Nat)
  | requestTimeout
  | outputTokens
  | endpoint (address : String)
  | requiredPattern (pattern : String)
  | excludedPattern (pattern : String)
deriving Repr, Inhabited

/-- The smallest budget of a prompt. -/
def minTokenBudget : Nat := 256

/-- The fault in words; for a pattern that cannot be read, which one it is. -/
def Fault.text : Fault → String
  | infiniteRange figure range =>
    String.join
      ["ranges.", figure.name, " must be finite (got [",
        Decimal.plainFormat.write range.min, ", ", Decimal.plainFormat.write range.max, "])"]
  | emptyRange figure range =>
    String.join
      ["ranges.", figure.name, " min (", Decimal.plainFormat.write range.min,
        ") must not exceed max (", Decimal.plainFormat.write range.max, ")"]
  | lifetime hours => "cache_ttl_hours must be positive (got " ++ Decimal.ofInt hours ++ ")"
  | stageTimeout => "stage_timeout_secs must be positive (got 0)"
  | tokenBudget tokens =>
    String.join
      ["synthesis.token_budget must be at least ", Decimal.ofNat minTokenBudget, " (got ",
        Decimal.ofNat tokens, ")"]
  | backoff max initial =>
    String.join
      ["synthesis.max_backoff_ms (", Decimal.ofNat max,
        ") must not be less than initial_backoff_ms (", Decimal.ofNat initial, ")"]
  | requestTimeout => "llm.request_timeout_secs must be positive (got 0)"
  | outputTokens => "llm.max_output_tokens must be positive (got 0)"
  | endpoint address => "llm.endpoint must be an http(s) URL (got " ++ address ++ ")"
  | requiredPattern pattern => "invalid include pattern: " ++ pattern
  | excludedPattern pattern => "invalid exclude pattern: " ++ pattern

/-- The fault of a range that is given for a figure. -/
def rangeFault? (figure : Figure) : Option (MetricRange Float) → Option Fault
  | none => none
  | some range =>
    if !range.min.isFinite || !range.max.isFinite then some (.infiniteRange figure range)
    else if range.max < range.min then some (.emptyRange figure range)
    else none

/-- The fault of a time to live. -/
def lifetimeFault? : Option Int → Option Fault
  | some hours => if hours ≤ 0 then some (.lifetime hours) else none
  | none => none

/-- The fault of a number that must not be zero. -/
def zeroFault? (fault : Fault) : Option Nat → Option Fault
  | some 0 => some fault
  | _ => none

/-- The fault of a budget. -/
def budgetFault? : Option Nat → Option Fault
  | some tokens => if tokens < minTokenBudget then some (.tokenBudget tokens) else none
  | none => none

/-- The fault of two backoffs. -/
def backoffFault? (o : SynthesisOptions) : Option Fault :=
  let initial := o.initialBackoff.getD Retries.standard.initialBackoff
  let max := o.maxBackoff.getD Retries.standard.maxBackoff
  if max < initial then some (.backoff max initial) else none

/-- Whether a text is an address of the web. -/
def isWebAddress (s : String) : Bool :=
  (Text.dropPrefix? "http://".toList s.toList).isSome ||
    (Text.dropPrefix? "https://".toList s.toList).isSome

/-- The fault of an endpoint. -/
def endpointFault? : Option String → Option Fault
  | some address => if isWebAddress address then none else some (.endpoint address)
  | none => none

/-- The fault of the first pattern that cannot be read. -/
def patternFault? (fault : String → Fault) (patterns : List String) : Option Fault :=
  (patterns.find? fun p => (Glob.Pattern.parse? p).isNone).map fault

/-- What is found at each entry, in the order in which they are looked at. -/
def findings (c : Config) : List (Option Fault) :=
  (Figure.all.map fun f => rangeFault? f (c.ranges.get? f)) ++
    [lifetimeFault? c.lifetimeHours, zeroFault? .stageTimeout c.stageTimeout,
      budgetFault? c.synthesis.tokenBudget, backoffFault? c.synthesis,
      zeroFault? .requestTimeout c.model.requestTimeout,
      zeroFault? .outputTokens c.model.maxOutputTokens, endpointFault? c.model.endpoint,
      patternFault? .requiredPattern c.included, patternFault? .excludedPattern c.excluded]

/-- **The fault of a configuration**, if it has one. -/
def fault? (c : Config) : Option Fault :=
  c.findings.findSome? id

end Config

end Dossier
