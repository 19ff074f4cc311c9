import Dossier.Record.Basic
import Dossier.Synthesis.Provider
import Dossier.Synthesis.Reply
import Dossier.Time.Duration

/-!
# Asking again

The model is asked once, and again after each failure that may pass, as often as the
policy allows. The wait before a retry starts at the initial backoff and doubles with
every retry; it is doubled at most thirty-one times and never exceeds the maximum. What is doubled
beyond the longest duration stays at that.

A reply ends the asking even if it is of no use, and so does a failure that will not pass.
Whatever happens there is an outcome: without a narrative, the reason stands in its place. With
the outcome goes the course of the asking, every call and every wait in order.
-/

namespace Dossier.Synthesis

/-- How often to ask again, and how long to wait in between. -/
structure RetryPolicy where
  maxRetries : Nat
  initialBackoff : Duration
  maxBackoff : Duration
deriving DecidableEq, Repr, Inhabited

namespace RetryPolicy

/-- The policy that holds where no other is given: three retries, the first after a second, and none
after more than eight. -/
def standard : RetryPolicy :=
  ⟨3, .ofNanos Instant.nanosPerSecond, .ofNanos (8 * Instant.nanosPerSecond)⟩

/-- How often a wait is doubled at most. -/
def maxDoublings : Nat := 31

/-- **The wait before a retry**; retries are counted from one. -/
def delay (p : RetryPolicy) (retry : Nat) : Duration :=
  min (p.initialBackoff.times (1 <<< min (retry - 1) maxDoublings)) p.maxBackoff

end RetryPolicy

/-- What answers the calls of a run, told how many calls have been made before. -/
abbrev Provider :=
  Nat → Except ProviderError String

/-- Stands for a model that is not to be asked. -/
def absent (reason : String) : Provider :=
  fun _ => .error (.disabled reason)

/-- What happens while the model is asked. -/
inductive Event where
  /-- A call to which there is a reply. -/
  | answered (reply : String)
  /-- A call that fails. -/
  | failed (e : ProviderError)
  /-- A wait before the next call. -/
  | waited (time : Duration)
deriving DecidableEq, Repr, Inhabited

namespace Event

/-- A call, by what came of it. -/
def call : Except ProviderError String → Event
  | .ok reply => answered reply
  | .error e => failed e

/-- The length of a wait. -/
def wait? : Event → Option Duration
  | waited time => some time
  | answered _ | failed _ => none

end Event

/-- What has come of asking the model. -/
structure Asked where
  narrative : Narrative
  recommendations : List String
  status : SynthesisStatus
  /-- The number of calls. -/
  attempts : Nat
  /-- The calls and the waits between them, in order. -/
  course : List Event
deriving DecidableEq, Repr, Inhabited

namespace Asked

/-- The waits between the calls. -/
def waits (a : Asked) : List Duration :=
  a.course.filterMap Event.wait?

/-- The outcome without a narrative. -/
def failed (reason : String) (attempts : Nat) : Asked :=
  ⟨.unavailable reason, [unavailableText reason], .incomplete reason, attempts, []⟩

/-- The outcome of a reply. -/
def ofReply (d : Decoder) (reply : String) (attempts : Nat) : Asked :=
  match readReply d reply with
  | .ok s => ⟨s.narrative, s.recommendations, .complete, attempts, []⟩
  | .error e => failed e.text attempts

/-- The reason that is given for the failure of the last call. -/
def reason (e : ProviderError) (attempts : Nat) : String :=
  if e.isRetryable then e.text ++ " (after " ++ Decimal.ofNat attempts ++ " attempts)"
  else e.text

/-- The outcome of the last call. -/
def ofLast (d : Decoder) (attempts : Nat) : Except ProviderError String → Asked
  | .ok reply => ofReply d reply attempts
  | .error e => failed (reason e attempts) attempts

/-- The outcome when one more thing has happened before all others. -/
def after (e : Event) (a : Asked) : Asked :=
  { a with course := e :: a.course }

end Asked

/-- Whether a call has failed in a way that may pass. -/
def mayPass : Except ProviderError String → Bool
  | .ok _ => false
  | .error e => e.isRetryable

section

variable (d : Decoder) (p : RetryPolicy) (provider : Provider)

/-- Asks with so many retries left, when so many calls have been made. -/
def askFrom : Nat → Nat → Asked
  | 0, calls => (Asked.ofLast d (calls + 1) (provider calls)).after (.call (provider calls))
  | retries + 1, calls =>
    Asked.after (.call (provider calls)) <|
      if mayPass (provider calls) then
        (askFrom retries (calls + 1)).after (.waited (p.delay (calls + 1)))
      else .ofLast d (calls + 1) (provider calls)

/-- **Asks the model** as often as the policy allows. -/
def ask : Asked :=
  askFrom d p provider p.maxRetries 0

end

/-! ### The reason in place of a narrative -/

namespace Asked

/-- Whether an outcome without a narrative gives the reason in place of every text. -/
def GivesReason (a : Asked) : Prop :=
  ∀ reason, a.status = .incomplete reason →
    a.narrative = .unavailable reason ∧ a.recommendations = [unavailableText reason]

theorem givesReason_failed (reason : String) (attempts : Nat) :
    (failed reason attempts).GivesReason := by
  intro reason' h
  obtain rfl := SynthesisStatus.incomplete.inj h
  exact ⟨rfl, rfl⟩

theorem givesReason_ofReply (d : Decoder) (reply : String) (attempts : Nat) :
    (ofReply d reply attempts).GivesReason := by
  unfold ofReply
  split
  · exact nofun
  · exact givesReason_failed _ _

theorem givesReason_ofLast (d : Decoder) (attempts : Nat)
    (outcome : Except ProviderError String) : (ofLast d attempts outcome).GivesReason := by
  rcases outcome with e | reply
  · exact givesReason_failed _ _
  · exact givesReason_ofReply _ _ _

theorem GivesReason.after {a : Asked} (h : a.GivesReason) (e : Event) :
    (a.after e).GivesReason :=
  h

end Asked

variable (d : Decoder) (p : RetryPolicy) (provider : Provider)

theorem givesReason_askFrom (retries calls : Nat) :
    (askFrom d p provider retries calls).GivesReason := by
  induction retries generalizing calls with
  | zero => exact (Asked.givesReason_ofLast _ _ _).after _
  | succ retries ih =>
    rw [askFrom]
    split
    · exact ((ih (calls + 1)).after _).after _
    · exact (Asked.givesReason_ofLast _ _ _).after _

/-- **A narrative that could not be had** is replaced by the reason. -/
theorem givesReason_ask : (ask d p provider).GivesReason :=
  givesReason_askFrom d p provider _ _

end Dossier.Synthesis
