import Dossier.Decimal.Digits
import Dossier.Text.Blank

/-!
# Failures of the model's provider

Why the provider of the model did not answer, and whether it may answer when it is asked
again: it may after a time-out, when it asked for patience, when the network failed and
when the service was down. The status of an answer over HTTP tells these apart, and the
beginning of its body is kept.
-/

namespace Dossier.Synthesis

/-- Why the provider did not answer. -/
inductive ProviderError where
  | authentication (message : String)
  | rateLimited (message : String)
  | invalidRequest (message : String)
  | network (message : String)
  | timeout
  | serviceUnavailable (message : String)
  | invalidResponse (message : String)
  /-- The provider is not to be asked. -/
  | disabled (message : String)
deriving DecidableEq, Repr, Inhabited

namespace ProviderError

/-- The name of the kind of a reason. -/
def kind : ProviderError → String
  | authentication _ => "Authentication"
  | rateLimited _ => "RateLimited"
  | invalidRequest _ => "InvalidRequest"
  | network _ => "Network"
  | timeout => "Timeout"
  | serviceUnavailable _ => "ServiceUnavailable"
  | invalidResponse _ => "InvalidResponse"
  | disabled _ => "Disabled"

/-- The reason of a kind with a message; a timeout has none. -/
def ofKind? (kind message : String) : Option ProviderError :=
  [authentication message, rateLimited message, invalidRequest message, network message,
    timeout, serviceUnavailable message, invalidResponse message, disabled message].find?
    fun e => e.kind == kind

/-- The reason in words. -/
def text : ProviderError → String
  | authentication m => "authentication failed: " ++ m
  | rateLimited m => "rate limited: " ++ m
  | invalidRequest m => "invalid request: " ++ m
  | network m => "network error: " ++ m
  | timeout => "request timed out"
  | serviceUnavailable m => "service unavailable: " ++ m
  | invalidResponse m => "invalid response: " ++ m
  | disabled m => "llm disabled: " ++ m

/-- **Whether another attempt may succeed.** -/
def isRetryable : ProviderError → Bool
  | rateLimited _ | network _ | timeout | serviceUnavailable _ => true
  | authentication _ | invalidRequest _ | invalidResponse _ | disabled _ => false

/-- How many characters of a body are kept. -/
def bodyLimit : Nat := 200

/-- A body without blanks at its ends, cut after so many characters. -/
def shorten (body : String) : String :=
  let cs := Text.trimChars body.toList
  if cs.length ≤ bodyLimit then String.ofList cs
  else String.ofList (cs.take bodyLimit ++ ['.', '.', '.'])

/-- **The failure that a status and a body stand for.** -/
def ofStatus (status : Nat) (body : String) : ProviderError :=
  let message := "HTTP " ++ Decimal.ofNat status ++ ": " ++ shorten body
  if status = 401 ∨ status = 403 then authentication message
  else if status = 408 then timeout
  else if status = 429 then rateLimited message
  else if 500 ≤ status ∧ status ≤ 599 then serviceUnavailable message
  else invalidRequest message

end ProviderError

end Dossier.Synthesis
