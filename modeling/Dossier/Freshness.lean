import Dossier.Time.Instant

/-!
# Freshness of stored analyses

A stored analysis answers a request when it was made for the fingerprint of the request
and is younger than its time to live. The fingerprint is looked at first, and an analysis
that bears a later time than the present counts as young.
-/

namespace Dossier

/-- What is found of a stored analysis. -/
inductive Freshness where
  | hit
  | expired
  | fingerprintChanged
deriving DecidableEq, Repr, Inhabited

namespace Freshness

/-- The name of a finding. -/
def name : Freshness → String
  | hit => "hit"
  | expired => "expired"
  | fingerprintChanged => "fingerprint_changed"

/-- The number of nanoseconds in an hour. -/
def nanosPerHour : Nat := 3600 * Instant.nanosPerSecond

/-- How many hours an analysis lives where nothing else is said. -/
def defaultHours : Int := 24

/-- **Whether an analysis is fresh**: made at `created` for the fingerprint `stored`, and
asked for at `now` with the fingerprint `current`, when it lives `lifetime` nanoseconds. -/
def of (created now : Instant) (stored current : String) (lifetime : Int) : Freshness :=
  if stored ≠ current then fingerprintChanged
  else if now.since created < lifetime then hit
  else expired

end Freshness

end Dossier
