import Dossier.Analysis.Request
import Dossier.Proofs.Config.Retries
import Dossier.Proofs.Config.Settings

/-!
# The times of a configuration

A configuration says in hours, in seconds and in milliseconds how long things may take, and the
settings turn all these numbers into times of their own. Seconds and milliseconds have as many bits
in a configuration as in a duration, so they are durations whatever they are. Hours are not: a time
to live is counted in milliseconds, and sixty-four bits of these hold
`Dossier.Settings.longestHours` hours and no more. Of the hours of a configuration it is checked
only that they are positive, not that they are a time (`Dossier.Settings.times_exact_iff`).
-/

namespace Dossier

open Analysis (Conditions)

namespace Duration

variable {n : Nat}

theorem toNanos_ofSeconds? (h : n < UInt64.size) :
    (ofSeconds? n).map toNanos = some (n * Instant.nanosPerSecond) := by
  obtain ⟨d, hd, hnanos⟩ := exists_ofSeconds? h
  rw [hd, Option.map_some, hnanos]

theorem toNanos_ofMillis? (h : n < UInt64.size) :
    (ofMillis? n).map toNanos = some (n * nanosPerMilli) := by
  obtain ⟨d, hd, hnanos⟩ := exists_ofMillis? h
  rw [hd, Option.map_some, hnanos]

end Duration

/-! ### The bits of a configuration -/

namespace Config

/-- **Whether the numbers of a configuration have the bits that are kept of them.** Nothing is said
of the initial backoff, which no configuration without fault has longer than the maximum. -/
structure Bounded (c : Config) : Prop where
  stageTimeout : ∀ seconds ∈ c.stageTimeout, seconds < UInt64.size
  synthesis : Sized c.synthesis
  requestTimeout : ∀ seconds ∈ c.model.requestTimeout, seconds < UInt64.size

theorem requestTimeout_lt_of_ofJson? {v : Json} {o : ModelOptions}
    (h : ModelOptions.ofJson? v = some o) :
    ∀ seconds ∈ o.requestTimeout, seconds < UInt64.size := by
  rw [ModelOptions.ofJson?, Option.bind_eq_bind, Option.bind_eq_some_iff] at h
  obtain ⟨entries, -, h⟩ := h
  split at h
  · simp only [Option.bind_eq_bind, Option.bind_eq_some_iff, Option.pure_def] at h
    obtain ⟨endpoint, -, model, -, key, -, tokens, -, timeout, htimeout, h⟩ := h
    obtain rfl := Option.some.inj h
    exact Json.forall_mem_of_given? htimeout fun _ _ => Json.lt_of_natBelow?
  · cases h

/-- **Every configuration in a text is bounded.** -/
theorem bounded_of_parse? {text : String} {c : Config} (h : parse? text = some c) : c.Bounded := by
  obtain ⟨_, _, _, hseconds, -, hmodel⟩ := exists_of_parse? h
  exact ⟨Json.forall_mem_of_given? hseconds fun _ _ => Json.lt_of_natBelow?, sized_of_parse? h,
    Json.holds_of_section? hmodel (fun _ _ => requestTimeout_lt_of_ofJson?) nofun⟩

end Config

namespace Settings

variable {c : Config} {s : Settings}

/-! ### Which times there are -/

/-- **Whether the durations of settings are what is asked for**, to the nanosecond. -/
structure Punctual (s : Settings) : Prop where
  stage : s.stageDuration?.map Duration.toNanos = some (s.stageTimeout * Instant.nanosPerSecond)
  request :
    s.requestDuration?.map Duration.toNanos = some (s.requestTimeout * Instant.nanosPerSecond)
  initialWait :
    s.initialWait?.map Duration.toNanos = some (s.retry.initialBackoff * Duration.nanosPerMilli)
  longestWait :
    s.longestWait?.map Duration.toNanos = some (s.retry.maxBackoff * Duration.nanosPerMilli)

/-- The conditions that settings ask for. -/
def conditions (s : Settings) : Conditions where
  ranges := s.ranges
  lifetime := s.lifetimeHours * 3600 * Instant.nanosPerSecond
  stageTimeout := s.stageTimeout
  filter := s.filter
  tokenBudget := s.tokenBudget
  retry := s.policy

/-- The most hours that are a time to live. -/
def longestHours : Int := 2562047788015

theorem punctual_of_ofConfig (hbounded : c.Bounded) (h : ofConfig c = .ok s) : s.Punctual := by
  obtain ⟨hcompletes, hsound⟩ := promised_of_ofConfig h
  have hstage : s.stageTimeout < UInt64.size :=
    hcompletes.stageTimeout.holds hbounded.stageTimeout (by decide)
  have hrequest : s.requestTimeout < UInt64.size :=
    hcompletes.requestTimeout.holds hbounded.requestTimeout (by decide)
  have hmax : s.retry.maxBackoff < UInt64.size := by
    have hsized := hbounded.synthesis.2
    rwa [retryOf_eq, ← Stands.iff_eq_getD.mp hcompletes.maxBackoff] at hsized
  exact ⟨Duration.toNanos_ofSeconds? hstage, Duration.toNanos_ofSeconds? hrequest,
    Duration.toNanos_ofMillis? (Nat.lt_of_le_of_lt hsound.backoffs hmax),
    Duration.toNanos_ofMillis? hmax⟩

/-- Hours are a time to live up to some number of them. -/
theorem lifetime?_eq (hpos : 0 < s.lifetimeHours) : s.lifetime? =
    if s.lifetimeHours ≤ longestHours then some (s.lifetimeHours * 3600) else none := by
  have hmax : maxLifetime = 9223372036854775 := by decide
  have hfits : (-maxLifetime ≤ s.lifetimeHours * 3600 ∧ s.lifetimeHours * 3600 ≤ maxLifetime) ↔
      s.lifetimeHours ≤ longestHours := by
    rw [hmax, longestHours]
    omega
  rw [lifetime?]
  simp only [hfits]

/-- Conditions are laid down by settings whose time to live is a time. -/
theorem ofSettings?_eq (hpos : 0 < s.lifetimeHours) : Conditions.ofSettings? s =
    if s.lifetimeHours ≤ longestHours then some s.conditions else none := by
  rw [Conditions.ofSettings?, lifetime?_eq hpos]
  split <;> rfl

/-- **Which times a configuration has.** Wherever a configuration has settings, the durations of a
stage, of a request and of the waits between requests are there, and exactly what is asked for. The
time to live is there, and exactly what is asked for, up to some number of hours, and with it the
conditions of an analysis. For more hours there is none, and there are no conditions. -/
theorem times_exact_iff (hbounded : c.Bounded) (h : ofConfig c = .ok s) :
    s.Punctual ∧
      (s.lifetime? = some (s.lifetimeHours * 3600) ↔ s.lifetimeHours ≤ 2562047788015) ∧
      (Conditions.ofSettings? s = some s.conditions ↔ s.lifetimeHours ≤ 2562047788015) ∧
      (2562047788015 < s.lifetimeHours → s.lifetime? = none ∧ Conditions.ofSettings? s = none) := by
  have hpos := (promised_of_ofConfig h).2.lifetimeHours
  refine ⟨punctual_of_ofConfig hbounded h, ?_⟩
  rw [lifetime?_eq hpos, ofSettings?_eq hpos, ← longestHours]
  by_cases hle : s.lifetimeHours ≤ longestHours
  · rw [if_pos hle, if_pos hle]
    exact ⟨iff_of_true rfl hle, iff_of_true rfl hle, fun hlt => absurd hle (Int.not_le.mpr hlt)⟩
  · rw [if_neg hle, if_neg hle]
    exact ⟨iff_of_false nofun hle, iff_of_false nofun hle, fun _ => ⟨rfl, rfl⟩⟩

/-! ### A configuration for a number of hours -/

/-- The text of a configuration with nothing but a time to live. -/
def lifetimeText (hours : Int) : String :=
  (Json.object [("cache_ttl_hours", .int hours)]).compact

theorem parse?_lifetimeText {hours : Int} (hlow : -Decimal.signedLimit ≤ hours)
    (hhigh : hours < Decimal.signedLimit) :
    Config.parse? (lifetimeText hours) = some { lifetimeHours := some hours } := by
  have hreadable : Json.Readable Json.maxDepth (.object [("cache_ttl_hours", .int hours)]) := by
    refine .object fun m hm => ?_
    rw [List.mem_singleton.mp hm]
    exact .int ⟨hlow, by rw [Decimal.signedLimit] at hhigh; exact hhigh.trans (by decide)⟩
  have hsigned : Decimal.signed? hours = some hours := if_pos ⟨hlow, hhigh⟩
  have hgiven : Json.given? Json.int64? (some (.int hours)) = some (some hours) := by
    rw [Json.given?, Json.optional?, Json.int64?, hsigned, Option.map_some]
    intro hnull
    cases hnull
  rw [Config.parse?, lifetimeText, Json.parse?_compact hreadable, Option.bind_some, Config.ofJson?]
  simp [Json.fields?, Json.namedFields?, hgiven, Json.section?, Json.givenOr?]
  rfl

/-- A configuration with nothing but hours has settings with these hours. -/
theorem exists_lifetimeText (hours : Int) (hpos : 0 < hours) (hhigh : hours < Decimal.signedLimit) :
    ∃ c s, Config.parse? (lifetimeText hours) = some c ∧ ofConfig c = .ok s ∧
      s.lifetimeHours = hours := by
  -- Nothing else is given, so that there is nothing else to be faulted.
  have hfair : Config.Fair { lifetimeHours := some hours } :=
    { ranges := fun f => by cases f <;> exact nofun
      lifetimeHours := by
        rintro _ ⟨⟩
        exact hpos
      stageTimeout := nofun
      tokenBudget := nofun
      backoffs := by
        rintro _ _ ⟨⟩ ⟨⟩
        decide
      requestTimeout := nofun
      maxOutputTokens := nofun
      endpoint := nofun
      included := List.forall_mem_nil _
      excluded := List.forall_mem_nil _ }
  have hlow : -Decimal.signedLimit ≤ hours := by
    rw [Decimal.signedLimit]
    omega
  obtain ⟨s, hs, hcompletes, -⟩ := exists_ofConfig hfair
  exact ⟨_, s, parse?_lifetimeText hlow hhigh, hs, (hcompletes.lifetimeHours.of_mem rfl).symm⟩

/-- The most hours that are a time to live are one. -/
theorem times_exact_iff_longest :
    ∃ c s, Config.parse? (lifetimeText 2562047788015) = some c ∧ ofConfig c = .ok s ∧ s.Punctual ∧
      s.lifetime? = some (2562047788015 * 3600) := by
  obtain ⟨c, s, hc, hs, hhours⟩ :=
    exists_lifetimeText 2562047788015 (by decide) (by decide)
  obtain ⟨hpunctual, hlifetime, -, -⟩ := times_exact_iff (Config.bounded_of_parse? hc) hs
  refine ⟨c, s, hc, hs, hpunctual, ?_⟩
  rw [hlifetime.mpr (Int.le_of_eq hhours), hhours]

/-- **An hour more is admitted, but no time to live.** -/
theorem lifetime_beyond_longest :
    ∃ c s, Config.parse? (lifetimeText 2562047788016) = some c ∧ ofConfig c = .ok s ∧
      s.lifetime? = none ∧ Conditions.ofSettings? s = none := by
  obtain ⟨c, s, hc, hs, hhours⟩ :=
    exists_lifetimeText 2562047788016 (by decide) (by decide)
  have hlt : ¬s.lifetimeHours ≤ longestHours := by
    rw [hhours]
    decide
  have hpos := (promised_of_ofConfig hs).2.lifetimeHours
  exact ⟨c, s, hc, hs, by rw [lifetime?_eq hpos, if_neg hlt],
    by rw [ofSettings?_eq hpos, if_neg hlt]⟩

end Settings

end Dossier
