import Dossier.Config.Loading
import Dossier.Proofs.Json.Fields
import Dossier.Proofs.Json.Reading
import Mathlib.Order.Basic

/-!
# The retries of a configuration

The numbers of a configuration have the bits that are kept of them, and its initial backoff is not
longer than its maximum, whichever of the two are given. More is not asked of retries: those that
are admitted (`Dossier.Retries.Admitted`) are those of the settings that are read from texts
(`Dossier.Settings.exists_ofText_iff`).

A wait is the initial backoff, doubled with every retry up to the maximum. No wait is cut off at
the longest duration before it gets to the maximum, since the maximum is a duration itself
(`Dossier.Synthesis.RetryPolicy.toNanos_delay`). But doubling ends after thirty-one times, and a
maximum that is not reached by then never is.
-/

namespace Dossier

open Json (given? namedFields?)

/-! ### Entries that may be left out -/

namespace Json

variable {α : Type} {entry : Option Json} {standard : α} {given : Option α}

/-- What holds of all values that can be read holds of one that is given. -/
theorem forall_mem_of_given? {read : Json → Option α} {p : α → Prop}
    (h : given? read entry = some given) (hread : ∀ v value, read v = some value → p value) :
    ∀ value ∈ given, p value := by
  rcases entry with _ | v
  · obtain rfl := Option.some.inj h
    exact fun _ hvalue => absurd hvalue (Option.not_mem_none _)
  · rw [given?, optional?.eq_def] at h
    split at h
    · obtain rfl := Option.some.inj h
      exact fun _ hvalue => absurd hvalue (Option.not_mem_none _)
    · obtain ⟨value, hvalue, rfl⟩ := Option.map_eq_some_iff.mp h
      rintro _ ⟨⟩
      exact hread v value hvalue

/-- What holds of all values that can be read, and of the standard one, holds of an entry. -/
theorem getD_of_given? {read : Json → Option α} {p : α → Prop} (h : given? read entry = some given)
    (hread : ∀ v value, read v = some value → p value) (hstandard : p standard) :
    p (given.getD standard) := by
  cases given with
  | none => exact hstandard
  | some value => exact forall_mem_of_given? h hread value rfl

/-- What holds of all sections that can be read, and of the standard one, holds of a section. -/
theorem holds_of_section? {part : α} {read : Json → Option α} {p : α → Prop}
    (h : section? read standard entry = some part)
    (hread : ∀ v value, read v = some value → p value) (hstandard : p standard) : p part := by
  obtain ⟨given, hgiven, rfl⟩ := Option.map_eq_some_iff.mp h
  exact getD_of_given? hgiven hread hstandard

/-- A number that is given is read as it is. -/
theorem given?_natBelow? {limit n : Nat} (h : n < limit) :
    given? (natBelow? limit) (some (.ofNat n)) = some (some n) := by
  have hread : (ofNat n).natBelow? limit = some n := by
    rw [ofNat, natBelow?, if_pos ⟨Int.natCast_nonneg n, by omega⟩, Int.toNat_natCast]
  rw [given?, optional?]
  · rw [hread, Option.map_some]
  · intro hnull
    cases hnull

theorem lt_of_natBelow? {limit n : Nat} {v : Json} (h : natBelow? limit v = some n) :
    n < limit := by
  unfold natBelow? at h
  split at h
  · split at h
    · next hbounds =>
      obtain rfl := Option.some.inj h
      omega
    · cases h
  · cases h

end Json

/-! ### Which retries are admitted -/

/-- **Whether a configuration admits retries**: their numbers have the bits that are kept of them,
and the initial backoff is not longer than the maximum. -/
structure Retries.Admitted (p : Retries) : Prop where
  maxRetries_lt : p.maxRetries < UInt32.size
  initialBackoff_le : p.initialBackoff ≤ p.maxBackoff
  maxBackoff_lt : p.maxBackoff < UInt64.size

namespace Config

/-- The backoffs of a configuration without fault are in order. -/
theorem initialBackoff_le_of_fault? {c : Config} (h : c.fault? = none) :
    (Settings.retryOf c.synthesis).initialBackoff ≤ (Settings.retryOf c.synthesis).maxBackoff := by
  have hfinding : backoffFault? c.synthesis = none := by
    rw [fault?, List.findSome?_eq_none_iff] at h
    exact h (backoffFault? c.synthesis) (by simp [findings])
  rw [backoffFault?] at hfinding
  split at hfinding
  · cases hfinding
  · next hle => exact Nat.le_of_not_lt hle

/-- Whether the numbers of the retries of a section have the bits that are kept of them. -/
def Sized (o : SynthesisOptions) : Prop :=
  (Settings.retryOf o).maxRetries < UInt32.size ∧ (Settings.retryOf o).maxBackoff < UInt64.size

theorem sized_standard : Sized {} :=
  ⟨by decide, by decide⟩

theorem sized_of_ofJson? {v : Json} {o : SynthesisOptions}
    (h : SynthesisOptions.ofJson? v = some o) :
    Sized o := by
  rw [SynthesisOptions.ofJson?, Option.bind_eq_bind, Option.bind_eq_some_iff] at h
  obtain ⟨entries, -, h⟩ := h
  split at h
  · simp only [Option.bind_eq_bind, Option.bind_eq_some_iff, Option.pure_def] at h
    obtain ⟨budget, -, retries, hretries, initial, -, max, hmax, h⟩ := h
    obtain rfl := Option.some.inj h
    exact ⟨Json.getD_of_given? hretries (fun _ _ => Json.lt_of_natBelow?) (by decide),
      Json.getD_of_given? hmax (fun _ _ => Json.lt_of_natBelow?) (by decide)⟩
  · cases h

/-- **What is read of a configuration** in a text: a number of seconds and two sections, each of
them from an entry that may be left out. -/
theorem exists_of_parse? {text : String} {c : Config} (h : parse? text = some c) :
    ∃ seconds synthesis model, given? Json.nat64? seconds = some c.stageTimeout ∧
      Json.section? SynthesisOptions.ofJson? {} synthesis = some c.synthesis ∧
      Json.section? ModelOptions.ofJson? {} model = some c.model := by
  obtain ⟨v, -, h⟩ := Option.bind_eq_some_iff.mp h
  rw [ofJson?, Option.bind_eq_bind, Option.bind_eq_some_iff] at h
  obtain ⟨entries, -, h⟩ := h
  split at h
  · simp only [Option.bind_eq_bind, Option.bind_eq_some_iff, Option.pure_def] at h
    obtain ⟨_, -, _, -, _, -, _, -, _, hseconds, _, hsynthesis, _, hmodel, _, -, h⟩ := h
    obtain rfl := Option.some.inj h
    exact ⟨_, _, _, hseconds, hsynthesis, hmodel⟩
  · cases h

/-- The section that is read from a text, or stands for one that is left out, has such numbers. -/
theorem sized_of_parse? {text : String} {c : Config} (h : parse? text = some c) :
    Sized c.synthesis := by
  obtain ⟨_, _, _, -, hsynthesis, -⟩ := exists_of_parse? h
  exact Json.holds_of_section? hsynthesis (fun _ _ => sized_of_ofJson?) sized_standard

end Config

namespace Settings

variable {text : String} {s : Settings} {p : Retries}

/-- The retries of settings are admitted. -/
theorem admitted_of_ofText (h : ofText text = .ok s) : s.retry.Admitted := by
  unfold ofText at h
  split at h
  · cases h
  · next c hparse =>
    unfold ofConfig at h
    split at h
    · cases h
    · next hfault =>
      obtain rfl := Except.ok.inj h
      obtain ⟨hretries, hmax⟩ := Config.sized_of_parse? hparse
      exact ⟨hretries, Config.initialBackoff_le_of_fault? hfault, hmax⟩

/-! ### A configuration for retries -/

/-- The section on retries with all its entries. -/
def retrySection (p : Retries) : Json :=
  .object [("max_retries", .ofNat p.maxRetries), ("initial_backoff_ms", .ofNat p.initialBackoff),
    ("max_backoff_ms", .ofNat p.maxBackoff)]

/-- The text of a configuration with nothing but retries. -/
def retryText (p : Retries) : String :=
  (Json.object [("synthesis", retrySection p)]).compact

/-- A section is read entry by entry. -/
theorem ofJson?_of_fields? {v : Json} {budget retries initial max : Option Json}
    {o : SynthesisOptions}
    (hfields : v.fields? true
      (["token_budget", "max_retries", "initial_backoff_ms", "max_backoff_ms"].map
        fun n => (n, .named)) = some [budget, retries, initial, max])
    (hbudget : given? Json.nat64? budget = some o.tokenBudget)
    (hretries : given? Json.nat32? retries = some o.maxRetries)
    (hinitial : given? Json.nat64? initial = some o.initialBackoff)
    (hmax : given? Json.nat64? max = some o.maxBackoff) : SynthesisOptions.ofJson? v = some o := by
  rw [SynthesisOptions.ofJson?]
  simp only [hfields, hbudget, hretries, hinitial, hmax, Option.bind_eq_bind, Option.bind_some,
    Option.pure_def]

theorem ofJson?_retrySection (h : p.Admitted) :
    SynthesisOptions.ofJson? (retrySection p) =
      some ⟨none, some p.maxRetries, some p.initialBackoff, some p.maxBackoff⟩ :=
  ofJson?_of_fields? rfl rfl (Json.given?_natBelow? h.maxRetries_lt)
    (Json.given?_natBelow? (Nat.lt_of_le_of_lt h.initialBackoff_le h.maxBackoff_lt))
    (Json.given?_natBelow? h.maxBackoff_lt)

/-- A configuration with nothing but a section on retries is read as what the section is read as. -/
theorem ofJson?_object_synthesis {v : Json} {o : SynthesisOptions} (hnull : v ≠ .null)
    (h : SynthesisOptions.ofJson? v = some o) :
    Config.ofJson? (.object [("synthesis", v)]) = some { synthesis := o } := by
  have hsection : Json.section? SynthesisOptions.ofJson? {} (some v) = some o := by
    rw [Json.section?, given?, Json.optional?, h]
    · rfl
    · exact hnull
  rw [Config.ofJson?]
  simp [Json.fields?, namedFields?, hsection, Json.givenOr?]
  rfl

theorem parse?_retryText (h : p.Admitted) :
    Config.parse? (retryText p) =
      some
        { synthesis := ⟨none, some p.maxRetries, some p.initialBackoff, some p.maxBackoff⟩ } := by
  have hinitial := Nat.lt_of_le_of_lt h.initialBackoff_le h.maxBackoff_lt
  have hreadable : Json.Readable Json.maxDepth (.object [("synthesis", retrySection p)]) := by
    refine .object fun m hm => ?_
    rw [List.mem_singleton.mp hm]
    refine .object ?_
    simp [Json.readable_ofNat_of_lt h.maxRetries_lt, Json.readable_ofNat hinitial,
      Json.readable_ofNat h.maxBackoff_lt]
  rw [Config.parse?, retryText, Json.parse?_compact hreadable, Option.bind_some]
  exact ofJson?_object_synthesis nofun (ofJson?_retrySection h)

theorem fault?_retryText (h : p.Admitted) :
    Config.fault? { synthesis :=
      ⟨none, some p.maxRetries, some p.initialBackoff, some p.maxBackoff⟩ } = none := by
  have hbackoff : Config.backoffFault?
      ⟨none, some p.maxRetries, some p.initialBackoff, some p.maxBackoff⟩ = none :=
    if_neg (Nat.not_lt.mpr h.initialBackoff_le)
  -- All other entries are left out.
  have hfindings : Config.findings { synthesis :=
        ⟨none, some p.maxRetries, some p.initialBackoff, some p.maxBackoff⟩ } =
      List.replicate 7 none ++ Config.backoffFault?
        ⟨none, some p.maxRetries, some p.initialBackoff, some p.maxBackoff⟩ ::
          List.replicate 5 none := rfl
  rw [Config.fault?, hfindings, hbackoff]
  rfl

theorem exists_retryText (h : p.Admitted) : ∃ s, ofText (retryText p) = .ok s ∧ s.retry = p := by
  refine ⟨fill { synthesis := ⟨none, some p.maxRetries, some p.initialBackoff,
    some p.maxBackoff⟩ } ((PathFilter.ofPatterns? [] []).getD PathFilter.standard), ?_, rfl⟩
  rw [ofText, parse?_retryText h]
  dsimp only
  rw [ofConfig, fault?_retryText h]
  rfl

/-- **Which retries are admitted**: those of the settings of some configuration. -/
theorem exists_ofText_iff (p : Retries) :
    (∃ text s, ofText text = .ok s ∧ s.retry = p) ↔ p.Admitted := by
  constructor
  · rintro ⟨text, s, h, rfl⟩
    exact admitted_of_ofText h
  · intro h
    exact ⟨retryText p, exists_retryText h⟩

end Settings

/-! ### How long is waited before a retry -/

namespace Synthesis.RetryPolicy

/-- **The longest duration is not in the way** of a wait with a maximum. -/
theorem toNanos_delay (p : RetryPolicy) (retry : Nat) : (p.delay retry).toNanos =
    min (p.initialBackoff.toNanos * 2 ^ min (retry - 1) maxDoublings) p.maxBackoff.toNanos := by
  rw [delay, Duration.toNanos_min, Duration.toNanos_times, Nat.shiftLeft_eq, Nat.one_mul,
    Nat.min_assoc, Nat.min_eq_right (Duration.toNanos_le _)]

end Synthesis.RetryPolicy

namespace Settings

variable {text : String} {s : Settings}

/-- The first wait of admitted retries is a duration. -/
theorem toNanos_initialBackoff (h : s.retry.Admitted) :
    s.policy.initialBackoff.toNanos = s.retry.initialBackoff * Duration.nanosPerMilli := by
  obtain ⟨d, hd, hnanos⟩ :=
    Duration.exists_ofMillis? (Nat.lt_of_le_of_lt h.initialBackoff_le h.maxBackoff_lt)
  rw [policy, initialWait?, hd, Option.getD_some, hnanos]

/-- The longest wait of admitted retries is a duration. -/
theorem toNanos_maxBackoff (h : s.retry.Admitted) :
    s.policy.maxBackoff.toNanos = s.retry.maxBackoff * Duration.nanosPerMilli := by
  obtain ⟨d, hd, hnanos⟩ := Duration.exists_ofMillis? h.maxBackoff_lt
  rw [policy, longestWait?, hd, Option.getD_some, hnanos]

/-- A wait of admitted retries is a number of milliseconds. -/
theorem toNanos_delay (h : s.retry.Admitted) (retry : Nat) : (s.policy.delay retry).toNanos =
    min (s.retry.initialBackoff * 2 ^ min (retry - 1) 31) s.retry.maxBackoff *
      Duration.nanosPerMilli := by
  rw [Synthesis.RetryPolicy.toNanos_delay, toNanos_initialBackoff h, toNanos_maxBackoff h,
    Nat.mul_right_comm, Nat.mul_min_mul_right]
  rfl

/-- More doublings come to the same below a maximum exactly if there is nothing to double or the
maximum is reached before. -/
theorem min_mul_two_pow_eq_iff {initial max few many : Nat} (h : few < many) :
    min (initial * 2 ^ few) max = min (initial * 2 ^ many) max ↔
      initial = 0 ∨ max ≤ initial * 2 ^ few := by
  obtain ⟨more, rfl⟩ := Nat.exists_eq_add_of_lt h
  rcases Nat.eq_zero_or_pos initial with rfl | hpos
  · rw [Nat.zero_mul, Nat.zero_mul]
    exact iff_of_true rfl (Or.inl rfl)
  · have hmany : initial * 2 ^ (few + more + 1) = initial * 2 ^ few * 2 ^ more * 2 := by
      rw [Nat.pow_succ, Nat.pow_add, Nat.mul_assoc, Nat.mul_assoc, Nat.mul_assoc]
    have hfew : 0 < initial * 2 ^ few := Nat.mul_pos hpos (Nat.two_pow_pos few)
    have hmore : initial * 2 ^ few ≤ initial * 2 ^ few * 2 ^ more :=
      Nat.le_mul_of_pos_right _ (Nat.two_pow_pos more)
    rw [hmany, or_iff_right hpos.ne']
    omega

/-- **Which waits double without end**: those before the first thirty-two retries, and all others
if the maximum is reached by then. -/
theorem min_doubled_eq_iff (initial max retry : Nat) :
    min (initial * 2 ^ min (retry - 1) 31) max = min (initial * 2 ^ (retry - 1)) max ↔
      retry ≤ 32 ∨ initial = 0 ∨ max ≤ initial * 2 ^ 31 := by
  by_cases hretry : retry ≤ 32
  · have hall : min (retry - 1) 31 = retry - 1 := by omega
    rw [hall]
    exact iff_of_true rfl (Or.inl hretry)
  · have hlast : min (retry - 1) 31 = 31 := by omega
    rw [hlast, min_mul_two_pow_eq_iff (by omega), or_iff_right hretry]

/-- **How long is waited before a retry**, for all settings that a configuration can have. It is the
initial backoff doubled with every retry, but at most thirty-one times, up to the maximum, without
any other bound. This is what unlimited doubling comes to exactly for the first thirty-two retries,
for an initial backoff of zero, and for a maximum that thirty-one doublings reach. -/
theorem delay_doubled_iff (h : ofText text = .ok s) (retry : Nat) :
    (s.policy.delay retry).toNanos =
        min (s.retry.initialBackoff * 2 ^ min (retry - 1) 31) s.retry.maxBackoff *
          Duration.nanosPerMilli ∧
      ((s.policy.delay retry).toNanos =
          min (s.retry.initialBackoff * 2 ^ (retry - 1)) s.retry.maxBackoff *
            Duration.nanosPerMilli ↔
        retry ≤ 32 ∨ s.retry.initialBackoff = 0 ∨
          s.retry.maxBackoff ≤ s.retry.initialBackoff * 2 ^ 31) := by
  have hdelay := toNanos_delay (admitted_of_ofText h) retry
  refine ⟨hdelay, ?_⟩
  rw [hdelay, Nat.mul_left_inj (by decide), min_doubled_eq_iff]

/-- Retries with a small initial backoff and a large maximum. -/
def samplePatient : Retries :=
  ⟨40, 1, 2 ^ 33⟩

theorem admitted_samplePatient : samplePatient.Admitted :=
  ⟨by decide, by decide, by decide⟩

/-- The last of these retries is made after as long a wait as the thirty-second. -/
theorem delay_doubled_iff_patient :
    ∃ s, ofText (retryText samplePatient) = .ok s ∧
      (s.policy.delay 40).toNanos = 2 ^ 31 * Duration.nanosPerMilli := by
  obtain ⟨s, hs, hretry⟩ := exists_retryText admitted_samplePatient
  refine ⟨s, hs, ?_⟩
  rw [(delay_doubled_iff hs 40).1, hretry]
  decide

/-- **A wait does not double after thirty-one times**, though the maximum is not reached. -/
theorem wait_not_doubled :
    ∃ s, ofText (retryText samplePatient) = .ok s ∧
      (s.policy.delay 34).toNanos ≠
        min (s.retry.initialBackoff * 2 ^ (34 - 1)) s.retry.maxBackoff *
          Duration.nanosPerMilli := by
  obtain ⟨s, hs, hretry⟩ := exists_retryText admitted_samplePatient
  refine ⟨s, hs, ?_⟩
  rw [toNanos_delay (hretry ▸ admitted_samplePatient), hretry]
  decide

end Settings

end Dossier
