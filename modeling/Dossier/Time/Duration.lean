import Dossier.Time.Instant

/-!
# Durations

How long something takes: whole seconds, of which there are sixty-four bits, and the
nanoseconds beyond them. Numbers of seconds and milliseconds that are too great for that
denote no duration. A duration many times over stays at the longest one there is where it would be
longer (`Dossier.Duration.toNanos_times`).
-/

namespace Dossier

/-- How long something takes. -/
structure Duration where
  /-- The whole seconds. -/
  seconds : Nat
  /-- The nanoseconds beyond the whole seconds. -/
  nanos : Nat
  seconds_lt : seconds < UInt64.size
  nanos_lt : nanos < Instant.nanosPerSecond
deriving DecidableEq, Repr

namespace Duration

/-- The number of nanoseconds in a millisecond. -/
def nanosPerMilli : Nat := 1000000

/-- All the nanoseconds. -/
def toNanos (d : Duration) : Nat :=
  d.seconds * Instant.nanosPerSecond + d.nanos

/-- The duration of so many seconds. -/
def ofSeconds? (n : Nat) : Option Duration :=
  if h : n < UInt64.size then some ⟨n, 0, h, by decide⟩ else none

theorem nanos_ofMillis_lt (n : Nat) : n % 1000 * nanosPerMilli < Instant.nanosPerSecond := by
  have hrest : n % 1000 < 1000 := Nat.mod_lt n (by decide)
  simp only [nanosPerMilli, Instant.nanosPerSecond]
  omega

/-- The duration of so many milliseconds. -/
def ofMillis? (n : Nat) : Option Duration :=
  if h : n / 1000 < UInt64.size then
    some ⟨n / 1000, n % 1000 * nanosPerMilli, h, nanos_ofMillis_lt n⟩
  else none

/-- No duration. -/
def zero : Duration :=
  ⟨0, 0, by decide, by decide⟩

instance : Inhabited Duration := ⟨zero⟩

/-- The longest duration there is. -/
def longest : Duration :=
  ⟨UInt64.size - 1, Instant.nanosPerSecond - 1, by decide, by decide⟩

/-- The duration of so many nanoseconds, or the longest one if they are too many. -/
def ofNanos (n : Nat) : Duration :=
  if h : n / Instant.nanosPerSecond < UInt64.size then
    ⟨n / Instant.nanosPerSecond, n % Instant.nanosPerSecond, h, Nat.mod_lt n (by decide)⟩
  else longest

/-- **A duration so many times over**, or the longest one if that is too long. -/
def times (d : Duration) (n : Nat) : Duration :=
  ofNanos (d.toNanos * n)

/-- The whole milliseconds, of which there are sixty-four bits. -/
def millis (d : Duration) : Nat :=
  min (d.toNanos / nanosPerMilli) (UInt64.size - 1)

/-- The shorter of two durations. -/
instance : Min Duration where
  min a b := if a.toNanos ≤ b.toNanos then a else b

/-- **Seconds of sixty-four bits are a duration**, exactly. -/
theorem exists_ofSeconds? {n : Nat} (h : n < UInt64.size) :
    ∃ d, ofSeconds? n = some d ∧ d.toNanos = n * Instant.nanosPerSecond :=
  ⟨_, dif_pos h, Nat.add_zero _⟩

/-- **Milliseconds of sixty-four bits are a duration**, exactly. -/
theorem exists_ofMillis? {n : Nat} (h : n < UInt64.size) :
    ∃ d, ofMillis? n = some d ∧ d.toNanos = n * nanosPerMilli := by
  refine ⟨_, dif_pos (Nat.lt_of_le_of_lt (Nat.div_le_self n 1000) h), ?_⟩
  simp only [toNanos, nanosPerMilli, Instant.nanosPerSecond]
  omega

/-! ### The longest duration -/

theorem toNanos_le (d : Duration) : d.toNanos ≤ longest.toNanos := by
  have hseconds : d.seconds ≤ UInt64.size - 1 := Nat.le_sub_one_of_lt d.seconds_lt
  have hnanos : d.nanos ≤ Instant.nanosPerSecond - 1 := Nat.le_sub_one_of_lt d.nanos_lt
  exact Nat.add_le_add (Nat.mul_le_mul_right _ hseconds) hnanos

/-- So many nanoseconds are their duration up to the longest one. -/
theorem toNanos_ofNanos (n : Nat) : (ofNanos n).toNanos = min n longest.toNanos := by
  unfold ofNanos
  split
  · next h =>
    have hn : n / Instant.nanosPerSecond * Instant.nanosPerSecond +
        n % Instant.nanosPerSecond = n := Nat.div_add_mod' n _
    -- A number of nanoseconds that is a duration is at most the longest.
    have hle : n ≤ longest.toNanos := by
      rw [← hn]
      exact toNanos_le ⟨_, _, h, Nat.mod_lt n (by decide)⟩
    rw [Nat.min_eq_left hle]
    exact hn
  · next h =>
    have hlong : longest.toNanos < UInt64.size * Instant.nanosPerSecond := by decide
    have hle : UInt64.size * Instant.nanosPerSecond ≤ n :=
      (Nat.le_div_iff_mul_le (by decide)).mp (Nat.le_of_not_lt h)
    rw [Nat.min_eq_right (by omega)]

/-- **A duration many times over** is that product, up to the longest duration. -/
theorem toNanos_times (d : Duration) (n : Nat) :
    (d.times n).toNanos = min (d.toNanos * n) longest.toNanos :=
  toNanos_ofNanos _

theorem toNanos_min (a b : Duration) : (min a b).toNanos = min a.toNanos b.toNanos := by
  change (if a.toNanos ≤ b.toNanos then a else b).toNanos = _
  rw [Nat.min_def]
  split <;> rfl

end Duration

end Dossier
