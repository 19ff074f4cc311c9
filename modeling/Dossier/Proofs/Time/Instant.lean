import Dossier.Proofs.Decimal.Digits
import Dossier.Proofs.Text.Blank
import Dossier.Time.Instant

/-!
# Instants are read back from their texts

The texts of instants are read from the left, and every part of a text ends where the next one
begins: numbers of a known width, marks between them, a fraction that is ended by the letter `Z`
(`Dossier.Instant.read?_write`). What is written of a leap second is the sixtieth second of its
minute, so it is only at the end of a minute that a leap second is read back
(`Dossier.Instant.IsValid`).

Outside of leap seconds an instant is a number of nanoseconds, and the time from one instant to
another is a difference. So an age only grows (`Dossier.Instant.since_mono`).
-/

namespace Dossier

open Decimal (IsDigit Spells padded)

/-- A digit is no blank. -/
theorem Decimal.IsDigit.isBlank {c : Char} (h : IsDigit c) : Text.isBlank c = false := by
  have hlow : '0'.toNat ≤ c.toNat := UInt32.le_iff_toNat_le.mp h.1
  have hhigh : c.toNat ≤ '9'.toNat := UInt32.le_iff_toNat_le.mp h.2
  have hzero : '0'.toNat = 48 := rfl
  have hnine : '9'.toNat = 57 := rfl
  simp only [Text.isBlank, Bool.or_eq_false_iff, Bool.and_eq_false_iff, decide_eq_false_iff_not,
    beq_eq_false_iff_ne]
  omega

namespace Instant

/-- **Whether an instant is one of universal time**: on a day of the calendar, and in a leap second
only at the end of a minute. -/
structure IsValid (t : Instant) : Prop where
  date : t.date.isValid = true
  second : t.second < 86400
  nanos : t.nanos < nanosPerSecond ∨ (t.nanos < 2 * nanosPerSecond ∧ t.second % 60 = 59)

variable {ds rest : List Char} {n w : Nat}

/-! ### The parts of a text -/

theorem takeWhile_digits (h : ∀ c ∈ ds, IsDigit c) (hrest : ∀ c ∈ rest.head?, ¬IsDigit c) :
    ((ds ++ rest).takeWhile fun c => (Decimal.digitValue? c).isSome) = ds :=
  Text.takeWhile_append (fun c hc => Decimal.isDigit_iff_isSome.mp (h c hc)) fun c hc =>
    Bool.eq_false_iff.mpr (mt Decimal.isDigit_iff_isSome.mpr (hrest c hc))

/-- A text that begins with a mark does not begin with a digit. -/
theorem not_isDigit_of_head {mark : Char} (h : ¬IsDigit mark) :
    ∀ c ∈ (mark :: rest).head?, ¬IsDigit c := by
  intro c hc
  obtain rfl := Option.some.inj hc
  exact h

/-- Digits are not preceded by blanks. -/
theorem dropBlank_digits (h : Spells ds n) (hne : ds ≠ []) (rest : List Char) :
    Text.dropBlank (ds ++ rest) = ds ++ rest := by
  obtain ⟨c, ds, rfl⟩ := List.exists_cons_of_ne_nil hne
  exact Text.dropBlank_cons (h.isDigit c List.mem_cons_self).isBlank _

/-- **A number of as many digits as may be taken** is read up to its last digit. -/
theorem number?_padded (hw : 0 < w) (hn : n < 10 ^ w) (rest : List Char) :
    number? w (padded w n ++ rest) = some (n, rest) := by
  have hspells := Decimal.spells_padded w n
  have hne := Decimal.padded_ne_nil w n
  have hlength := Decimal.length_padded hw hn
  have htake : (padded w n ++ rest).take w = padded w n := by
    rw [List.take_append_of_le_length hlength.ge, List.take_of_length_le hlength.le]
  have hrun : ((padded w n ++ []).takeWhile fun c => (Decimal.digitValue? c).isSome) = padded w n :=
    takeWhile_digits hspells.isDigit nofun
  rw [List.append_nil] at hrun
  rw [number?, dropBlank_digits hspells hne, htake]
  rw [hrun, hspells.value?_eq hne, List.drop_left]
  rfl

theorem longNumber?_append (h : Spells ds n) (hne : ds ≠ [])
    (hrest : ∀ c ∈ rest.head?, ¬IsDigit c) :
    longNumber? (ds ++ rest) = some (n, rest) := by
  rw [longNumber?]
  rw [takeWhile_digits h.isDigit hrest, h.value?_eq hne, List.drop_left]
  rfl

theorem after?_cons {c : Char} (h : Text.isBlank c = false) (cs : List Char) :
    after? c (c :: cs) = some cs := by
  rw [after?, Text.dropBlank_cons h]
  simp [Text.dropPrefix?]

/-- **A year is read with its sign.** -/
theorem year?_yearText (y : Int) (hrest : ∀ c ∈ rest.head?, ¬IsDigit c) :
    year? (Date.yearText y ++ rest) = some (y, rest) := by
  have hspells := Decimal.spells_padded 4 y.natAbs
  have hne := Decimal.padded_ne_nil 4 y.natAbs
  unfold Date.yearText
  split
  · next hy =>
    -- A year of four digits has no sign, and its first digit is taken for none.
    have hfour := number?_padded (w := 4) (n := y.toNat) (by decide) (by omega) rest
    have hnat : (y.toNat : Int) = y := by omega
    obtain ⟨c, ds, heq⟩ := List.exists_cons_of_ne_nil (Decimal.padded_ne_nil 4 y.toNat)
    have hdigit : IsDigit c :=
      (Decimal.spells_padded 4 y.toNat).isDigit c (by rw [heq]; exact List.mem_cons_self)
    rw [heq, List.cons_append] at hfour ⊢
    rw [year?, Text.dropBlank_cons hdigit.isBlank]
    split
    · next hc =>
      obtain ⟨rfl, -⟩ := List.cons.inj hc
      exact absurd hdigit (by decide)
    · next hc =>
      obtain ⟨rfl, -⟩ := List.cons.inj hc
      exact absurd hdigit (by decide)
    · rw [hfour, Option.map_some, hnat]
  · next hy =>
    -- Any other year has its sign, and as many digits as it needs.
    have hlong := longNumber?_append hspells hne hrest
    by_cases hneg : y < 0
    · have hnat : -(y.natAbs : Int) = y := by omega
      rw [if_pos hneg, List.cons_append, year?, Text.dropBlank_cons (by decide)]
      simp only [hlong, Option.map_some, hnat]
    · have hnat : (y.natAbs : Int) = y := by omega
      rw [if_neg hneg, List.cons_append, year?, Text.dropBlank_cons (by decide)]
      simp only [hlong, Option.map_some, hnat]

/-- A fraction of a known number of digits. -/
theorem fraction?_padded (hw : 0 < w) (hw9 : w ≤ 9) (hn : n < 10 ^ w)
    (hrest : ∀ c ∈ rest.head?, ¬IsDigit c) :
    fraction? ('.' :: (padded w n ++ rest)) = some (n * 10 ^ (9 - w), rest) := by
  have hspells := Decimal.spells_padded w n
  have hlength := Decimal.length_padded hw hn
  rw [fraction?]
  rw [takeWhile_digits hspells.isDigit hrest, List.take_of_length_le (by omega),
    hspells.value?_eq (Decimal.padded_ne_nil w n), List.drop_left, hlength]
  rfl

/-- **A fraction is read in nanoseconds**, however many threes of digits are written. -/
theorem fraction?_fractionText (hn : n < nanosPerSecond) (hdot : rest.head? ≠ some '.')
    (hrest : ∀ c ∈ rest.head?, ¬IsDigit c) :
    fraction? (fractionText n ++ rest) = some (n, rest) := by
  rw [nanosPerSecond] at hn
  unfold fractionText
  split
  · next hzero =>
    rw [List.nil_append, fraction?, hzero]
    rintro cs rfl
    exact hdot rfl
  split
  · next hmod =>
    rw [List.cons_append, fraction?_padded (by decide) (by decide) (by omega) hrest]
    congr 2
    omega
  split
  · next hmod =>
    rw [List.cons_append, fraction?_padded (by decide) (by decide) (by omega) hrest]
    congr 2
    omega
  · rw [List.cons_append, fraction?_padded (by decide) (by decide) (by omega) hrest]
    simp

/-! ### Whole texts -/

/-- The month and the day of a date have two digits at most. -/
theorem lt_hundred_of_isValid {d : Date} (h : d.isValid = true) : d.month < 100 ∧ d.day < 100 := by
  simp only [Date.isValid, Bool.and_eq_true, decide_eq_true_eq] at h
  have hdays : d.day ≤ Date.daysInMonth d.year d.month := h.2
  have hpos : 1 ≤ d.day := h.1.2
  unfold Date.daysInMonth at hdays
  split at hdays
  all_goals (try split at hdays) <;> omega

variable {t : Instant}

theorem shift_zero (date : Date) {second : Nat} (h : second < 86400) :
    shift date second 0 = (date, second) := by
  have hlow : ¬(second : Int) < 0 := by omega
  have hhigh : ¬Date.secondsPerDay ≤ (second : Int) := by
    rw [Date.secondsPerDay]
    omega
  simp only [shift, Int.sub_zero, if_neg hlow, if_neg hhigh, Int.toNat_natCast]

theorem IsValid.fraction_lt (h : t.IsValid) : t.fraction < nanosPerSecond := by
  have hnanos := h.nanos
  have hone : nanosPerSecond = 1000000000 := rfl
  unfold fraction
  split <;> omega

/-- **The clock of an instant** is that of its second, or shows the sixtieth second of the minute
in a leap second, which it adds to the nanoseconds. -/
theorem IsValid.clock (h : t.IsValid) :
    ∃ shown, t.clockText = padded 2 (t.second / 3600) ++ ':' :: (padded 2 (t.second / 60 % 60) ++
        ':' :: padded 2 shown) ∧ shown ≤ 60 ∧
      (if shown = 60 then (nanosPerSecond, 59) else (0, shown)) =
        (t.nanos - t.fraction, t.second % 60) := by
  have hnanos := h.nanos
  have hone : nanosPerSecond = 1000000000 := rfl
  by_cases hleap : nanosPerSecond ≤ t.nanos
  · have hlast : t.second % 60 = 59 := by omega
    refine ⟨60, ?_, le_rfl, ?_⟩
    · simp [clockText, hleap, hlast]
    · have hnanos : nanosPerSecond = t.nanos - t.fraction := by
        rw [fraction, if_pos hleap]
        omega
      exact Prod.ext hnanos hlast.symm
  · refine ⟨t.second % 60, ?_, by omega, ?_⟩
    · simp [clockText, hleap]
    · rw [if_neg (by omega), fraction, if_neg hleap, Nat.sub_self]

/-- What is shown of the nanoseconds and what is not are all of them. -/
theorem sub_fraction_add (t : Instant) : t.nanos - t.fraction + t.fraction = t.nanos := by
  unfold fraction
  split <;> omega

/-- The characters of a text, part by part, with the second that is shown. -/
theorem chars_eq {shown : Nat}
    (hclock : t.clockText = padded 2 (t.second / 3600) ++ ':' ::
      (padded 2 (t.second / 60 % 60) ++ ':' :: padded 2 shown)) :
    t.chars = Date.yearText t.date.year ++ '-' :: (padded 2 t.date.month ++ '-' ::
      (padded 2 t.date.day ++ 'T' :: (padded 2 (t.second / 3600) ++ ':' ::
        (padded 2 (t.second / 60 % 60) ++ ':' :: (padded 2 shown ++
          (fractionText t.fraction ++ ['Z'])))))) := by
  simp [chars, Date.chars, hclock]

/-- The characters of a text are read as the instant. -/
theorem readChars?_chars (h : t.IsValid) : readChars? t.chars = some t := by
  obtain ⟨hmonth, hday⟩ := lt_hundred_of_isValid h.date
  obtain ⟨shown, hclock, hshown, hleap⟩ := h.clock
  have hsecond := h.second
  have hbounds : (decide (t.second / 3600 < 24) && decide (t.second / 60 % 60 < 60) &&
      decide (shown ≤ 60)) = true := by
    simp only [Bool.and_eq_true, decide_eq_true_eq]
    omega
  rw [readChars?, chars_eq hclock]
  -- The parts of the date, and the marks between them.
  refine Option.bind_eq_some_iff.mpr ⟨_, year?_yearText _ (not_isDigit_of_head (by decide)), ?_⟩
  refine Option.bind_eq_some_iff.mpr ⟨_, after?_cons (by decide) _, ?_⟩
  refine Option.bind_eq_some_iff.mpr ⟨_, number?_padded (by decide) hmonth _, ?_⟩
  refine Option.bind_eq_some_iff.mpr ⟨_, after?_cons (by decide) _, ?_⟩
  refine Option.bind_eq_some_iff.mpr ⟨_, number?_padded (by decide) hday _, ?_⟩
  refine Option.bind_eq_some_iff.mpr ⟨(), if_pos h.date, ?_⟩
  refine Option.bind_eq_some_iff.mpr ⟨_, rfl, ?_⟩
  -- The parts of the clock.
  refine Option.bind_eq_some_iff.mpr ⟨_, number?_padded (by decide) (by omega) _, ?_⟩
  refine Option.bind_eq_some_iff.mpr ⟨_, after?_cons (by decide) _, ?_⟩
  refine Option.bind_eq_some_iff.mpr ⟨_, number?_padded (by decide) (by omega) _, ?_⟩
  refine Option.bind_eq_some_iff.mpr ⟨_, after?_cons (by decide) _, ?_⟩
  refine Option.bind_eq_some_iff.mpr ⟨_, number?_padded (by decide) (by omega) _, ?_⟩
  refine Option.bind_eq_some_iff.mpr ⟨(), if_pos hbounds, ?_⟩
  refine Option.bind_eq_some_iff.mpr ⟨_, fraction?_fractionText h.fraction_lt (by decide)
    (not_isDigit_of_head (by decide)), ?_⟩
  -- The zone is that of universal time, so that neither the day nor the second is moved.
  refine Option.bind_eq_some_iff.mpr ⟨(0, []), rfl, ?_⟩
  refine Option.bind_eq_some_iff.mpr ⟨(), rfl, ?_⟩
  have hsum : t.second / 3600 * 3600 + t.second / 60 % 60 * 60 + t.second % 60 = t.second := by
    omega
  rw [hleap]
  simp only [hsum, shift_zero _ h.second]
  refine Option.bind_eq_some_iff.mpr ⟨(), if_pos h.date, ?_⟩
  rw [sub_fraction_add]

/-- **An instant is read back from its text.** -/
theorem read?_write (h : t.IsValid) : read? t.write = some t := by
  rw [read?, write, String.toList_ofList]
  exact readChars?_chars h

/-! ### The order of instants -/

/-- Instants are compared component by component, from the year to the nanosecond. -/
theorem compare_eq_compareLex :
    Instant.compare = compareLex
      (compareLex (compareOn (·.date.year))
        (compareLex (compareOn (·.date.month)) (compareOn (·.date.day))))
      (compareLex (compareOn (·.second)) (compareOn (·.nanos))) := rfl

instance : Std.TransCmp Instant.compare := by
  rw [compare_eq_compareLex]
  infer_instance

/-- Only an instant itself is neither before nor after it. -/
instance : Std.LawfulEqCmp Instant.compare where
  eq_of_compare {a b} h := by
    simp only [Instant.compare, Date.compare, Ordering.then_eq_eq,
      Std.LawfulEqCmp.compare_eq_iff_eq] at h
    obtain ⟨⟨hyear, hmonth, hday⟩, hsecond, hnanos⟩ := h
    cases a
    cases b
    simp only [Instant.mk.injEq]
    exact ⟨by rw [Date.mk.injEq]; exact ⟨hyear, hmonth, hday⟩, hsecond, hnanos⟩

/-! ### Moments as numbers -/

/-- The nanoseconds from the beginning of 1970 to a moment that lies in no leap second. -/
def ticks (t : Instant) : Int :=
  (t.date.toDays * Date.secondsPerDay + t.second) * nanosPerSecond + t.nanos

/-- Whether a moment lies in no leap second. -/
def IsPlain (t : Instant) : Prop :=
  t.nanos < nanosPerSecond

/-- **The time between two moments** is a difference, when neither lies in a leap second. -/
theorem since_eq_ticks_sub {later earlier : Instant} (hl : later.IsPlain) (he : earlier.IsPlain) :
    later.since earlier = later.ticks - earlier.ticks := by
  have hleap : (if earlier.second < later.second then
      if nanosPerSecond ≤ earlier.nanos then (1 : Int) else 0
    else if later.second < earlier.second then
      if nanosPerSecond ≤ later.nanos then (-1 : Int) else 0
    else 0) = 0 := by
    rw [if_neg (Nat.not_le.mpr he), if_neg (Nat.not_le.mpr hl)]
    split
    · rfl
    · split <;> rfl
  rw [since, hleap, ticks, ticks]
  ring

/-- An age only grows. -/
theorem since_mono {created t u : Instant} (hc : created.IsPlain) (ht : t.IsPlain)
    (hu : u.IsPlain) (h : t.ticks ≤ u.ticks) : t.since created ≤ u.since created := by
  rw [since_eq_ticks_sub ht hc, since_eq_ticks_sub hu hc]
  exact Int.sub_le_sub_right h _

end Instant

end Dossier
