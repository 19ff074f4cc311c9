import Dossier.Proofs.Decimal.Digits
import Dossier.Proofs.Decimal.Rounding

/-!
# The fewest digits of a double

The digits of a double are looked for on grids of one, two and more digits, until a neighbour of the
double on the grid is one of the numbers that are rounded to it. The search ends with seventeen
digits at the latest (`Dossier.Decimal.nearest?_ne_none`): the double has less than `10 ^ 16` units
of its last place, so that the spacing of this grid is less than one unit, which is the length of
the interval of the numbers that are rounded to the double. A power of two has a shorter interval,
but not half as many units. Zeros at the end of the digits that are found are left out, and so the
digits stand for a number that is rounded to the double (`Dossier.Decimal.exists_spells_shortest`).
-/

namespace Dossier.Decimal

variable {m : Nat} {q e : Int} {v : ℚ}

/-! ### Rational numbers -/

namespace Ratio

/-- The number that a ratio stands for. -/
def value (r : Ratio) : ℚ :=
  r.num / r.den

variable {r s : Ratio}

theorem le_iff (hr : 0 < r.den) (hs : 0 < s.den) : r.le s = true ↔ r.value ≤ s.value := by
  have hr' : (0 : ℚ) < r.den := by exact_mod_cast hr
  have hs' : (0 : ℚ) < s.den := by exact_mod_cast hs
  rw [le, decide_eq_true_eq, value, value, div_le_div_iff₀ hr' hs']
  exact_mod_cast Iff.rfl

theorem lt_iff (hr : 0 < r.den) (hs : 0 < s.den) : r.lt s = true ↔ r.value < s.value := by
  have hr' : (0 : ℚ) < r.den := by exact_mod_cast hr
  have hs' : (0 : ℚ) < s.den := by exact_mod_cast hs
  rw [lt, decide_eq_true_eq, value, value, div_lt_div_iff₀ hr' hs']
  exact_mod_cast Iff.rfl

theorem value_mul (r s : Ratio) : (r.mul s).value = r.value * s.value := by
  rw [value, value, value, mul]
  push_cast
  rw [mul_div_mul_comm]

/-- The whole part of a number. -/
theorem floor_le (hr : 0 < r.den) : (r.floor : ℚ) ≤ r.value ∧ r.value < r.floor + 1 := by
  have hr' : (0 : ℚ) < r.den := by exact_mod_cast hr
  rw [value, le_div_iff₀ hr', div_lt_iff₀ hr', floor]
  constructor
  · exact_mod_cast Nat.div_mul_le_self r.num r.den
  · exact_mod_cast Nat.lt_mul_of_div_lt (Nat.lt_succ_self _) hr

end Ratio

theorem den_scale_pos (n : Nat) {b : Nat} (hb : 0 < b) (e : Int) : 0 < (scale n b e).den := by
  cases e with
  | ofNat k => exact Nat.one_pos
  | negSucc k => exact Nat.pow_pos hb

theorem value_scale (n b : Nat) (e : Int) :
    (scale n b e).value = n * (b : ℚ) ^ e := by
  cases e with
  | ofNat k =>
    simp [scale, Ratio.value]
  | negSucc k =>
    simp [scale, Ratio.value, zpow_negSucc, div_eq_mul_inv]

/-! ### The interval of a double -/

/-- The least number that is rounded to a double, in units of its last place. -/
def lowEnd (m : Nat) (q : Int) : ℚ :=
  if m = leadingBit ∧ q ≠ -1074 then m - 1 / 4 else m - 1 / 2

theorem two_zpow_sub_one (q : Int) : (2 : ℚ) ^ (q - 1) = 2 ^ q / 2 := by
  rw [sub_eq_add_neg, two_zpow_add, zpow_neg_one]
  ring

theorem value_low (neg : Bool) (hm : 0 < m) (q : Int) :
    (Binary.interval ⟨neg, m, q⟩).low.value = lowEnd m q * 2 ^ q := by
  have hquarter : (2 : ℚ) ^ (q - 2) = 2 ^ q / 4 := by
    rw [sub_eq_add_neg, two_zpow_add]
    norm_num
    ring
  have hfour : ((4 * m - 1 : Nat) : ℚ) = 4 * m - 1 := by
    rw [Nat.cast_sub (by omega)]
    push_cast
    ring
  have htwo : ((2 * m - 1 : Nat) : ℚ) = 2 * m - 1 := by
    rw [Nat.cast_sub (by omega)]
    push_cast
    ring
  simp only [Binary.interval, lowEnd, Bool.and_eq_true, beq_iff_eq, bne_iff_ne]
  split
  · rw [value_scale, hfour, Nat.cast_ofNat, hquarter]
    ring
  · rw [value_scale, htwo, Nat.cast_ofNat, two_zpow_sub_one]
    ring

theorem value_high (neg : Bool) (m : Nat) (q : Int) :
    (Binary.interval ⟨neg, m, q⟩).high.value = (m + 1 / 2) * 2 ^ q := by
  rw [Binary.interval, value_scale, Nat.cast_ofNat, two_zpow_sub_one]
  push_cast
  ring

theorem den_low_pos (b : Binary) : 0 < b.interval.low.den := by
  simp only [Binary.interval]
  split <;> exact den_scale_pos _ (by decide) _

theorem den_high_pos (b : Binary) : 0 < b.interval.high.den :=
  den_scale_pos _ (by decide) _

variable {r : Ratio} {neg : Bool}

/-- **A number in the interval of a double is rounded to it.** -/
theorem rounds_of_contains (hc : Canonical m q) (hr : 0 < r.den)
    (h : (Binary.interval ⟨neg, m, q⟩).contains r = true) : Rounds m q r.value := by
  have hlow := den_low_pos ⟨neg, m, q⟩
  have hhigh := den_high_pos ⟨neg, m, q⟩
  -- In units of the double: between the ends, and not at them if the mantissa is odd.
  have hends : lowEnd m q ≤ r.value / 2 ^ q ∧ r.value / 2 ^ q ≤ m + 1 / 2 ∧
      (m % 2 ≠ 0 → lowEnd m q < r.value / 2 ^ q ∧ r.value / 2 ^ q < m + 1 / 2) := by
    rw [le_div_iff₀ (two_zpow_pos q), div_le_iff₀ (two_zpow_pos q), lt_div_iff₀ (two_zpow_pos q),
      div_lt_iff₀ (two_zpow_pos q), ← value_low neg hc.pos, ← value_high neg]
    rw [Interval.contains] at h
    split at h
    · next hclosed =>
      rw [Bool.and_eq_true, Ratio.le_iff hlow hr, Ratio.le_iff hr hhigh] at h
      exact ⟨h.1, h.2, fun hodd => absurd (beq_iff_eq.mp hclosed) hodd⟩
    · rw [Bool.and_eq_true, Ratio.lt_iff hlow hr, Ratio.lt_iff hr hhigh] at h
      exact ⟨h.1.le, h.2.le, fun _ => h⟩
  obtain ⟨hbelow, habove, hodd⟩ := hends
  have hhalf : (m : ℚ) - 1 / 2 ≤ lowEnd m q := by
    unfold lowEnd
    split <;> linarith
  refine ⟨abs_le.mpr ⟨by linarith, by linarith⟩, fun htie => ?_, fun hm hq => ?_⟩
  · by_contra hne
    obtain ⟨hbelow, habove⟩ := hodd hne
    have hstrict : |r.value / 2 ^ q - m| < 1 / 2 := abs_lt.mpr ⟨by linarith, by linarith⟩
    exact hstrict.ne htie
  · rwa [lowEnd, if_pos ⟨hm, hq⟩] at hbelow

/-- A number between the ends of the interval is in it. -/
theorem contains_of_between (hc : Canonical m q) (hr : 0 < r.den)
    (hlow : lowEnd m q * 2 ^ q < r.value) (hhigh : r.value < (m + 1 / 2) * 2 ^ q) :
    (Binary.interval ⟨neg, m, q⟩).contains r = true := by
  rw [← value_low neg hc.pos, ← Ratio.lt_iff (den_low_pos _) hr] at hlow
  rw [← value_high neg, ← Ratio.lt_iff hr (den_high_pos _)] at hhigh
  have hlow' := hlow
  have hhigh' := hhigh
  rw [Ratio.lt_iff (den_low_pos _) hr] at hlow'
  rw [Ratio.lt_iff hr (den_high_pos _)] at hhigh'
  rw [Interval.contains, hlow, hhigh, (Ratio.le_iff (den_low_pos _) hr).mpr hlow'.le,
    (Ratio.le_iff hr (den_high_pos _)).mpr hhigh'.le]
  split <;> rfl

/-! ### The search for the digits -/

variable {i : Interval}

/-- **What is found on a grid** is in the interval and not zero. -/
theorem nearest?_sound {d : Nat} (h : nearest? i r e = some d) :
    d ≠ 0 ∧ i.contains (scale d 10 e) = true := by
  unfold nearest? at h
  dsimp only at h
  generalize (r.mul (scale 1 10 (-e))).floor = f at h
  -- What is found is one of the two neighbours, which has been tested before.
  have hlower : (i.contains (scale f 10 e) && f != 0) = true →
      f ≠ 0 ∧ i.contains (scale f 10 e) = true := by
    intro h
    rw [Bool.and_eq_true, bne_iff_ne] at h
    exact h.symm
  have hupper : i.contains (scale (f + 1) 10 e) = true →
      f + 1 ≠ 0 ∧ i.contains (scale (f + 1) 10 e) = true := fun h => ⟨Nat.succ_ne_zero f, h⟩
  split at h
  · next hboth =>
    rw [Bool.and_eq_true] at hboth
    split at h
    · exact Option.some.inj h ▸ hlower hboth.1
    split at h
    · exact Option.some.inj h ▸ hupper hboth.2
    split at h
    · exact Option.some.inj h ▸ hlower hboth.1
    · exact Option.some.inj h ▸ hupper hboth.2
  split at h
  · next hone => exact Option.some.inj h ▸ hlower hone
  split at h
  · next hone => exact Option.some.inj h ▸ hupper hone
  · cases h

/-- Something is found on a grid if one of the neighbours of the number is in the interval. -/
theorem nearest?_complete (h : let f := (r.mul (scale 1 10 (-e))).floor
      (f ≠ 0 ∧ i.contains (scale f 10 e) = true) ∨ i.contains (scale (f + 1) 10 e) = true) :
    nearest? i r e ≠ none := by
  unfold nearest?
  dsimp only at h ⊢
  generalize (r.mul (scale 1 10 (-e))).floor = f at h ⊢
  split
  · split
    · nofun
    split
    · nofun
    split <;> nofun
  split
  · nofun
  split
  · nofun
  · next hlower hupper =>
    rw [Bool.and_eq_true, bne_iff_ne] at hlower
    rcases h with h | h
    · exact absurd h.symm hlower
    · exact absurd h hupper

/-- The zeros behind the point of a number, and the first place that is none. -/
theorem le_leadingZeros (fuel num den : Nat) (h : den ≤ 10 ^ fuel * num) :
    den ≤ 10 ^ (leadingZeros fuel num den + 1) * num := by
  induction fuel generalizing num with
  | zero =>
    rw [leadingZeros]
    omega
  | succ fuel ih =>
    rw [leadingZeros]
    split
    · next hle => rwa [Nat.zero_add, Nat.pow_one]
    · have hnext := ih (10 * num) (by rw [← Nat.mul_assoc, ← Nat.pow_succ]; exact h)
      rw [Nat.pow_succ, Nat.mul_assoc]
      exact hnext

/-- **The point stands behind the first digit or before it.** -/
theorem pointOf_le (hden : 0 < r.den) (hsmall : (10 : ℚ) ^ (-400 : Int) ≤ r.value) :
    (10 : ℚ) ^ (pointOf r - 1) ≤ r.value := by
  have hden' : (0 : ℚ) < r.den := by exact_mod_cast hden
  unfold pointOf
  split
  · next hle =>
    -- There are digits before the point, and the first of them is not zero.
    have hfloor : 0 < r.floor := Nat.div_pos hle hden
    have hlength := List.length_pos_iff.mpr (digits_ne_nil r.floor)
    have hexponent : ((digits r.floor).length : Int) - 1 = ((digits r.floor).length - 1 : Nat) := by
      omega
    have hpower : (10 : ℚ) ^ ((digits r.floor).length - 1) ≤ r.floor := by
      exact_mod_cast ten_pow_le_of_digits hfloor
    rw [hexponent, zpow_natCast]
    exact hpower.trans (Ratio.floor_le hden).1
  · -- There are zeros behind the point, and fewer than are looked for.
    have henough : r.den ≤ 10 ^ 400 * r.num := by
      rw [Ratio.value, zpow_neg, inv_le_iff_one_le_mul₀ (zpow_pos (by norm_num) _), mul_comm,
        ← mul_div_assoc, one_le_div₀ hden'] at hsmall
      rw [show (400 : Int) = ((400 : Nat) : Int) from rfl, zpow_natCast] at hsmall
      exact_mod_cast hsmall
    have hzeros := le_leadingZeros 400 r.num r.den henough
    have hexponent : -((leadingZeros 400 r.num r.den : Nat) : Int) - 1 =
        -((leadingZeros 400 r.num r.den + 1 : Nat) : Int) := by
      omega
    rw [hexponent, zpow_neg, zpow_natCast, Ratio.value, inv_le_iff_one_le_mul₀ (by positivity),
      mul_comm, ← mul_div_assoc, one_le_div₀ hden']
    exact_mod_cast hzeros

/-- The length of the interval of a double, compared with the double itself. -/
theorem lt_length (hc : Canonical m q) : (m : ℚ) < ((m : ℚ) + 1 / 2 - lowEnd m q) * 10 ^ 16 := by
  have hleading : (leadingBit : ℚ) = 4503599627370496 := by norm_num [leadingBit]
  unfold lowEnd
  split
  · next hnarrow =>
    rw [hnarrow.1, hleading]
    norm_num
  · have hm : (m : ℚ) < 2 * leadingBit := by exact_mod_cast hc.lt
    have hone : (m : ℚ) + 1 / 2 - (m - 1 / 2) = 1 := by ring
    rw [hleading] at hm
    rw [hone, one_mul]
    exact hm.trans (by norm_num)

/-- Of two numbers around a double one is in its interval, if they are closer together than its
ends. -/
theorem contains_or_contains {a b : Ratio} (hc : Canonical m q) (ha : 0 < a.den) (hb : 0 < b.den)
    (hlow : a.value ≤ m * 2 ^ q) (hhigh : m * 2 ^ q < b.value)
    (hgap : b.value - a.value < (m + 1 / 2 - lowEnd m q) * 2 ^ q) :
    (Binary.interval ⟨neg, m, q⟩).contains a = true ∨
      (Binary.interval ⟨neg, m, q⟩).contains b = true := by
  have htwo := two_zpow_pos q
  have hend : lowEnd m q < m := by
    unfold lowEnd
    split <;> linarith
  by_cases hinside : lowEnd m q * 2 ^ q < a.value
  · exact Or.inl (contains_of_between hc ha hinside (by nlinarith))
  · exact Or.inr (contains_of_between hc hb (by nlinarith) (by nlinarith))

/-- **Seventeen digits are enough**: the spacing of their grid is less than the length of the
interval, so that a neighbour of the number is in it. -/
theorem nearest?_ne_none (hc : Canonical m q) (hr : 0 < r.den) (hvalue : r.value = m * 2 ^ q)
    (hfine : (10 : ℚ) ^ (e + 16) ≤ r.value) :
    nearest? (Binary.interval ⟨neg, m, q⟩) r e ≠ none := by
  have hten : (0 : ℚ) < 10 ^ e := zpow_pos (by norm_num) e
  refine nearest?_complete ?_
  have hden : 0 < (r.mul (scale 1 10 (-e))).den := Nat.mul_pos hr (den_scale_pos 1 (by decide) _)
  obtain ⟨hfloor, hfloor'⟩ := Ratio.floor_le hden
  have hscaled : (r.mul (scale 1 10 (-e))).value = r.value / 10 ^ e := by
    rw [Ratio.value_mul, value_scale, zpow_neg, Nat.cast_one, one_mul, Nat.cast_ofNat,
      div_eq_mul_inv]
  rw [hscaled, le_div_iff₀ hten] at hfloor
  rw [hscaled, div_lt_iff₀ hten] at hfloor'
  generalize (r.mul (scale 1 10 (-e))).floor = f at hfloor hfloor'
  rw [zpow_add₀ (by norm_num), show (16 : Int) = ((16 : Nat) : Int) from rfl, zpow_natCast] at hfine
  -- The number is many spacings away from zero.
  have hf : f ≠ 0 := by
    rintro rfl
    norm_num at hfloor'
    linarith
  have hvalue_f : (scale f 10 e).value = f * 10 ^ e := by
    rw [value_scale, Nat.cast_ofNat]
  have hvalue_f' : (scale (f + 1) 10 e).value = (f + 1) * 10 ^ e := by
    rw [value_scale, Nat.cast_ofNat, Nat.cast_succ]
  rw [hvalue] at hfloor hfloor' hfine
  -- The interval is longer than the spacing.
  have hgap : (10 : ℚ) ^ e < (m + 1 / 2 - lowEnd m q) * 2 ^ q := by
    have hlength := mul_lt_mul_of_pos_right (lt_length hc) (two_zpow_pos q)
    linarith
  refine (contains_or_contains hc (den_scale_pos f (by decide) e)
    (den_scale_pos (f + 1) (by decide) e) (by rwa [hvalue_f]) (by rwa [hvalue_f']) ?_).imp_left
    fun h => ⟨hf, h⟩
  rw [hvalue_f, hvalue_f']
  linarith

/-- The digits that are found are those of a number in the interval, without the zeros at their
end. -/
theorem shortestFrom_eq (hc : Canonical m q) (hr : 0 < r.den) (hvalue : r.value = m * 2 ^ q)
    {point : Int} (hpoint : (10 : ℚ) ^ (point - 1) ≤ r.value) {fuel n : Nat} (hn : fuel + n = 18)
    (hfuel : 0 < fuel) :
    ∃ d : Nat, ∃ e : Int, d ≠ 0 ∧ Rounds m q (d * 10 ^ e) ∧
      shortestFrom (Binary.interval ⟨neg, m, q⟩) r point fuel n =
        ⟨((digits d).reverse.dropWhile (· == '0')).reverse, e + (digits d).length⟩ := by
  induction fuel generalizing n with
  | zero => exact absurd hfuel (Nat.lt_irrefl 0)
  | succ fuel ih =>
    rw [shortestFrom]
    split
    · next d hfound =>
      obtain ⟨hd, hcontains⟩ := nearest?_sound hfound
      have hrounds := rounds_of_contains hc (den_scale_pos d (by decide) _) hcontains
      rw [value_scale, Nat.cast_ofNat] at hrounds
      exact ⟨d, _, hd, hrounds, rfl⟩
    · next hnone =>
      rcases Nat.eq_zero_or_pos fuel with rfl | hpos
      · -- With the last digits the grid is fine enough, so that something is found.
        have hfine : (10 : ℚ) ^ (point - (n : Int) + 16) ≤ r.value := by
          have hexponent : point - (n : Int) + 16 = point - 1 := by omega
          rwa [hexponent]
        exact absurd hnone (nearest?_ne_none hc hr hvalue hfine)
      · exact ih (by omega) hpos

/-! ### The digits without zeros at their end -/

variable {n : Nat}

/-- Zeros at the end can be taken off, and the number is a power of ten less. -/
theorem exists_spells_dropZeros (hd : n ≠ 0) :
    ∃ D zeros, Spells ((digits n).reverse.dropWhile (· == '0')).reverse D ∧ n = D * 10 ^ zeros ∧
      (digits n).length = ((digits n).reverse.dropWhile (· == '0')).reverse.length + zeros ∧
      ((digits n).reverse.dropWhile (· == '0')).reverse.head? ≠ some '0' := by
  set kept := ((digits n).reverse.dropWhile (· == '0')).reverse with hkept
  set zeros := (digits n).reverse.takeWhile (· == '0') with hzeros
  have hall : digits n = kept ++ zeros.reverse := by
    rw [hkept, hzeros, ← List.reverse_append, List.takeWhile_append_dropWhile, List.reverse_reverse]
  have hreplicate : zeros.reverse = List.replicate zeros.length '0' := by
    refine List.eq_replicate_iff.mpr ⟨List.length_reverse, fun c hc => ?_⟩
    exact beq_iff_eq.mp (List.all_eq_true.mp List.all_takeWhile c (List.mem_reverse.mp hc))
  obtain ⟨D, hD⟩ : ∃ D, Spells kept D :=
    exists_spells fun c hc => (spells_digits n).isDigit c (hall ▸ List.mem_append_left _ hc)
  have hspells := hD.append (spells_zeros zeros.length)
  rw [← hreplicate, ← hall, List.length_reverse, Nat.add_zero] at hspells
  refine ⟨D, zeros.length, hD, (spells_digits n).unique hspells, ?_, fun hhead => ?_⟩
  · rw [hall, List.length_append, hreplicate, List.length_replicate]
  · obtain ⟨c, cs, heq, hzero⟩ := digits_eq_cons n
    have hfirst : (digits n).head? = some '0' := by
      rw [hall, List.head?_append, hhead]
      rfl
    rw [heq] at hfirst
    exact hd (hzero (Option.some.inj hfirst))

/-- **The fewest digits of a double** stand for a number that is rounded to it. -/
theorem exists_spells_shortest (hc : Canonical m q) (neg : Bool) :
    ∃ D, Spells (Binary.shortest ⟨neg, m, q⟩).digits D ∧ D ≠ 0 ∧
      (Binary.shortest ⟨neg, m, q⟩).digits.head? ≠ some '0' ∧
      Rounds m q (D * 10 ^ ((Binary.shortest ⟨neg, m, q⟩).point -
        (Binary.shortest ⟨neg, m, q⟩).digits.length)) := by
  have hden := den_scale_pos m (show 0 < 2 by decide) q
  have hvalue : (scale m 2 q).value = m * 2 ^ q := by
    rw [value_scale, Nat.cast_ofNat]
  have hsmall : (10 : ℚ) ^ (-400 : Int) ≤ (scale m 2 q).value := by
    rw [hvalue]
    exact ((rounds_self m q).bounds hc).1.le
  obtain ⟨d, e, hd, hrounds, hshortest⟩ := shortestFrom_eq hc hden hvalue
    (pointOf_le hden hsmall) (show 17 + 1 = 18 by decide) (by decide)
  obtain ⟨D, zeros, hD, hdD, hlength, hhead⟩ := exists_spells_dropZeros hd
  have hne : D ≠ 0 := by
    rintro rfl
    exact hd (hdD.trans (Nat.zero_mul _))
  have hfewest : Binary.shortest ⟨neg, m, q⟩ = _ := hshortest
  rw [hfewest]
  refine ⟨D, hD, hne, hhead, ?_⟩
  -- The zeros that are dropped go into the exponent.
  have hexponent : e + ((digits d).length : Int) -
      (((digits d).reverse.dropWhile (· == '0')).reverse.length : Nat) = zeros + e := by
    omega
  have hsame : (D * 10 ^ ((zeros : Int) + e) : ℚ) = d * 10 ^ e := by
    rw [hdD, zpow_add₀ (by norm_num), zpow_natCast]
    push_cast
    ring
  dsimp only
  rw [hexponent, hsame]
  exact hrounds

end Dossier.Decimal
