import Dossier.Decimal.Binary
import Mathlib

/-!
# Rounding to doubles

A product or a quotient of mantissas is rounded by shifting it to the unit of the double, with two
bits kept of what is shifted out, and by looking at these two bits. What they say about the exact
number is `Dossier.Decimal.Describes`, an invariant of the shift, and it is enough to find the
nearest natural number, the even one of two (`Dossier.Decimal.Describes.roundedMantissa_eq`).

Rounding is looked at from the side of the result: given a double, which numbers are rounded to it
(`Dossier.Decimal.Rounds`)? They form an interval, the one in which the digits of the double are
looked for when it is written. So the theorem on rounding
(`Dossier.Decimal.roundWithAccuracy_of_rounds`) does not say how great an error is, but that every
number of the interval comes out as the double. The one case in which the shift does not end at the
unit of the double is just below a power of two, where the mantissa overflows when it is rounded.
-/

namespace Dossier.Decimal

open Float.Model Float.Model.UnpackedFloat

/-! ### What the residual bits say -/

/-- Half a unit, if the bit is set. -/
def halfUnit : Bool → ℚ
  | false => 0
  | true => 1 / 2

theorem halfUnit_nonneg (b : Bool) : 0 ≤ halfUnit b := by
  cases b <;> norm_num [halfUnit]

theorem halfUnit_le (b : Bool) : halfUnit b ≤ 1 / 2 := by
  cases b <;> norm_num [halfUnit]

/-- **Whether a mantissa with its residual bits describes a number**: the round bit is the first
binary place of the number, and the sticky bit says whether there are places after it. -/
structure Describes (em : ExtendedMantissa) (y : ℚ) : Prop where
  low : em.mantissa + halfUnit em.roundBit ≤ y
  high : y < em.mantissa + halfUnit em.roundBit + 1 / 2
  sticky : em.stickyBit = false ↔ y = em.mantissa + halfUnit em.roundBit

variable {em : ExtendedMantissa} {y v : ℚ} {m : Nat} {q : Int}

/-- A number is described by itself. -/
theorem describes_exact (m : Nat) : Describes (.ofMantissaAndAccuracy m .exact) m where
  low := by simp [ExtendedMantissa.ofMantissaAndAccuracy, halfUnit]
  high := by simp [ExtendedMantissa.ofMantissaAndAccuracy, halfUnit]
  sticky := by simp [ExtendedMantissa.ofMantissaAndAccuracy, halfUnit]

/-- What is left of a unit is described by comparing it with half of the unit. -/
theorem describes_fraction (whole : Nat) {rest den : Nat} (h : rest < den) :
    Describes (.ofMantissaAndAccuracy whole (accuracyOfFraction rest den))
      (whole + rest / den : ℚ) := by
  have hden : (0 : ℚ) < den := by exact_mod_cast Nat.zero_lt_of_lt h
  have hone : (rest / den : ℚ) < 1 := by
    rw [div_lt_one hden]
    exact_mod_cast h
  unfold accuracyOfFraction
  split
  · next hzero =>
    subst hzero
    simpa using describes_exact whole
  · next hne =>
    have hpos : (0 : ℚ) < rest / den := by
      have : (0 : ℚ) < rest := by exact_mod_cast Nat.pos_of_ne_zero hne
      positivity
    -- Twice the rest is compared with the unit, and so the rest with half of it.
    cases hcompare : compare (2 * rest) den with
    | lt =>
      have hhalf : (rest / den : ℚ) < 1 / 2 := by
        have : (2 * rest : ℚ) < den := by exact_mod_cast Nat.compare_eq_lt.mp hcompare
        rw [div_lt_iff₀ hden]
        linarith
      exact ⟨by simp only [ExtendedMantissa.ofMantissaAndAccuracy, halfUnit]; linarith,
        by simp only [ExtendedMantissa.ofMantissaAndAccuracy, halfUnit]; linarith,
        by simp [ExtendedMantissa.ofMantissaAndAccuracy, halfUnit, hpos.ne']⟩
    | eq =>
      have hhalf : (rest / den : ℚ) = 1 / 2 := by
        have : (2 * rest : ℚ) = den := by exact_mod_cast Nat.compare_eq_eq.mp hcompare
        rw [div_eq_iff hden.ne']
        linarith
      rw [hhalf]
      exact ⟨le_rfl, by simp only [ExtendedMantissa.ofMantissaAndAccuracy, halfUnit]; linarith,
        by simp [ExtendedMantissa.ofMantissaAndAccuracy, halfUnit]⟩
    | gt =>
      have hhalf : 1 / 2 < (rest / den : ℚ) := by
        have : (den : ℚ) < 2 * rest := by exact_mod_cast Nat.compare_eq_gt.mp hcompare
        rw [lt_div_iff₀ hden]
        linarith
      exact ⟨by simp only [ExtendedMantissa.ofMantissaAndAccuracy, halfUnit]; linarith,
        by simp only [ExtendedMantissa.ofMantissaAndAccuracy, halfUnit]; linarith,
        by simpa [ExtendedMantissa.ofMantissaAndAccuracy, halfUnit] using hhalf.ne'⟩

/-- A quotient is described by its whole part and what its remainder is of the divisor. -/
theorem describes_quotient (num : Nat) {den : Nat} (h : 0 < den) :
    Describes (.ofMantissaAndAccuracy (num / den) (accuracyOfFraction (num % den) den))
      (num / den : ℚ) := by
  have hden : (den : ℚ) ≠ 0 := by exact_mod_cast h.ne'
  have hsum : (den * (num / den : Nat) + (num % den : Nat) : ℚ) = num := by
    exact_mod_cast Nat.div_add_mod num den
  have hquotient : (num / den : ℚ) = (num / den : Nat) + (num % den : Nat) / den := by
    rw [← hsum, add_div, mul_div_cancel_left₀ _ hden]
  rw [hquotient]
  exact describes_fraction _ (Nat.mod_lt num h)

/-- Half of the number is described when the mantissa is shifted. -/
theorem Describes.shiftRightOne (h : Describes em y) : Describes em.shiftRightOne (y / 2) := by
  obtain ⟨hlow, hhigh, hsticky⟩ := h
  have hmod : (em.mantissa : ℚ) = 2 * (em.mantissa / 2 : Nat) + (em.mantissa % 2 : Nat) := by
    exact_mod_cast (Nat.div_add_mod em.mantissa 2).symm
  have hbit : halfUnit (em.mantissa % 2 != 0) = (em.mantissa % 2 : Nat) / 2 := by
    rcases Nat.mod_two_eq_zero_or_one em.mantissa with h | h <;> simp [h, halfUnit]
  rw [hmod] at hlow hhigh hsticky
  have hnonneg := halfUnit_nonneg em.roundBit
  have hle := halfUnit_le em.roundBit
  refine ⟨?_, ?_, ?_⟩
  · simp only [ExtendedMantissa.shiftRightOne, hbit]
    linarith
  · simp only [ExtendedMantissa.shiftRightOne, hbit]
    linarith
  · simp only [ExtendedMantissa.shiftRightOne, hbit, Bool.or_eq_false_iff, hsticky]
    -- The bit that is shifted out becomes the half, and what was there before only sticks to it.
    cases hround : em.roundBit
    · simp only [halfUnit, true_and, add_zero]
      constructor <;> intro h <;> linarith
    · simp only [hround, halfUnit, reduceCtorEq, false_and, false_iff] at hlow ⊢
      intro h
      linarith

theorem Describes.shiftRight (h : Describes em y) (k : Nat) : Describes (em >>> k) (y / 2 ^ k) := by
  induction k with
  | zero =>
    rw [pow_zero, div_one]
    exact h
  | succ k ih =>
    have hstep := ih.shiftRightOne
    rw [div_div, ← pow_succ] at hstep
    exact hstep

/-- **The rounded mantissa is the nearest natural number**, the even one of two. -/
theorem Describes.roundedMantissa_eq (h : Describes em y) (hnear : |y - m| ≤ 1 / 2)
    (heven : |y - m| = 1 / 2 → m % 2 = 0) : em.roundedMantissa = m := by
  obtain ⟨hlow, hhigh, hsticky⟩ := h
  obtain ⟨a, r, s⟩ := em
  rw [abs_le] at hnear
  obtain ⟨hbelow, habove⟩ := hnear
  -- The four cases are: nothing left, less than half, half, and more than half of a unit.
  cases r <;> cases s <;>
    simp only [halfUnit, reduceCtorEq, true_iff, false_iff, add_zero] at hlow hhigh hsticky <;>
    simp only [ExtendedMantissa.roundedMantissa, ExtendedMantissa.accuracy,
      Accuracy.roundToNearestEven]
  · have hle : (2 * a : ℚ) < 2 * m + 2 := by linarith
    have hge : (2 * m : ℚ) < 2 * a + 2 := by linarith
    norm_cast at hle hge
    omega
  · have hlow' := lt_of_le_of_ne hlow (Ne.symm hsticky)
    have hle : (a : ℚ) < m + 1 / 2 := by linarith
    have hge : (m : ℚ) < a + 1 := by linarith
    have hle' : (2 * a : ℚ) < 2 * m + 1 := by linarith
    norm_cast at hge hle'
    omega
  · have hle : (a : ℚ) < m + 1 := by linarith
    have hge : (m : ℚ) ≤ a + 1 := by linarith
    norm_cast at hge hle
    have hm : m % 2 = 0 := by
      apply heven
      rw [hsticky]
      rcases Nat.lt_or_ge a m with h | h
      · have : m = a + 1 := by omega
        subst this
        push_cast
        norm_num
      · have : m = a := by omega
        subst this
        norm_num
    omega
  · have hlow' := lt_of_le_of_ne hlow (Ne.symm hsticky)
    have hle : (a : ℚ) < m := by linarith
    have hge : (2 * m : ℚ) < 2 * a + 3 := by linarith
    norm_cast at hge hle
    omega

/-! ### The numbers that are rounded to a double -/

/-- **Whether a mantissa and an exponent are those of a double** that is not zero. -/
structure Canonical (m : Nat) (q : Int) : Prop where
  pos : 0 < m
  lt : m < 2 * leadingBit
  low : -1074 ≤ q
  high : q ≤ 971
  normal : leadingBit ≤ m ∨ q = -1074

/-- **Whether a number is rounded to a double**: it is nearest, or the double is even and there is
another one that is as near. Below a power of two the doubles lie closer together. -/
structure Rounds (m : Nat) (q : Int) (v : ℚ) : Prop where
  near : |v / 2 ^ q - m| ≤ 1 / 2
  even : |v / 2 ^ q - m| = 1 / 2 → m % 2 = 0
  narrow : m = leadingBit → q ≠ -1074 → (m : ℚ) - 1 / 4 ≤ v / 2 ^ q

theorem leadingBit_eq : leadingBit = 2 ^ 52 := by decide

theorem two_zpow_pos (k : Int) : (0 : ℚ) < 2 ^ k :=
  zpow_pos (by norm_num) k

theorem two_zpow_add (j k : Int) : (2 : ℚ) ^ (j + k) = 2 ^ j * 2 ^ k :=
  zpow_add₀ (by norm_num) j k

theorem two_zpow_lt {j k : Int} (h : (2 : ℚ) ^ j < 2 ^ k) : j < k :=
  (zpow_lt_zpow_iff_right₀ (by norm_num)).mp h

/-- The number lies below the power of two that has one bit more. -/
theorem Rounds.lt (hc : Canonical m q) (hv : Rounds m q v) : v < 2 ^ (53 + q) := by
  have hm : (m : ℚ) + 1 ≤ 2 ^ (53 : Int) := by
    have := hc.lt
    rw [leadingBit_eq] at this
    exact_mod_cast this
  have hupper := (abs_le.mp hv.near).2
  rw [two_zpow_add, ← div_lt_iff₀ (two_zpow_pos q)]
  linarith

/-- A normal number lies above half of the power of two with as many bits, and above that power
unless it is rounded up to it. -/
theorem Rounds.gt (hc : Canonical m q) (hv : Rounds m q v) (hq : q ≠ -1074) :
    2 ^ (51 + q) < v ∧ (m = leadingBit ∨ 2 ^ (52 + q) < v) := by
  have hm : (2 : ℚ) ^ (52 : Int) ≤ m := by
    have := hc.normal.resolve_right hq
    rw [leadingBit_eq] at this
    exact_mod_cast this
  have hlower := (abs_le.mp hv.near).1
  rw [two_zpow_add, two_zpow_add, ← lt_div_iff₀ (two_zpow_pos q), ← lt_div_iff₀ (two_zpow_pos q)]
  refine ⟨?_, or_iff_not_imp_left.mpr fun hne => ?_⟩
  · have hhalf : (2 : ℚ) ^ (52 : Int) = 2 ^ (51 : Int) * 2 := by norm_num
    have hone : (1 : ℚ) ≤ 2 ^ (51 : Int) := by norm_num
    linarith
  · have hm' : (2 : ℚ) ^ (52 : Int) + 1 ≤ m := by
      have hlt := lt_of_le_of_ne (hc.normal.resolve_right hq) (Ne.symm hne)
      rw [leadingBit_eq] at hlt
      exact_mod_cast hlt
    linarith

/-- A double stands for a number that is rounded to it. -/
theorem rounds_self (m : Nat) (q : Int) : Rounds m q (m * 2 ^ q) := by
  have hvalue : (m * 2 ^ q / 2 ^ q : ℚ) = m := mul_div_cancel_right₀ _ (two_zpow_pos q).ne'
  refine ⟨?_, ?_, ?_⟩ <;> rw [hvalue]
  · norm_num
  · norm_num
  · intros
    linarith

/-- A power of ten is at least the power of two with thrice the exponent. -/
theorem two_zpow_le_ten_zpow (k : Nat) : (2 : ℚ) ^ (3 * k : Int) ≤ 10 ^ (k : Int) := by
  rw [zpow_mul, zpow_natCast, zpow_natCast]
  exact pow_le_pow_left₀ (by norm_num) (by norm_num) k

/-- A number that is rounded to a double is not too great to be looked at, and not too small. -/
theorem Rounds.bounds (hc : Canonical m q) (hv : Rounds m q v) :
    (10 : ℚ) ^ (-400 : Int) < v ∧ v < 10 ^ (400 : Int) := by
  have hlow := hc.low
  have hhigh := hc.high
  constructor
  · have hhalf : (2 : ℚ) ^ (-1 + q) ≤ v := by
      have hone : (1 : ℚ) ≤ m := by exact_mod_cast hc.pos
      have hbelow := (abs_le.mp hv.near).1
      rw [two_zpow_add, ← le_div_iff₀ (two_zpow_pos q), zpow_neg_one]
      linarith
    have hpower : (10 : ℚ) ^ (-400 : Int) ≤ 2 ^ (-1200 : Int) := by
      rw [zpow_neg, zpow_neg]
      exact inv_anti₀ (two_zpow_pos _) (two_zpow_le_ten_zpow 400)
    have hless : (2 : ℚ) ^ (-1200 : Int) < 2 ^ (-1 + q) :=
      zpow_lt_zpow_right₀ (by norm_num) (by omega)
    linarith
  · have hless : (2 : ℚ) ^ (53 + q) ≤ 2 ^ (1200 : Int) :=
      zpow_le_zpow_right₀ (by norm_num) (by omega)
    exact (hv.lt hc).trans_le (hless.trans (two_zpow_le_ten_zpow 400))

/-- Below the least mantissa the doubles lie twice as close, and a number is rounded to it only if
it is within half of their distance. -/
theorem Rounds.near_below (hv : Rounds leadingBit q v) (hq : q ≠ -1074) (hlt : v < 2 ^ (52 + q)) :
    |v / 2 ^ (q - 1) - (2 * leadingBit : Nat)| ≤ 1 / 2 := by
  have hdouble : v / 2 ^ (q - 1) = 2 * (v / 2 ^ q) := by
    rw [sub_eq_add_neg, two_zpow_add, zpow_neg_one]
    field_simp
  have hnarrow := hv.narrow rfl hq
  have hless : v / 2 ^ q < leadingBit := by
    rw [two_zpow_add, ← div_lt_iff₀ (two_zpow_pos q)] at hlt
    rw [leadingBit_eq]
    exact_mod_cast hlt
  rw [hdouble, abs_le]
  push_cast
  constructor <;> linarith

/-! ### Rounding -/

variable {M : Nat} {e : Int} {acc : Accuracy}

theorem mantissa_ofMantissaAndAccuracy (M : Nat) (acc : Accuracy) :
    (ExtendedMantissa.ofMantissaAndAccuracy M acc).mantissa = M := by
  rcases acc with _ | (_ | _ | _) <;> rfl

/-- A number that is described lies between the mantissa and its successor. -/
theorem Describes.between (h : Describes (.ofMantissaAndAccuracy M acc) y) :
    (M : ℚ) ≤ y ∧ y < M + 1 := by
  obtain ⟨hlow, hhigh, -⟩ := h
  rw [mantissa_ofMantissaAndAccuracy] at hlow hhigh
  have hnonneg := halfUnit_nonneg (ExtendedMantissa.ofMantissaAndAccuracy M acc).roundBit
  have hle := halfUnit_le (ExtendedMantissa.ofMantissaAndAccuracy M acc).roundBit
  exact ⟨by linarith, by linarith⟩

/-- The exponent to which a mantissa is shifted. -/
theorem targetExponent_eq (M : Nat) (e : Int) :
    Format.binary64.targetExponent (totalExponent M e) = max ((M.log2 : Int) + e - 52) (-1074) := by
  simp only [Format.targetExponent, totalExponent, Format.mantissaBits, Format.minExponent]
  norm_num
  omega

/-- **The exponent to which a mantissa is shifted is that of the double**, or the one below if the
mantissa will overflow when it is rounded. -/
theorem targetExponent_of_rounds (hc : Canonical m q) (hv : Rounds m q v)
    (hbetween : (M : ℚ) ≤ v / 2 ^ e ∧ v / 2 ^ e < M + 1) (hbits : leadingBit ≤ M ∨ e ≤ -1074) :
    max ((M.log2 : Int) + e - 52) (-1074) = q ∨
      (max ((M.log2 : Int) + e - 52) (-1074) = q - 1 ∧ m = leadingBit ∧ q ≠ -1074 ∧
        v < 2 ^ (52 + q)) := by
  obtain ⟨hM, hM'⟩ := hbetween
  rw [le_div_iff₀ (two_zpow_pos e)] at hM
  rw [div_lt_iff₀ (two_zpow_pos e)] at hM'
  have hlow := hc.low
  -- The number lies below the next power of two after its leading bit.
  have hupper : v < 2 ^ ((M.log2 : Int) + 1 + e) := by
    have hsucc : (M : ℚ) + 1 ≤ 2 ^ ((M.log2 : Int) + 1) := by
      exact_mod_cast Nat.lt_log2_self (n := M)
    rw [two_zpow_add]
    exact hM'.trans_le (mul_le_mul_of_nonneg_right hsucc (two_zpow_pos e).le)
  have hle : max ((M.log2 : Int) + e - 52) (-1074) ≤ q := by
    rcases Nat.eq_zero_or_pos M with rfl | hpos
    · have hsmall : e ≤ -1074 := hbits.resolve_left (by decide)
      simp only [Nat.log2_zero]
      omega
    · have hlog : (2 : ℚ) ^ (M.log2 : Int) ≤ M := by
        exact_mod_cast Nat.log2_self_le hpos.ne'
      have hlower : (2 : ℚ) ^ ((M.log2 : Int) + e) < 2 ^ (53 + q) := by
        rw [two_zpow_add]
        exact ((mul_le_mul_of_nonneg_right hlog (two_zpow_pos e).le).trans hM).trans_lt (hv.lt hc)
      have := two_zpow_lt hlower
      omega
  -- Only the least exponent leaves room for a mantissa without the leading bit.
  by_cases hq : q = -1074
  · exact Or.inl (by omega)
  · obtain ⟨hhalf, hleading | habove⟩ := hv.gt hc hq
    · have hge := two_zpow_lt (hhalf.trans hupper)
      by_cases hsame : (M.log2 : Int) + e - 52 = q - 1
      · refine Or.inr ⟨by omega, hleading, hq, ?_⟩
        have : (M.log2 : Int) + 1 + e = 52 + q := by omega
        rwa [this] at hupper
      · exact Or.inl (by omega)
    · have hge := two_zpow_lt (habove.trans hupper)
      exact Or.inl (by omega)

/-- A mantissa that fits is not shifted. -/
theorem shiftToTargetExponent_canonical (hc : Canonical m q) :
    shiftToTargetExponent Format.binary64 m q .exact = (⟨m, false, false⟩, q) := by
  have hlog : m.log2 ≤ 52 := by
    have hlt : m < 2 ^ 53 := hc.lt
    have := (Nat.log2_lt hc.pos.ne').mpr hlt
    omega
  have hshift : (max ((m.log2 : Int) + q - 52) (-1074) - q).toNat = 0 := by
    have := hc.low
    omega
  rw [shiftToTargetExponent, targetExponent_eq, shiftToExponent, hshift]
  exact Prod.ext rfl (Int.add_zero q)

/-- A mantissa with one bit too many is shifted by one. -/
theorem shiftToTargetExponent_overflow (hq : -1074 < q) :
    shiftToTargetExponent Format.binary64 (2 * leadingBit) (q - 1) .exact =
      (⟨leadingBit, false, false⟩, q) := by
  have hlog : (2 * leadingBit).log2 = 53 := rfl
  have hshift : (max (((53 : Nat) : Int) + (q - 1) - 52) (-1074) - (q - 1)).toNat = 1 := by omega
  rw [shiftToTargetExponent, targetExponent_eq, hlog, shiftToExponent, hshift]
  exact Prod.ext rfl (Int.sub_add_cancel q 1)

/-- **Rounding gives the double that a number is rounded to**, if the number is described with bits
enough. -/
theorem roundWithAccuracy_of_rounds (s : Sign) (hc : Canonical m q) (hv : Rounds m q v)
    (hd : Describes (.ofMantissaAndAccuracy M acc) (v / 2 ^ e))
    (hbits : leadingBit ≤ M ∨ e ≤ -1074) :
    roundWithAccuracy Format.binary64 s M e acc = .finite s m q hc.pos := by
  set t := max ((M.log2 : Int) + e - 52) (-1074) with ht
  obtain ⟨k, hk⟩ : ∃ k : Nat, t = e + k := by
    have htarget := targetExponent_of_rounds hc hv hd.between hbits
    have hbits' : (52 : Int) ≤ M.log2 ∨ e ≤ -1074 := by
      refine hbits.imp_left fun h => ?_
      have hpos : 0 < M := (show 0 < leadingBit by decide).trans_le h
      exact_mod_cast (Nat.le_log2 hpos.ne').mpr (leadingBit_eq ▸ h)
    exact ⟨(t - e).toNat, by omega⟩
  -- The first shift brings the mantissa to the unit of the double, where it is rounded.
  have hfirst : shiftToTargetExponent Format.binary64 M e acc =
      (ExtendedMantissa.ofMantissaAndAccuracy M acc >>> k, t) := by
    have hamount : (t - e).toNat = k := by omega
    rw [shiftToTargetExponent, targetExponent_eq, ← ht, shiftToExponent, hamount, hk]
  have hshifted : Describes (ExtendedMantissa.ofMantissaAndAccuracy M acc >>> k) (v / 2 ^ t) := by
    have h := hd.shiftRight k
    rwa [div_div, ← zpow_natCast, ← two_zpow_add, ← hk] at h
  rw [roundWithAccuracy, hfirst]
  rcases targetExponent_of_rounds hc hv hd.between hbits with hsame | ⟨hbelow, hm, hq, hlt⟩
  · -- The mantissa is rounded at the exponent of the double.
    rw [← ht] at hsame
    rw [hsame] at hshifted ⊢
    simp only [hshifted.roundedMantissa_eq hv.near hv.even, shiftToTargetExponent_canonical hc,
      hc.pos.ne', dite_false]
  · -- It is rounded up to a power of two, and shifted once more.
    subst hm
    rw [← ht] at hbelow
    rw [hbelow] at hshifted ⊢
    have hrounded := hshifted.roundedMantissa_eq (hv.near_below hq hlt) fun _ => by decide
    have hlow := hc.low
    simp only [hrounded, shiftToTargetExponent_overflow (show -1074 < q by omega), hc.pos.ne',
      dite_false]

/-- A product of mantissas is rounded to the double if it has bits enough. -/
theorem mul_of_rounds {M₁ M₂ : Nat} {e₁ e₂ : Int} {h₁ : 0 < M₁} {h₂ : 0 < M₂} (hc : Canonical m q)
    (hv : Rounds m q (M₁ * 2 ^ e₁ * (M₂ * 2 ^ e₂))) (hbits : leadingBit ≤ M₁ * M₂) :
    UnpackedFloat.mul Format.binary64 (.finite .positive M₁ e₁ h₁) (.finite .positive M₂ e₂ h₂) =
      .finite .positive m q hc.pos := by
  refine roundWithAccuracy_of_rounds .positive hc hv ?_ (Or.inl hbits)
  have hvalue : (M₁ * 2 ^ e₁ * (M₂ * 2 ^ e₂) / 2 ^ (e₁ + e₂) : ℚ) = (M₁ * M₂ : Nat) := by
    rw [two_zpow_add]
    push_cast
    field_simp
  rw [hvalue]
  exact describes_exact _

/-- A quotient is computed with bits enough. -/
theorem le_shiftLeft_div {M₁ M₂ k : Nat} (h₁ : 0 < M₁) (h₂ : 0 < M₂)
    (h : M₂.log2 + 53 ≤ M₁.log2 + k) : leadingBit ≤ (M₁ <<< k) / M₂ := by
  rw [Nat.le_div_iff_mul_le h₂, Nat.shiftLeft_eq, leadingBit_eq]
  calc 2 ^ 52 * M₂ ≤ 2 ^ 52 * 2 ^ (M₂.log2 + 1) := Nat.mul_le_mul_left _ Nat.lt_log2_self.le
    _ = 2 ^ (M₂.log2 + 53) := by rw [← Nat.pow_add]; congr 1; omega
    _ ≤ 2 ^ (M₁.log2 + k) := Nat.pow_le_pow_right (by decide) h
    _ = 2 ^ M₁.log2 * 2 ^ k := Nat.pow_add _ _ _
    _ ≤ M₁ * 2 ^ k := Nat.mul_le_mul_right _ (Nat.log2_self_le h₁.ne')

/-- **A quotient is rounded to the double.** -/
theorem div_of_rounds {M₁ M₂ : Nat} {e₁ e₂ : Int} {h₁ : 0 < M₁} {h₂ : 0 < M₂} (hc : Canonical m q)
    (hv : Rounds m q (M₁ * 2 ^ e₁ / (M₂ * 2 ^ e₂))) :
    UnpackedFloat.div Format.binary64 (.finite .positive M₁ e₁ h₁) (.finite .positive M₂ e₂ h₂) =
      .finite .positive m q hc.pos := by
  -- The exponent of the quotient is that of the result, or a smaller one.
  have htarget : Format.binary64.targetExponent (totalExponent M₁ e₁ - totalExponent M₂ e₂) =
      max ((M₁.log2 : Int) + e₁ - (M₂.log2 + e₂) - 53) (-1074) := by
    simp only [Format.targetExponent, totalExponent, Format.mantissaBits, Format.minExponent]
    norm_num
    omega
  obtain ⟨t, ht⟩ : ∃ t, t =
      min (e₁ - e₂) (max ((M₁.log2 : Int) + e₁ - (M₂.log2 + e₂) - 53) (-1074)) := ⟨_, rfl⟩
  obtain ⟨k, hk⟩ : ∃ k : Nat, e₁ - e₂ - t = k := ⟨(e₁ - e₂ - t).toNat, by omega⟩
  -- The quotient has bits enough, unless it is cut off at the least exponent anyhow.
  have hbits : leadingBit ≤ (M₁ <<< k) / M₂ ∨ t ≤ -1074 := by
    by_cases hsmall : t ≤ -1074
    · exact Or.inr hsmall
    · exact Or.inl (le_shiftLeft_div h₁ h₂ (by omega))
  have hquotient : (M₁ * 2 ^ e₁ / (M₂ * 2 ^ e₂) / 2 ^ t : ℚ) = (M₁ <<< k : Nat) / M₂ := by
    have he : e₁ = k + t + e₂ := by omega
    rw [he, two_zpow_add, two_zpow_add, Nat.shiftLeft_eq]
    push_cast
    rw [zpow_natCast]
    have hM₂ : (M₂ : ℚ) ≠ 0 := by exact_mod_cast h₂.ne'
    field_simp
  have hcore : divCore Format.binary64 M₁ e₁ M₂ e₂ =
      ((M₁ <<< k) / M₂, t, accuracyOfFraction ((M₁ <<< k) % M₂) M₂) := by
    have hshift : (e₁ - e₂ - t).toNat = k := by omega
    rw [divCore, htarget, ← ht, hshift]
  rw [UnpackedFloat.div, hcore]
  refine roundWithAccuracy_of_rounds .positive hc hv ?_ hbits
  rw [hquotient]
  exact describes_quotient _ h₂

end Dossier.Decimal
