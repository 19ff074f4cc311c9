import Dossier.Proofs.Decimal.Digits
import Dossier.Proofs.Decimal.Double

/-!
# The double nearest to a decimal number

Short decimal numbers are read fast: a mantissa that is a double is multiplied with a power of ten
that is one, or divided by it, and only the result is rounded. Long ones are rounded from exact
integers. Either way a decimal number that is rounded to a double is read as this double
(`Dossier.Decimal.toFloat?_of_rounds`), since both ways lead to the same rounding of the same number
(`Dossier.Decimal.StandsFor.mul`, `Dossier.Decimal.ofScientific_of_rounds`).
-/

namespace Dossier.Decimal

open Float.Model Float.Model.UnpackedFloat

variable {m n M : Nat} {q e E : Int} {v : ℚ}

/-! ### Doubles that are whole numbers -/

/-- A number with as many bits as a double has is shifted until its first bit is the leading one. -/
theorem canonical_shiftLeft (hn : n ≠ 0) (h : n < 2 * leadingBit) (hlow : -1022 ≤ e)
    (hhigh : e ≤ 971) :
    Canonical (n <<< (52 - n.log2)) (e - (52 - n.log2 : Nat)) ∧
      leadingBit ≤ n <<< (52 - n.log2) := by
  have hlog : n.log2 ≤ 52 := by
    have := (Nat.log2_lt hn).mpr (show n < 2 ^ 53 from h)
    omega
  have hle : leadingBit ≤ n <<< (52 - n.log2) := by
    rw [Nat.shiftLeft_eq, leadingBit_eq]
    calc 2 ^ 52 = 2 ^ n.log2 * 2 ^ (52 - n.log2) := by rw [← Nat.pow_add, Nat.add_sub_cancel' hlog]
      _ ≤ n * 2 ^ (52 - n.log2) := Nat.mul_le_mul_right _ (Nat.log2_self_le hn)
  have hlt : n <<< (52 - n.log2) < 2 * leadingBit := by
    rw [Nat.shiftLeft_eq, leadingBit_eq]
    calc n * 2 ^ (52 - n.log2) < 2 ^ (n.log2 + 1) * 2 ^ (52 - n.log2) :=
          Nat.mul_lt_mul_of_pos_right Nat.lt_log2_self (Nat.two_pow_pos _)
      _ = 2 ^ (n.log2 + (52 - n.log2) + 1) := by rw [← Nat.pow_add]; congr 1; omega
      _ = 2 * 2 ^ 52 := by rw [Nat.add_sub_cancel' hlog]; rfl
  have hpos : 0 < n <<< (52 - n.log2) := (show 0 < leadingBit by decide).trans_le hle
  exact ⟨⟨hpos, hlt, by omega, by omega, Or.inl hle⟩, hle⟩

theorem shiftLeft_mul_zpow (n k : Nat) (e : Int) :
    ((n <<< k : Nat) * 2 ^ (e - k) : ℚ) = n * 2 ^ e := by
  rw [Nat.shiftLeft_eq, sub_eq_add_neg, two_zpow_add, zpow_neg, zpow_natCast]
  push_cast
  field_simp

/-- **Whether a double stands for a number** and has its leading bit. -/
def StandsFor (x : Float) (v : ℚ) : Prop :=
  ∃ m q, ∃ hc : Canonical m q, leadingBit ≤ m ∧ x = hc.toFloat .positive ∧ (m * 2 ^ q : ℚ) = v

theorem standsFor_shiftLeft {x : Float} (hn : n ≠ 0) (h : n < 2 * leadingBit) (hlow : -1022 ≤ e)
    (hhigh : e ≤ 971)
    (hx : ∀ hc : Canonical (n <<< (52 - n.log2)) (e - (52 - n.log2 : Nat)),
      x = hc.toFloat .positive) :
    StandsFor x (n * 2 ^ e) :=
  have hc := canonical_shiftLeft hn h hlow hhigh
  ⟨_, _, hc.1, hc.2, hx hc.1, shiftLeft_mul_zpow n _ e⟩

/-- **A number with as many bits as a double has is a double.** -/
theorem standsFor_toFloat (hn : n ≠ 0) (h : n < 2 * leadingBit) :
    StandsFor n.toUInt64.toFloat n := by
  have hwhole : (n * 2 ^ (0 : Int) : ℚ) = n := by simp
  rw [← hwhole]
  refine standsFor_shiftLeft hn h (by decide) (by decide) fun hc => ?_
  have hnat : n.toUInt64.toNat = n := by
    have hsize : 2 * leadingBit < 2 ^ 64 := by decide
    rw [Nat.toUInt64, UInt64.toNat_ofNat', Nat.mod_eq_of_lt (h.trans hsize)]
  have hcompare : compare (n : Int) 0 = .gt := by
    rw [Int.compare_eq_gt]
    omega
  have hlog : n.log2 ≤ 52 := by
    have := (Nat.log2_lt hn).mpr (show n < 2 ^ 53 from h)
    omega
  have hshift : (0 - max ((n.log2 : Int) + 0 - 52) (-1074)).toNat = 52 - n.log2 := by omega
  have hrounds := rounds_self (n <<< (52 - n.log2)) (0 - (52 - n.log2 : Nat))
  have hbits := (canonical_shiftLeft hn h (show -1022 ≤ 0 by decide) (by decide)).2
  have hround : UnpackedFloat.ofUInt64 Format.binary64 n.toUInt64 =
      .finite .positive _ (0 - (52 - n.log2 : Nat)) hc.pos := by
    rw [UnpackedFloat.ofUInt64, UnpackedFloat.ofNat, UnpackedFloat.ofInt, UnpackedFloat.normalize,
      hnat, hcompare]
    simp only [Int.toNat_natCast]
    rw [UnpackedFloat.round, targetExponent_eq, decreaseExponent, hshift]
    refine roundWithAccuracy_of_rounds .positive hc hrounds ?_ (Or.inl hbits)
    rw [mul_div_cancel_right₀ _ (two_zpow_pos _).ne']
    exact describes_exact _
  exact congrArg (fun u => Float.ofModel (.pack u)) hround

/-- **The powers of ten that are doubles.** -/
theorem exactlyRepresentablePowersOfTen_eq : ∀ k : Fin 23,
    getElem Float.exactlyRepresentablePowersOfTen k.val k.isLt =
      .ofModel (.pack (.finite .positive (5 ^ k.val <<< (52 - (5 ^ k.val).log2))
        (k.val - (52 - (5 ^ k.val).log2 : Nat))
        (Nat.shiftLeft_eq _ _ ▸ Nat.mul_pos (Nat.pow_pos (by decide)) (Nat.two_pow_pos _)))) := by
  decide +kernel

theorem standsFor_powerOfTen {k : Nat} (h : k < Float.exactlyRepresentablePowersOfTen.size) :
    StandsFor (getElem Float.exactlyRepresentablePowersOfTen k h) (10 ^ k) := by
  have hk : k < 23 := h
  have hvalue : ((5 ^ k : Nat) * 2 ^ (k : Int) : ℚ) = 10 ^ k := by
    push_cast
    rw [zpow_natCast, ← mul_pow]
    norm_num
  rw [← hvalue]
  refine standsFor_shiftLeft (Nat.pow_pos (by decide)).ne' ?_ (by omega) (by omega) fun hc => ?_
  · calc 5 ^ k ≤ 5 ^ 22 := Nat.pow_le_pow_right (by decide) (by omega)
      _ < 2 * leadingBit := by decide
  · exact exactlyRepresentablePowersOfTen_eq ⟨k, hk⟩

variable {x y : Float} {w : ℚ}

/-- **A product is rounded to the double.** -/
theorem StandsFor.mul (hx : StandsFor x v) (hy : StandsFor y w) (hc : Canonical m q)
    (hv : Rounds m q (v * w)) : x * y = hc.toFloat .positive := by
  obtain ⟨m₁, q₁, hc₁, hbits, rfl, rfl⟩ := hx
  obtain ⟨m₂, q₂, hc₂, -, rfl, rfl⟩ := hy
  have hproduct : UnpackedFloat.mul Format.binary64 (hc₁.toFloat .positive).toModel.unpack
      (hc₂.toFloat .positive).toModel.unpack = .finite .positive m q hc.pos := by
    rw [unpack_toFloat, unpack_toFloat]
    exact mul_of_rounds hc hv (hbits.trans (Nat.le_mul_of_pos_right m₁ hc₂.pos))
  exact congrArg (fun u => Float.ofModel (.pack u)) hproduct

/-- **A quotient is rounded to the double.** -/
theorem StandsFor.div (hx : StandsFor x v) (hy : StandsFor y w) (hc : Canonical m q)
    (hv : Rounds m q (v / w)) : x / y = hc.toFloat .positive := by
  obtain ⟨m₁, q₁, hc₁, -, rfl, rfl⟩ := hx
  obtain ⟨m₂, q₂, hc₂, -, rfl, rfl⟩ := hy
  have hquotient : UnpackedFloat.div Format.binary64 (hc₁.toFloat .positive).toModel.unpack
      (hc₂.toFloat .positive).toModel.unpack = .finite .positive m q hc.pos := by
    rw [unpack_toFloat, unpack_toFloat]
    exact div_of_rounds hc hv
  exact congrArg (fun u => Float.ofModel (.pack u)) hquotient

/-! ### Decimal numbers -/

/-- **The size of a decimal number that is rounded to a double** is neither too great nor too
small. -/
theorem size_of_rounds (hc : Canonical m q) (hM : M ≠ 0) (hv : Rounds m q (M * 10 ^ E)) :
    -400 < ((digits M).length : Int) + E ∧ ((digits M).length : Int) + E ≤ 400 := by
  obtain ⟨hlow, hhigh⟩ := hv.bounds hc
  have hten : (0 : ℚ) < 10 ^ E := zpow_pos (by norm_num) E
  constructor
  · have hlt : (M : ℚ) < 10 ^ ((digits M).length : Int) := by
      exact_mod_cast (spells_digits M).lt
    have hsize := hlow.trans (mul_lt_mul_of_pos_right hlt hten)
    rw [← zpow_add₀ (by norm_num)] at hsize
    exact (zpow_lt_zpow_iff_right₀ (by norm_num)).mp hsize
  · have hle : (10 : ℚ) ^ (((digits M).length - 1 : Nat) : Int) ≤ M := by
      exact_mod_cast ten_pow_le_of_digits (Nat.pos_of_ne_zero hM)
    have hsize := (mul_le_mul_of_nonneg_right hle hten.le).trans_lt hhigh
    rw [← zpow_add₀ (by norm_num)] at hsize
    have := (zpow_lt_zpow_iff_right₀ (by norm_num)).mp hsize
    omega

/-- A number has no more digits than bits. -/
theorem length_digits_le_log2 (n : Nat) : (digits n).length ≤ n.log2 + 1 :=
  length_digits_le (Nat.succ_pos _) (lt_ten_pow_log2 n)

/-- A mantissa that is given more bits, times a power of ten, has bits enough. -/
theorem leadingBit_le_shifted (hM : M ≠ 0) (k : Nat) :
    leadingBit ≤ M <<< Format.binary64.mantissaBits * 10 ^ k := by
  have hone : 1 ≤ M * 10 ^ k := Nat.mul_pos (Nat.pos_of_ne_zero hM) (Nat.pow_pos (by decide))
  have hmantissa : Format.binary64.mantissaBits = 53 := by decide
  rw [hmantissa, Nat.shiftLeft_eq, Nat.mul_right_comm]
  calc leadingBit ≤ 1 * 2 ^ 53 := by decide
    _ ≤ M * 10 ^ k * 2 ^ 53 := Nat.mul_le_mul_right _ hone

/-- The product that a positive power of ten is rounded by. -/
theorem shifted_mul_value (M k : Nat) :
    ((M <<< Format.binary64.mantissaBits : Nat) * 2 ^ (-Format.binary64.mantissaBits : Int) *
      ((10 ^ k : Nat) * 2 ^ (0 : Int)) : ℚ) = M * 10 ^ (k : Int) := by
  have hshift := shiftLeft_mul_zpow M Format.binary64.mantissaBits 0
  rw [zero_sub, zpow_zero, mul_one] at hshift
  rw [hshift, zpow_zero, mul_one, zpow_natCast]
  push_cast
  rfl

/-- The quotient that a negative power of ten is rounded by. -/
theorem div_value (M k : Nat) :
    ((M : ℚ) * 2 ^ (0 : Int) / ((10 ^ k : Nat) * 2 ^ (0 : Int))) = M * 10 ^ (-k : Int) := by
  rw [zpow_zero, mul_one, mul_one, zpow_neg, zpow_natCast, div_eq_mul_inv]
  push_cast
  rfl

/-- **Decimal numbers that are not short are rounded exactly as well.** -/
theorem ofScientific_of_rounds (hc : Canonical m q) (hM : M ≠ 0) (hv : Rounds m q (M * 10 ^ E)) :
    UnpackedFloat.ofScientific Format.binary64 M E = .finite .positive m q hc.pos := by
  obtain ⟨hlow, hhigh⟩ := size_of_rounds hc hM hv
  have hbits := length_digits_le_log2 M
  have hlength := List.length_pos_iff.mpr (digits_ne_nil M)
  have hgreat : ¬E > 2 ^ Format.binary64.exponentBits := by
    change ¬E > 2 ^ 11
    omega
  have hsmall : ¬E < -((2 ^ Format.binary64.exponentBits : Int) + M.log2) := by
    change ¬E < -((2 ^ 11 : Int) + M.log2)
    omega
  rw [UnpackedFloat.ofScientific, dif_neg hM, if_neg hgreat, if_neg hsmall]
  split
  · next hnonneg =>
    obtain ⟨k, rfl⟩ := Int.eq_ofNat_of_zero_le hnonneg
    rw [← shifted_mul_value] at hv
    exact mul_of_rounds hc hv (leadingBit_le_shifted hM k)
  · next hneg =>
    obtain ⟨k, hk⟩ := Int.eq_ofNat_of_zero_le (show 0 ≤ -E by omega)
    obtain rfl : E = -k := by omega
    rw [← div_value] at hv
    have hnat : (-(-(k : Int))).toNat = k := by omega
    simp only [hnat]
    exact div_of_rounds hc hv

/-- A short decimal number is a product or a quotient of doubles, any other one is rounded
exactly. -/
theorem ofScientific_nonneg_of_rounds {k : Nat} (hc : Canonical m q) (hM : M ≠ 0)
    (hv : Rounds m q (M * 10 ^ (k : Int))) :
    Float.ofScientific M false k = hc.toFloat .positive := by
  rw [Float.ofScientific]
  split
  · next hshort =>
    rw [zpow_natCast] at hv
    exact (standsFor_toFloat hM hshort.1).mul (standsFor_powerOfTen _) hc hv
  · exact congrArg (fun u => Float.ofModel (.pack u)) (ofScientific_of_rounds hc hM hv)

theorem ofScientific_neg_of_rounds {k : Nat} (hc : Canonical m q) (hM : M ≠ 0)
    (hv : Rounds m q (M * 10 ^ (-(k : Int)))) :
    Float.ofScientific M true k = hc.toFloat .positive := by
  rw [Float.ofScientific]
  split
  · next hshort =>
    rw [zpow_neg, zpow_natCast, ← div_eq_mul_inv] at hv
    exact (standsFor_toFloat hM hshort.1).div (standsFor_powerOfTen _) hc hv
  · have hnegative : Int.negOfNat k = -(k : Int) := Int.negOfNat_eq
    rw [if_pos rfl, hnegative]
    exact congrArg (fun u => Float.ofModel (.pack u)) (ofScientific_of_rounds hc hM hv)

theorem isFinite_toFloat (s : Sign) (hc : Canonical m q) : (hc.toFloat s).isFinite = true := by
  rw [Float.isFinite, Float.Model.isFinite, unpack_toFloat]
  rfl

theorem neg_toFloat (hc : Canonical m q) : -hc.toFloat .positive = hc.toFloat .negative := by
  have hneg : (hc.toFloat .positive).toModel.unpack.neg = .finite .negative m q hc.pos := by
    rw [unpack_toFloat]
    rfl
  exact congrArg (fun u => Float.ofModel (.pack u)) hneg

/-- **A decimal number is read as the double that it is rounded to.** -/
theorem toFloat?_of_rounds (s : Sign) (hc : Canonical m q) (hM : M ≠ 0)
    (hv : Rounds m q (M * 10 ^ E)) : toFloat? (isNegative s) M E = some (hc.toFloat s) := by
  obtain ⟨hlow, hhigh⟩ := size_of_rounds hc hM hv
  have hzero : (M == 0 || decide (((digits M).length : Int) + E < -400)) = false := by
    simp only [Bool.or_eq_false_iff, beq_eq_false_iff_ne, decide_eq_false_iff_not]
    omega
  have hgreat : ¬400 < ((digits M).length : Int) + E := by omega
  have hsigned : (if isNegative s then -hc.toFloat .positive else hc.toFloat .positive) =
      hc.toFloat s := by
    cases s with
    | positive => rfl
    | negative => exact neg_toFloat hc
  simp only [toFloat?, hzero, hgreat, Bool.false_eq_true, if_false]
  cases E with
  | ofNat k =>
    have hread : Float.ofScientific M false k = hc.toFloat .positive :=
      ofScientific_nonneg_of_rounds hc hM hv
    simp only [hread, isFinite_toFloat, if_true, Option.map_some, hsigned]
  | negSucc k =>
    have hread : Float.ofScientific M true (k + 1) = hc.toFloat .positive :=
      ofScientific_neg_of_rounds hc hM hv
    simp only [hread, isFinite_toFloat, if_true, Option.map_some, hsigned]

/-- Zero has a sign. -/
theorem toFloat?_zero (s : Sign) (E : Int) :
    toFloat? (isNegative s) 0 E = some (.ofModel (.pack (.zero s))) := by
  have hpositive : (0.0 : Float) = .ofModel (.pack (.zero .positive)) := rfl
  have hnegative : -(0.0 : Float) = .ofModel (.pack (.zero .negative)) := rfl
  cases s with
  | positive => exact congrArg some hpositive
  | negative => exact congrArg some hnegative

end Dossier.Decimal
