import Dossier.Proofs.Decimal.Rounding

/-!
# The bits of doubles

The sign, the exponent and the mantissa of a double are digits of the number that its bits are, so
that they can be read off by division (`Dossier.Decimal.toNat_unpackExponent` and its neighbours),
which is how `Dossier.Decimal.Double.ofFloat` reads them. A finite double is a zero with
a sign or is packed from a sign, a mantissa and an exponent
(`Dossier.Decimal.exists_of_isFinite`), and these are found again when it is unpacked
(`Dossier.Decimal.unpack_toFloat`).
-/

namespace Dossier.Decimal

open Float.Model Float.Model.UnpackedFloat

variable {m : Nat} {q : Int}

/-! ### Packed bits -/

theorem toNat_unpackMantissa (b : BitVec 64) :
    (@unpackMantissa Format.binary64 b).toNat = b.toNat % leadingBit := by
  simp [unpackMantissa, leadingBit]

theorem toNat_unpackExponent (b : BitVec 64) :
    (@unpackExponent Format.binary64 b).toNat = b.toNat / leadingBit % 2048 := by
  simp [unpackExponent, leadingBit, Nat.shiftRight_eq_div_pow]

theorem toNat_unpackSign (b : BitVec 64) :
    (@unpackSign Format.binary64 b).toNat = b.toNat / (2048 * leadingBit) := by
  have hlt := b.isLt
  have hmod : b.toNat / 9223372036854775808 % 2 = b.toNat / 9223372036854775808 :=
    Nat.mod_eq_of_lt (by omega)
  simp [unpackSign, leadingBit, Nat.shiftRight_eq_div_pow, hmod]

/-! ### Finite doubles -/

/-- Whether a sign is a minus. -/
def isNegative : Sign → Bool
  | .negative => true
  | .positive => false

/-- **How a finite double is packed**: a normal one without its leading bit, a subnormal one with
the exponent zero. -/
theorem pack_finite (s : Sign) (hc : Canonical m q) :
    UnpackedFloat.pack Format.binary64 (.finite s m q hc.pos) =
      packComponents Format.binary64 s
        (BitVec.ofNat 11 (if leadingBit ≤ m then (q + 1075).toNat else 0)) (BitVec.ofNat 52 m) := by
  have hlow := hc.low
  have hhigh := hc.high
  have hlt := hc.lt
  have hbias : (Format.binary64.exponentBias : Int) + Format.binary64.mantissaBitsWithoutImplicit =
      1075 := by decide
  have hfits : ¬2 ^ 11 ≤ (q + 1075).toNat + 1 := by omega
  have hbits : m.log2 + 1 = Format.binary64.mantissaBits ↔ leadingBit ≤ m := by
    have hfull : Format.binary64.mantissaBits = 52 + 1 := by decide
    rw [hfull, Nat.add_right_cancel_iff, Nat.log2_eq_iff hc.pos.ne', leadingBit_eq]
    rw [leadingBit_eq] at hlt
    omega
  rw [UnpackedFloat.pack]
  simp only [add_assoc, hbias, hfits, if_false, hbits]
  split <;> rfl

/-- The leading bit in front of the others. -/
theorem toNat_leadingBit_append (f : BitVec 52) : (1#1 ++ f).toNat = leadingBit + f.toNat := by
  rw [BitVec.toNat_append, ← Nat.shiftLeft_add_eq_or_of_lt f.isLt]
  rfl

/-- **A normal double is unpacked** with its leading bit. -/
theorem unpack_normal (s : Sign) {e : BitVec 11} (f : BitVec 52) (hzero : e.toNat ≠ 0)
    (hfinite : e.toNat ≠ 2047) :
    UnpackedFloat.unpack Format.binary64 (packComponents Format.binary64 s e f) =
      .finite s (leadingBit + f.toNat) ((e.toNat : Int) - 1075)
        (Nat.add_pos_left (by decide) _) := by
  have hbias : (Format.binary64.exponentBias : Int) + Format.binary64.mantissaBitsWithoutImplicit =
      1075 := by decide
  have hzero' : e ≠ 0#11 := by
    rintro rfl
    exact hzero rfl
  have hfinite' : e ≠ -1#11 := by
    rintro rfl
    exact hfinite (by decide)
  rw [UnpackedFloat.unpack]
  simp only [unpackExponent_packComponents, unpackMantissa_packComponents,
    unpackSign_packComponents, Sign.ofBitVec_toBitVec, hbias, hzero', hfinite', if_false,
    toNat_leadingBit_append]

/-- **A subnormal double is unpacked** with the least exponent. -/
theorem unpack_subnormal (s : Sign) {f : BitVec 52} (hf : f.toNat ≠ 0) :
    UnpackedFloat.unpack Format.binary64 (packComponents Format.binary64 s 0#11 f) =
      .finite s f.toNat (-1074) (Nat.pos_of_ne_zero hf) := by
  have hf' : f ≠ 0#52 := by
    rintro rfl
    exact hf rfl
  have hfinite : 0#11 ≠ -1#11 := by decide
  rw [UnpackedFloat.unpack]
  simp only [unpackExponent_packComponents, unpackMantissa_packComponents,
    unpackSign_packComponents, Sign.ofBitVec_toBitVec, hfinite, hf', if_false, dite_false]
  rfl

/-- The double with a sign, a mantissa and an exponent. -/
def Canonical.toFloat (hc : Canonical m q) (s : Sign) : Float :=
  .ofModel (.pack (.finite s m q hc.pos))

/-- **Packed doubles are unpacked.** -/
theorem unpack_toFloat (s : Sign) (hc : Canonical m q) :
    (hc.toFloat s).toModel.unpack = .finite s m q hc.pos := by
  have hlow := hc.low
  have hhigh := hc.high
  have hlt := hc.lt
  have hfraction : (BitVec.ofNat 52 m).toNat = m % leadingBit := by
    rw [BitVec.toNat_ofNat, leadingBit_eq]
  change UnpackedFloat.unpack Format.binary64
    (UnpackedFloat.pack Format.binary64 (.finite s m q hc.pos)) = _
  rw [pack_finite s hc]
  split
  · next hm =>
    -- The leading bit of a normal number is not packed; the exponent tells that it is there.
    have hexponent : (BitVec.ofNat 11 (q + 1075).toNat).toNat = (q + 1075).toNat := by
      rw [BitVec.toNat_ofNat, Nat.mod_eq_of_lt (by omega)]
    have hmantissa : leadingBit + (BitVec.ofNat 52 m).toNat = m := by
      rw [hfraction, Nat.mod_eq_sub_mod hm, Nat.mod_eq_of_lt (by omega), Nat.add_sub_cancel' hm]
    have hq : ((q + 1075).toNat : Int) - 1075 = q := by omega
    rw [unpack_normal s _ (by omega) (by omega)]
    simp only [hmantissa, hexponent, hq]
  · next hm =>
    -- A subnormal number is packed as it is, with the exponent zero.
    have hmantissa : (BitVec.ofNat 52 m).toNat = m := by
      rw [hfraction, Nat.mod_eq_of_lt (by omega)]
    have hpos := hc.pos
    rw [unpack_subnormal s (show (BitVec.ofNat 52 m).toNat ≠ 0 by omega)]
    simp only [hmantissa, hc.normal.resolve_left hm]

theorem isNegative_ofBitVec (b : BitVec 1) : isNegative (Sign.ofBitVec b) = (b.toNat == 1) := by
  revert b
  decide

/-- A finite double has not the greatest exponent. -/
theorem unpackExponent_ne {x : Float} (h : x.isFinite) :
    (@unpackExponent Format.binary64 x.toBits.toBitVec).toNat ≠ 2047 := by
  have hfinite : (UnpackedFloat.unpack Format.binary64 x.toBits.toBitVec).isFinite = true := h
  intro heq
  have hall : @unpackExponent Format.binary64 x.toBits.toBitVec = -1#11 := by
    apply BitVec.eq_of_toNat_eq
    rw [heq]
    decide
  rw [UnpackedFloat.unpack] at hfinite
  simp only [hall, if_true] at hfinite
  split at hfinite <;> cases hfinite

/-- The parts of a finite double are read off its bits. -/
theorem ofFloat_of_isFinite {x : Float} (h : x.isFinite) :
    Double.ofFloat x =
      .finite (if (@unpackExponent Format.binary64 x.toBits.toBitVec).toNat = 0 then
        ⟨isNegative (.ofBitVec (@unpackSign Format.binary64 x.toBits.toBitVec)),
          (@unpackMantissa Format.binary64 x.toBits.toBitVec).toNat, -1074⟩ else
        ⟨isNegative (.ofBitVec (@unpackSign Format.binary64 x.toBits.toBitVec)),
          (@unpackMantissa Format.binary64 x.toBits.toBitVec).toNat + leadingBit,
          ((@unpackExponent Format.binary64 x.toBits.toBitVec).toNat : Int) - 1075⟩) := by
  have hfinite := unpackExponent_ne h
  have hsize : UInt64.size / 2 = 2048 * leadingBit := by decide
  rw [toNat_unpackExponent, UInt64.toNat_toBitVec] at hfinite ⊢
  rw [toNat_unpackMantissa, isNegative_ofBitVec, toNat_unpackSign, UInt64.toNat_toBitVec,
    Double.ofFloat, hsize]
  simp only [beq_iff_eq, hfinite, if_false]
  exact (apply_ite Double.finite _ _ _).symm

/-- A double is known by its bits. -/
theorem eq_ofModel_pack {x : Float} {u : UnpackedFloat}
    (h : UnpackedFloat.pack Format.binary64 u = x.toBits.toBitVec) : x = .ofModel (.pack u) :=
  Float.toBits_inj.mp (UInt64.toBitVec_inj.mp h.symm)

/-- **What a finite double is**: a zero with a sign, or a sign, a mantissa and an exponent. -/
theorem exists_of_isFinite {x : Float} (h : x.isFinite) :
    (∃ s, x = .ofModel (.pack (.zero s)) ∧ Double.ofFloat x = .finite ⟨isNegative s, 0, -1074⟩) ∨
    ∃ (s : Sign) (m : Nat) (q : Int) (hc : Canonical m q),
      x = hc.toFloat s ∧ Double.ofFloat x = .finite ⟨isNegative s, m, q⟩ := by
  have hdouble := ofFloat_of_isFinite h
  have hfinite := unpackExponent_ne h
  have hparts :=
    @packComponents_unpackSign_unpackExponent_unpackMantissa Format.binary64 x.toBits.toBitVec
  generalize @unpackExponent Format.binary64 x.toBits.toBitVec = e at *
  generalize @unpackMantissa Format.binary64 x.toBits.toBitVec = f at *
  generalize Sign.ofBitVec (@unpackSign Format.binary64 x.toBits.toBitVec) = s at *
  have he : e.toNat < 2048 := e.isLt
  have hf : f.toNat < leadingBit := f.isLt
  by_cases hzero : e.toNat = 0
  · -- Exponent zero: the number is zero or subnormal.
    have he0 : e = 0#11 := BitVec.eq_of_toNat_eq hzero
    rw [if_pos hzero] at hdouble
    by_cases hnone : f.toNat = 0
    · have hf0 : f = 0#52 := BitVec.eq_of_toNat_eq hnone
      refine Or.inl ⟨s, eq_ofModel_pack ?_, by rw [hdouble, hnone]⟩
      rw [← hparts, he0, hf0]
      rfl
    · have hc : Canonical f.toNat (-1074) :=
        ⟨by omega, by omega, le_rfl, by decide, Or.inr rfl⟩
      refine Or.inr ⟨s, f.toNat, -1074, hc, eq_ofModel_pack ?_, hdouble⟩
      rw [pack_finite s hc, if_neg (by omega), BitVec.ofNat_toNat, BitVec.setWidth_eq, ← hparts,
        he0]
  · -- Any other exponent: the number is normal.
    rw [if_neg hzero] at hdouble
    have hc : Canonical (f.toNat + leadingBit) ((e.toNat : Int) - 1075) :=
      ⟨by omega, by omega, by omega, by omega, Or.inl (by omega)⟩
    refine Or.inr ⟨s, _, _, hc, eq_ofModel_pack ?_, hdouble⟩
    have hexponent : ((e.toNat : Int) - 1075 + 1075).toNat = e.toNat := by omega
    have hmantissa : BitVec.ofNat 52 (f.toNat + leadingBit) = f := by
      apply BitVec.eq_of_toNat_eq
      rw [BitVec.toNat_ofNat, ← leadingBit_eq, Nat.add_mod_right, Nat.mod_eq_of_lt hf]
    rw [pack_finite s hc, if_pos (by omega), hexponent, hmantissa, BitVec.ofNat_toNat,
      BitVec.setWidth_eq, hparts]

end Dossier.Decimal
