import Dossier.Proofs.Decimal.Nearest
import Dossier.Proofs.Decimal.Shortest
import Dossier.Proofs.Json.Numerals

/-!
# Finite doubles are read back

The digits of a double are written with an exponent, or with a point among them or zeros beside
them, and always so that the text is not one of an integer (`Dossier.Json.Writes`). Wherever the
point is put, the mantissa and the exponent that are read are those of the number that the digits
stand for, and this number is rounded to the double (`Dossier.Json.isNumeral_write`). Zeros keep
their sign.
-/

namespace Dossier.Json

open Decimal (IsDigit Spells Scientific Canonical Rounds dataFormat positional exponential toFloat?
  isNegative)

/-- **Whether a text writes a mantissa and an exponent**, with a point or with an exponent, so that
the number is not taken for an integer. -/
inductive Writes : List Char → Nat → Int → Prop
  | parts {whole fraction : List Char} {w f : Nat} (hwhole : Spells whole w) (hne : whole ≠ [])
      (hzero : whole.head? = some '0' → whole.length = 1) (hfraction : Spells fraction f)
      (exponent : Option Int) (hmark : (fraction.isEmpty && exponent.isNone) = false) :
      Writes (whole ++ (pointChars fraction ++ exponentChars exponent))
        (w * 10 ^ fraction.length + f) (exponent.getD 0 - fraction.length)

variable {cs : List Char} {M D m : Nat} {E q : Int} {x : Float} {s : Scientific}

/-- A text that writes a number is a numeral for the double that is read of the number. -/
theorem Writes.isNumeral (h : Writes cs M E) {negative : Bool}
    (hx : toFloat? negative M E = some x) : IsNumeral (signChars negative ++ cs) (.float x) := by
  cases h with
  | @parts whole fraction w f hwhole hne hzero hfraction exponent hmark =>
    constructor
    · cases negative with
      | true => exact ⟨'-', rfl, Or.inl rfl⟩
      | false =>
        obtain ⟨c, hc, hdigit⟩ := head?_of_isDigit hwhole.isDigit hne _
        exact ⟨c, hc, Or.inr hdigit⟩
    · intro rest hrest
      have hread := numeral?_written negative hwhole hne hzero hfraction exponent hrest
      rw [hmark] at hread
      simp only [List.append_assoc]
      refine ⟨_, hread, ?_⟩
      rw [Numeral.value?]
      simp only [Bool.false_and, Bool.false_eq_true, if_false, hx, Option.map_some]

theorem pointChars_of_ne_nil {ds : List Char} (h : ds ≠ []) : pointChars ds = '.' :: ds := by
  obtain ⟨d, ds, rfl⟩ := List.exists_cons_of_ne_nil h
  rfl

/-- **Digits with an exponent** write the number that they stand for. -/
theorem exists_writes_exponential (hD : Spells s.digits D) (hne : D ≠ 0) :
    ∃ M E, Writes (exponential s) M E ∧ M ≠ 0 ∧
      (M * 10 ^ E : ℚ) = D * 10 ^ (s.point - s.digits.length) := by
  obtain ⟨ds, point⟩ := s
  rcases ds with _ | ⟨d, ds⟩
  · exact absurd (hD.unique Decimal.spells_nil) hne
  · obtain ⟨w, hw⟩ := Decimal.exists_spells fun c hc =>
      hD.isDigit c (List.mem_singleton.mp hc ▸ List.mem_cons_self)
    obtain ⟨f, hf⟩ := Decimal.exists_spells fun c hc => hD.isDigit c (List.mem_cons_of_mem d hc)
    have hvalue : w * 10 ^ ds.length + f = D := (hw.append hf).unique hD
    have hwrites := Writes.parts hw (List.cons_ne_nil d []) (fun _ => rfl) hf (some (point - 1))
      (Bool.and_false _)
    have htext : exponential ⟨d :: ds, point⟩ =
        [d] ++ (pointChars ds ++ exponentChars (some (point - 1))) := by
      rcases ds with _ | ⟨d', ds⟩ <;> simp [exponential, pointChars, exponentChars]
    rw [← htext, hvalue] at hwrites
    refine ⟨D, _, hwrites, hne, ?_⟩
    rw [List.length_cons, Option.getD_some]
    congr 2
    push_cast
    ring

variable {ds : List Char} {k : Nat}

theorem spells_zero : Spells ['0'] 0 :=
  Decimal.spells_digits 0

/-- Digits behind the point, and zeros before them. -/
theorem writes_behind (hD : Spells ds D) (hne : ds ≠ []) (k : Nat) :
    Writes ('0' :: '.' :: List.replicate k '0' ++ ds) D (-((k + ds.length : Nat) : Int)) := by
  have hfraction := (Decimal.spells_zeros k).append hD
  have hwrites := Writes.parts spells_zero (List.cons_ne_nil _ _) (fun _ => rfl) hfraction none
    (by simp [hne])
  have htext : '0' :: '.' :: List.replicate k '0' ++ ds =
      ['0'] ++ (pointChars (List.replicate k '0' ++ ds) ++ exponentChars none) := by
    rw [pointChars_of_ne_nil (by simp [hne])]
    simp [exponentChars]
  rwa [← htext, Nat.zero_mul, Nat.zero_mul, Nat.zero_add, Nat.zero_add, Option.getD_none, zero_sub,
    List.length_append, List.length_replicate] at hwrites

/-- Digits before the point, and zeros behind them. -/
theorem writes_before (hD : Spells ds D) (hne : ds ≠ []) (hhead : ds.head? ≠ some '0') (k : Nat) :
    Writes (ds ++ List.replicate k '0' ++ ['.', '0']) (D * 10 ^ k * 10) (-1) := by
  have hwhole := hD.append (Decimal.spells_zeros k)
  have hhead' : (ds ++ List.replicate k '0').head? ≠ some '0' := by
    rwa [List.head?_append_of_ne_nil _ hne]
  have hwrites :=
    Writes.parts hwhole (by simp [hne]) (fun h => absurd h hhead') spells_zero none rfl
  have htext : ds ++ List.replicate k '0' ++ ['.', '0'] =
      ds ++ List.replicate k '0' ++ (pointChars ['0'] ++ exponentChars none) := rfl
  rwa [← htext, List.length_replicate, Nat.add_zero, List.length_singleton, Nat.pow_one,
    Nat.add_zero] at hwrites

/-- Digits with the point among them. -/
theorem writes_among (hD : Spells ds D) (hhead : ds.head? ≠ some '0') (hpos : 0 < k)
    (hk : k < ds.length) :
    Writes (ds.take k ++ '.' :: ds.drop k) D (-((ds.length - k : Nat) : Int)) := by
  obtain ⟨w, hw⟩ : ∃ w, Spells (ds.take k) w :=
    Decimal.exists_spells fun c hc => hD.isDigit c (List.mem_of_mem_take hc)
  obtain ⟨f, hf⟩ : ∃ f, Spells (ds.drop k) f :=
    Decimal.exists_spells fun c hc => hD.isDigit c (List.mem_of_mem_drop hc)
  have hall := hw.append hf
  rw [List.take_append_drop] at hall
  have hwhole : ds.take k ≠ [] := by
    rw [ne_eq, List.take_eq_nil_iff, not_or, ← List.length_eq_zero_iff]
    omega
  have hfraction : ds.drop k ≠ [] := by
    rw [ne_eq, List.drop_eq_nil_iff]
    omega
  have hhead' : (ds.take k).head? ≠ some '0' := by
    rwa [List.head?_take, if_neg hpos.ne']
  have hwrites := Writes.parts hw hwhole (fun h => absurd h hhead') hf none
    (by rw [Option.isNone_none, Bool.and_true, List.isEmpty_eq_false_iff]; exact hfraction)
  have htext : ds.take k ++ '.' :: ds.drop k =
      ds.take k ++ (pointChars (ds.drop k) ++ exponentChars none) := by
    rw [pointChars_of_ne_nil hfraction, exponentChars, List.append_nil]
  rwa [← htext, hall.unique hD, Option.getD_none, zero_sub, List.length_drop] at hwrites

/-- **Digits with a point** write the number that they stand for. -/
theorem exists_writes_positional (hD : Spells s.digits D) (hne : D ≠ 0)
    (hhead : s.digits.head? ≠ some '0') :
    ∃ M E, Writes (positional dataFormat s) M E ∧ M ≠ 0 ∧
      (M * 10 ^ E : ℚ) = D * 10 ^ (s.point - s.digits.length) := by
  obtain ⟨ds, point⟩ := s
  have hds : ds ≠ [] := by
    rintro rfl
    exact hne (hD.unique Decimal.spells_nil)
  unfold positional
  split
  · next hpoint =>
    -- The point stands behind all digits.
    refine ⟨D, _, writes_behind hD hds _, hne, ?_⟩
    congr 2
    dsimp only at hpoint ⊢
    omega
  · next hpoint =>
    dsimp only at hpoint ⊢
    obtain ⟨k, rfl⟩ := Int.eq_ofNat_of_zero_le (show 0 ≤ point by omega)
    rw [Int.toNat_natCast]
    split
    · next hlength =>
      -- It stands before all of them, with zeros between.
      refine ⟨_, _, writes_before hD hds hhead _, by positivity, ?_⟩
      have hexponent : (k : Int) - ds.length = (k - ds.length : Nat) := by omega
      rw [hexponent, zpow_natCast, zpow_neg_one]
      push_cast
      ring
    · next hlength =>
      -- It stands among them.
      refine ⟨D, _, writes_among hD hhead (by omega) (by omega), hne, ?_⟩
      congr 2
      omega

/-- **A finite double is read back from its text.** -/
theorem isNumeral_write {x : Float} (h : x.isFinite) :
    IsNumeral (dataFormat.write x).toList (.float x) := by
  rw [Decimal.FloatFormat.write]
  rcases Decimal.exists_of_isFinite h with ⟨sign, hx, hdouble⟩ | ⟨sign, m, q, hc, hx, hdouble⟩
  · -- A zero is written as such, with its sign.
    have hwrites :=
      Writes.parts spells_zero (List.cons_ne_nil _ _) (fun _ => rfl) spells_zero none rfl
    have hread := hwrites.isNumeral (Decimal.toFloat?_zero sign _)
    rw [← hx] at hread
    rw [hdouble]
    change IsNumeral (String.ofList (signChars (isNegative sign) ++ ['0', '.', '0'])).toList _
    rw [String.toList_ofList]
    exact hread
  · -- The fewest digits are written with an exponent or with a point, as the size has it.
    obtain ⟨D, hD, hne, hhead, hrounds⟩ := Decimal.exists_spells_shortest hc (isNegative sign)
    have hm : (m == 0) = false := beq_eq_false_iff_ne.mpr hc.pos.ne'
    rw [hdouble]
    simp only [hm, Bool.false_eq_true, if_false, String.toList_ofList]
    have hsign : (if isNegative sign then ['-'] else []) = signChars (isNegative sign) := rfl
    rw [hsign]
    split
    · obtain ⟨M, E, hwrites, hM, hvalue⟩ := exists_writes_exponential hD hne
      rw [← hvalue] at hrounds
      rw [hx]
      exact hwrites.isNumeral (Decimal.toFloat?_of_rounds sign hc hM hrounds)
    · obtain ⟨M, E, hwrites, hM, hvalue⟩ := exists_writes_positional hD hne hhead
      rw [← hvalue] at hrounds
      rw [hx]
      exact hwrites.isNumeral (Decimal.toFloat?_of_rounds sign hc hM hrounds)

end Dossier.Json
