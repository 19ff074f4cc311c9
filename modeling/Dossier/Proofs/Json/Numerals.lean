import Dossier.Json.Parser
import Dossier.Proofs.Decimal.Digits
import Dossier.Proofs.Text.Blank

/-!
# Numerals

The parts of a numeral are told by what stands between them, so a numeral that is written of parts
is read as these parts (`Dossier.Json.numeral?_written`), if what follows cannot be taken for more
of it (`Dossier.Json.Ends`). An integer of sixty-four bits is therefore read as itself.
-/

namespace Dossier.Json

open Decimal (IsDigit Spells digits)

/-! ### The parts of a numeral -/

/-- **Whether a text can follow a numeral** without being taken for a part of it. -/
def Ends (rest : List Char) : Prop :=
  ∀ c ∈ rest.head?, ¬IsDigit c ∧ c ≠ '.' ∧ c ≠ 'e' ∧ c ≠ 'E'

/-- A minus sign, if the number is negative. -/
def signChars (negative : Bool) : List Char :=
  if negative then ['-'] else []

/-- Digits after a point, if there are any. -/
def pointChars : List Char → List Char
  | [] => []
  | ds => '.' :: ds

/-- An exponent with its sign, if there is one. -/
def exponentChars : Option Int → List Char
  | none => []
  | some k => 'e' :: (if k < 0 then '-' else '+') :: digits k.natAbs

variable {ds fraction rest : List Char} {n : Nat}

/-- The digits at the head of a text end where there is no digit. -/
theorem digitRun_append (h : ∀ c ∈ ds, IsDigit c) (hrest : ∀ c ∈ rest.head?, ¬IsDigit c) :
    digitRun (ds ++ rest) = (ds, rest) := by
  have htake : ((ds ++ rest).takeWhile fun c => '0' ≤ c && c ≤ '9') = ds :=
    Text.takeWhile_append (fun c hc => by simpa [IsDigit] using h c hc)
      fun c hc => by simpa [IsDigit] using hrest c hc
  rw [digitRun, htake, List.drop_left]

theorem minus_signChars (negative : Bool) {cs : List Char} (h : cs.head? ≠ some '-') :
    minus (signChars negative ++ cs) = (negative, cs) := by
  cases negative with
  | true => rfl
  | false =>
    rw [signChars, if_neg Bool.false_ne_true, List.nil_append, minus]
    rintro rest rfl
    exact h rfl

/-- Digits are not the beginning of what follows a numeral, and neither are the marks in it. -/
theorem head?_of_isDigit (h : ∀ c ∈ ds, IsDigit c) (hne : ds ≠ []) (cs : List Char) :
    ∃ c, (ds ++ cs).head? = some c ∧ IsDigit c := by
  obtain ⟨c, ds, rfl⟩ := List.exists_cons_of_ne_nil hne
  exact ⟨c, rfl, h c List.mem_cons_self⟩

theorem fraction?_pointChars (h : ∀ c ∈ fraction, IsDigit c)
    (hrest : ∀ c ∈ rest.head?, ¬IsDigit c ∧ c ≠ '.') :
    fraction? (pointChars fraction ++ rest) = some (fraction, rest) := by
  rcases fraction with _ | ⟨d, ds⟩
  · rw [pointChars, List.nil_append, fraction?]
    rintro rest rfl
    exact (hrest '.' rfl).2 rfl
  · rw [pointChars, List.cons_append, fraction?]
    · rw [digitRun_append h fun c hc => (hrest c hc).1]
      rfl
    · exact List.cons_ne_nil d ds

theorem exponent?_exponentChars (exponent : Option Int) (hrest : Ends rest) :
    exponent? (exponentChars exponent ++ rest) = some (exponent, rest) := by
  rcases exponent with _ | k
  · rcases rest with _ | ⟨c, rest⟩
    · rfl
    · have hc := hrest c rfl
      rw [exponentChars, List.nil_append, exponent?, if_neg (by simp [hc.2.2.1, hc.2.2.2])]
  · have hdigits := Decimal.spells_digits k.natAbs
    have hrun := digitRun_append hdigits.isDigit fun c hc => (hrest c hc).1
    have hvalue : (digitsValue (digits k.natAbs) : Int) = k.natAbs := by
      rw [digitsValue, Decimal.value?_digits]
      rfl
    have hempty : (digits k.natAbs).isEmpty = false := by
      simpa using Decimal.digits_ne_nil k.natAbs
    -- The sign of the exponent is always written, and its digits are those of the magnitude.
    rw [exponentChars, List.cons_append, List.cons_append, exponent?, if_pos (by decide)]
    by_cases hk : k < 0
    · have hminus : exponentMinus ('-' :: (digits k.natAbs ++ rest)) =
          (true, digits k.natAbs ++ rest) := rfl
      have habs : -(k.natAbs : Int) = k := by omega
      simp only [if_pos hk, hminus, hrun, hempty, hvalue, Bool.false_eq_true, if_false, if_true,
        habs]
    · have hplus : exponentMinus ('+' :: (digits k.natAbs ++ rest)) =
          (false, digits k.natAbs ++ rest) := rfl
      have habs : (k.natAbs : Int) = k := by omega
      simp only [if_neg hk, hplus, hrun, hempty, hvalue, Bool.false_eq_true, if_false, habs]

/-! ### Numerals -/

/-- What comes behind the digits before the point cannot be taken for one of them. -/
theorem not_isDigit_of_mem_head? (exponent : Option Int) (hrest : Ends rest) {c : Char}
    (hc : c ∈ (exponentChars exponent ++ rest).head?) : ¬IsDigit c ∧ c ≠ '.' := by
  rcases exponent with _ | k
  · exact ⟨(hrest c hc).1, (hrest c hc).2.1⟩
  · obtain rfl := Option.some.inj hc
    decide

/-- **A numeral is read as its parts.** -/
theorem numeral?_written (negative : Bool) {whole : List Char} {w f : Nat} (hwhole : Spells whole w)
    (hne : whole ≠ []) (hzero : whole.head? = some '0' → whole.length = 1)
    (hfraction : Spells fraction f) (exponent : Option Int) (hrest : Ends rest) :
    numeral? (signChars negative ++
        (whole ++ (pointChars fraction ++ (exponentChars exponent ++ rest)))) =
      some (⟨negative, w * 10 ^ fraction.length + f, exponent.getD 0 - fraction.length,
        fraction.isEmpty && exponent.isNone⟩, rest) := by
  -- Each part ends where the next one begins, since that begins without a digit.
  have hafter := fun c (hc : c ∈ (exponentChars exponent ++ rest).head?) =>
    not_isDigit_of_mem_head? exponent hrest hc
  have hpoint : ∀ c ∈ (pointChars fraction ++ (exponentChars exponent ++ rest)).head?,
      ¬IsDigit c := by
    intro c hc
    rcases fraction with _ | ⟨d, ds⟩
    · exact (hafter c hc).1
    · obtain rfl := Option.some.inj hc
      decide
  obtain ⟨first, hfirst, hdigit⟩ := head?_of_isDigit hwhole.isDigit hne
    (pointChars fraction ++ (exponentChars exponent ++ rest))
  have hminus : (whole ++ (pointChars fraction ++ (exponentChars exponent ++ rest))).head? ≠
      some '-' := by
    rw [hfirst]
    rintro ⟨⟩
    exact absurd hdigit (by decide)
  have hvalid : (whole.isEmpty || (whole.head? == some '0' && whole.length ≠ 1)) = false := by
    simp only [Bool.or_eq_false_iff, Bool.and_eq_false_iff, List.isEmpty_eq_false_iff,
      beq_eq_false_iff_ne, decide_eq_false_iff_not, not_not]
    exact ⟨hne, or_iff_not_imp_left.mpr fun h => hzero (not_not.mp h)⟩
  have hvalue : digitsValue (whole ++ fraction) = w * 10 ^ fraction.length + f := by
    rw [digitsValue, (hwhole.append hfraction).value?_eq (by simp [hne])]
    rfl
  rw [numeral?, minus_signChars negative hminus]
  dsimp only
  rw [digitRun_append hwhole.isDigit hpoint]
  dsimp only
  rw [hvalid, if_neg Bool.false_ne_true, fraction?_pointChars hfraction.isDigit hafter]
  simp only [bind, Option.bind, exponent?_exponentChars exponent hrest, hvalue, pure]

/-- **Whether a text is a numeral for a value**: it begins as numerals do, and the value is what
is read of it, whatever follows. -/
structure IsNumeral (cs : List Char) (v : Json) : Prop where
  starts : ∃ c ∈ cs.head?, c = '-' ∨ IsDigit c
  reads : ∀ rest, Ends rest → ∃ n, numeral? (cs ++ rest) = some (n, rest) ∧ n.value? = some v

/-- Whether an integer has sixty-four bits, with a sign or without. -/
def IsInt64 (i : Int) : Prop :=
  -Decimal.signedLimit ≤ i ∧ i < UInt64.size

theorem toList_ofInt (i : Int) :
    (Decimal.ofInt i).toList = signChars (decide (i < 0)) ++ digits i.natAbs := by
  cases i with
  | ofNat n =>
    have hn : ¬Int.ofNat n < 0 := by simp
    simp [Decimal.ofInt, Decimal.ofNat, signChars]
  | negSucc n =>
    have hn : Int.negSucc n < 0 := Int.negSucc_lt_zero n
    simp [Decimal.ofInt, Decimal.ofNat, signChars, hn]

/-- Only zero has a leading zero. -/
theorem length_digits_of_head? (h : (digits n).head? = some '0') : (digits n).length = 1 := by
  obtain ⟨c, ds, heq, hzero⟩ := Decimal.digits_eq_cons n
  rw [heq] at h
  obtain rfl := hzero (Option.some.inj h)
  rfl

/-- **An integer that fits is read as itself.** -/
theorem isNumeral_ofInt {i : Int} (h : IsInt64 i) :
    IsNumeral (Decimal.ofInt i).toList (.int i) where
  starts := by
    rw [toList_ofInt]
    by_cases hi : i < 0
    · exact ⟨'-', by simp [signChars, hi], Or.inl rfl⟩
    · obtain ⟨c, hc, hdigit⟩ := head?_of_isDigit (Decimal.spells_digits i.natAbs).isDigit
        (Decimal.digits_ne_nil _) []
      exact ⟨c, by simpa [signChars, hi] using hc, Or.inr hdigit⟩
  reads rest hrest := by
    have hread := numeral?_written (decide (i < 0)) (Decimal.spells_digits i.natAbs)
      (Decimal.digits_ne_nil _) length_digits_of_head? Decimal.spells_nil none hrest
    rw [pointChars, exponentChars, List.nil_append, List.nil_append, ← List.append_assoc,
      ← toList_ofInt] at hread
    refine ⟨_, hread, ?_⟩
    obtain ⟨hlow, hhigh⟩ := h
    rw [Decimal.signedLimit] at hlow
    have habs : (i.natAbs : Int) = if i < 0 then -i else i := by omega
    -- What has been read is decided by the sign and the size alone.
    clear hread
    generalize i.natAbs = m at habs ⊢
    by_cases hi : i < 0
    · have hnat : -(m : Int) = i := by omega
      have hlimit : (m : Int) ≤ Decimal.signedLimit := by
        rw [Decimal.signedLimit]
        omega
      have hne : m ≠ 0 := by omega
      simp [Numeral.value?, hi, hnat, hlimit, hne]
    · have hnat : (m : Int) = i := by omega
      have hsize : m < UInt64.size := by omega
      simp [Numeral.value?, hi, hnat, hsize]

end Dossier.Json
