import Dossier.Decimal.Digits
import Mathlib.Data.List.Basic
import Mathlib.Tactic.Ring

/-!
# Digits that stand for a number

What a list of digits stands for does not hang on how it was made: lists of digits can be put one
behind the other and filled up with zeros (`Dossier.Decimal.Spells`). The digits of a number are
such a list (`Dossier.Decimal.spells_digits`), and the shortest one: it has a leading zero only for
zero itself.
-/

namespace Dossier.Decimal

/-! ### Single digits -/

/-- Whether a character is a decimal digit. -/
def IsDigit (c : Char) : Prop :=
  '0' ≤ c ∧ c ≤ '9'

instance : DecidablePred IsDigit := fun c => inferInstanceAs (Decidable ('0' ≤ c ∧ c ≤ '9'))

theorem isDigit_iff_isSome {c : Char} : IsDigit c ↔ (digitValue? c).isSome := by
  unfold digitValue?
  split
  · next h => exact ⟨fun _ => rfl, fun _ => h⟩
  · next h => exact ⟨fun h' => absurd h' h, nofun⟩

theorem digitValue?_digitChar {d : Nat} (h : d < 10) : digitValue? (digitChar d) = some d := by
  have hall : ∀ d < 10, digitValue? (digitChar d) = some d := by decide
  exact hall d h

theorem isDigit_digitChar {d : Nat} (h : d < 10) : IsDigit (digitChar d) := by
  rw [isDigit_iff_isSome, digitValue?_digitChar h]
  rfl

theorem digitChar_eq_zero {d : Nat} (h : d < 10) (hzero : digitChar d = '0') : d = 0 := by
  have hvalue := digitValue?_digitChar h
  rw [hzero] at hvalue
  exact (Option.some.inj hvalue).symm

/-! ### Lists of digits -/

/-- **Whether a list of digits stands for a number**, which is what it adds to the number that was
read before it. -/
structure Spells (ds : List Char) (n : Nat) : Prop where
  isDigit : ∀ c ∈ ds, IsDigit c
  value : ∀ before, valueFrom? before ds = some (before * 10 ^ ds.length + n)

variable {ds es : List Char} {n m : Nat}

theorem spells_nil : Spells [] 0 :=
  ⟨nofun, fun before => by simp [valueFrom?]⟩

theorem spells_singleton {d : Nat} (h : d < 10) : Spells [digitChar d] d where
  isDigit c hc := by
    rw [List.mem_singleton.mp hc]
    exact isDigit_digitChar h
  value before := by
    rw [valueFrom?, digitValue?_digitChar h, Option.bind_some, valueFrom?]
    simp [Nat.mul_comm]

theorem valueFrom?_append (before : Nat) (ds es : List Char) :
    valueFrom? before (ds ++ es) = (valueFrom? before ds).bind fun n => valueFrom? n es := by
  induction ds generalizing before with
  | nil => rfl
  | cons d ds ih =>
    rw [List.cons_append, valueFrom?, valueFrom?]
    cases digitValue? d with
    | none => rfl
    | some v => exact ih _

/-- **Digits behind digits.** -/
theorem Spells.append (h : Spells ds n) (h' : Spells es m) :
    Spells (ds ++ es) (n * 10 ^ es.length + m) where
  isDigit c hc := (List.mem_append.mp hc).elim (h.isDigit c) (h'.isDigit c)
  value before := by
    rw [valueFrom?_append, h.value, Option.bind_some, h'.value, List.length_append, Nat.pow_add]
    congr 1
    ring

/-- The number is bounded by the number of its digits. -/
theorem Spells.lt (h : Spells ds n) : n < 10 ^ ds.length := by
  -- From the left every digit is less than ten, so the number stays below the next power.
  have hbound : ∀ (ds : List Char) (before n : Nat), valueFrom? before ds = some n →
      n < (before + 1) * 10 ^ ds.length := by
    intro ds
    induction ds with
    | nil =>
      intro before n hn
      obtain rfl := Option.some.inj hn
      simp
    | cons d ds ih =>
      intro before n hn
      obtain ⟨v, hv, hrest⟩ := Option.bind_eq_some_iff.mp hn
      have hlt : v < 10 := by
        unfold digitValue? at hv
        split at hv
        · next hd =>
          obtain rfl := Option.some.inj hv
          have hle : d.toNat ≤ '9'.toNat := UInt32.le_iff_toNat_le.mp hd.2
          have hnine : '9'.toNat = 57 := rfl
          have hzero : '0'.toNat = 48 := rfl
          omega
        · cases hv
      calc n < (10 * before + v + 1) * 10 ^ ds.length := ih _ _ hrest
        _ ≤ (10 * before + 10) * 10 ^ ds.length := Nat.mul_le_mul_right _ (by omega)
        _ = (before + 1) * 10 ^ (d :: ds).length := by rw [List.length_cons, Nat.pow_succ]; ring
  simpa using hbound ds 0 n (by simpa using h.value 0)

/-- What is read from a list of digits. -/
theorem Spells.value?_eq (h : Spells ds n) (hne : ds ≠ []) : value? ds = some n := by
  obtain ⟨d, ds, rfl⟩ := List.exists_cons_of_ne_nil hne
  rw [value?, h.value 0, Nat.zero_mul, Nat.zero_add]
  exact List.cons_ne_nil d ds

/-- Every list of digits stands for a number. -/
theorem exists_spells (h : ∀ c ∈ ds, IsDigit c) : ∃ n, Spells ds n := by
  induction ds with
  | nil => exact ⟨0, spells_nil⟩
  | cons c ds ih =>
    obtain ⟨n, hn⟩ := ih fun c hc => h c (List.mem_cons_of_mem _ hc)
    obtain ⟨d, hd⟩ := Option.isSome_iff_exists.mp (isDigit_iff_isSome.mp (h c List.mem_cons_self))
    have hc : Spells [c] d := by
      refine ⟨fun c' hc' => h c' (List.mem_singleton.mp hc' ▸ List.mem_cons_self), fun before => ?_⟩
      rw [valueFrom?, hd, Option.bind_some, valueFrom?]
      simp [Nat.mul_comm]
    exact ⟨_, hc.append hn⟩

theorem Spells.unique (h : Spells ds n) (h' : Spells ds m) : n = m := by
  have heq := (h.value 0).symm.trans (h'.value 0)
  simpa using heq

theorem spells_zeros (k : Nat) : Spells (List.replicate k '0') 0 := by
  induction k with
  | zero => exact spells_nil
  | succ k ih =>
    have hzero : Spells ['0'] 0 := spells_singleton (by decide : 0 < 10)
    simpa [List.replicate_succ] using hzero.append ih

/-! ### The digits of a number -/

/-- Digits are put in front of what is there. -/
theorem digitsOnto_append (k n : Nat) (ds es : List Char) :
    digitsOnto k n (ds ++ es) = digitsOnto k n ds ++ es := by
  induction k generalizing n ds with
  | zero => rfl
  | succ k ih =>
    rw [digitsOnto, digitsOnto]
    split
    · rfl
    · exact ih _ (digitChar (n % 10) :: ds)

/-- It does not matter by how much the bound exceeds the number of digits. -/
theorem digitsOnto_congr {k k' n : Nat} (h : n < 10 ^ (k + 1)) (h' : n < 10 ^ (k' + 1))
    (ds : List Char) : digitsOnto (k + 1) n ds = digitsOnto (k' + 1) n ds := by
  induction k generalizing k' n ds with
  | zero =>
    have hn : n < 10 := by simpa using h
    rw [digitsOnto.eq_def (0 + 1), digitsOnto.eq_def (k' + 1)]
    simp only [if_pos hn]
  | succ k ih =>
    rw [digitsOnto.eq_def (k + 1 + 1), digitsOnto.eq_def (k' + 1)]
    by_cases hn : n < 10
    · simp only [if_pos hn]
    · simp only [if_neg hn]
      rcases k' with _ | k'
      · exact absurd (by simpa using h') hn
      · exact ih (by rw [Nat.pow_succ] at h; omega) (by rw [Nat.pow_succ] at h'; omega) _

theorem lt_ten_pow_log2 (n : Nat) : n < 10 ^ (n.log2 + 1) :=
  Nat.lt_log2_self.trans_le (Nat.pow_le_pow_left (by decide) _)

/-- **The last digit of a number, and those before it.** -/
theorem digits_eq (n : Nat) :
    digits n = (if n < 10 then [] else digits (n / 10)) ++ [digitChar (n % 10)] := by
  rw [digits, digitsOnto]
  split
  · rfl
  · next hn =>
    have hlog : 1 ≤ n.log2 := (Nat.le_log2 (by omega)).mpr (by omega)
    obtain ⟨k, hk⟩ := Nat.exists_eq_add_of_le' hlog
    have hbound : n / 10 < 10 ^ (k + 1) := by
      have hpow := lt_ten_pow_log2 n
      rw [hk, Nat.pow_succ] at hpow
      omega
    rw [digits, hk, digitsOnto_congr hbound (lt_ten_pow_log2 (n / 10)), ← digitsOnto_append,
      List.nil_append]

/-- **The digits of a number stand for it.** -/
theorem spells_digits (n : Nat) : Spells (digits n) n := by
  induction n using Nat.strong_induction_on with
  | _ n ih =>
    rw [digits_eq]
    have hlast : Spells [digitChar (n % 10)] (n % 10) := spells_singleton (Nat.mod_lt _ (by decide))
    split
    · next hn =>
      rw [Nat.mod_eq_of_lt hn] at hlast ⊢
      exact hlast
    · next hn =>
      have hall := (ih (n / 10) (by omega)).append hlast
      rwa [List.length_singleton, Nat.pow_one, Nat.mul_comm, Nat.div_add_mod] at hall

theorem digits_ne_nil (n : Nat) : digits n ≠ [] := by
  rw [digits_eq]
  simp

theorem value?_digits (n : Nat) : value? (digits n) = some n :=
  (spells_digits n).value?_eq (digits_ne_nil n)

/-- **Numbers other than zero do not begin with a zero.** -/
theorem digits_eq_cons (n : Nat) : ∃ c ds, digits n = c :: ds ∧ (c = '0' → n = 0) := by
  induction n using Nat.strong_induction_on with
  | _ n ih =>
    rw [digits_eq]
    split
    · next hn =>
      refine ⟨digitChar (n % 10), [], rfl, fun hzero => ?_⟩
      rw [Nat.mod_eq_of_lt hn] at hzero
      exact digitChar_eq_zero hn hzero
    · next hn =>
      obtain ⟨c, ds, heq, hzero⟩ := ih (n / 10) (by omega)
      exact ⟨c, ds ++ [digitChar (n % 10)], by rw [heq, List.cons_append],
        fun hc => absurd (hzero hc) (by omega)⟩

/-- **The number of digits**: a number has as many as the power of ten is above it. -/
theorem ten_pow_le_of_digits {n : Nat} (h : 0 < n) : 10 ^ ((digits n).length - 1) ≤ n := by
  induction n using Nat.strong_induction_on with
  | _ n ih =>
    rw [digits_eq, List.length_append, List.length_singleton, Nat.add_sub_cancel]
    split
    · exact h
    · next hn =>
      have hprev := ih (n / 10) (by omega) (by omega)
      obtain ⟨k, hk⟩ := Nat.exists_eq_succ_of_ne_zero
        (List.length_pos_iff.mpr (digits_ne_nil (n / 10))).ne'
      rw [hk] at hprev ⊢
      rw [Nat.succ_sub_one] at hprev
      rw [Nat.pow_succ]
      omega

theorem length_digits_le {w : Nat} (hw : 0 < w) (h : n < 10 ^ w) : (digits n).length ≤ w := by
  rcases Nat.eq_zero_or_pos n with rfl | hn
  · exact hw
  · have hpow := (ten_pow_le_of_digits hn).trans_lt h
    have := (Nat.pow_lt_pow_iff_right (by decide)).mp hpow
    omega

/-! ### Digits filled up with zeros -/

/-- Zeros in front do not change the number. -/
theorem spells_padded (w n : Nat) : Spells (padded w n) n := by
  simpa [padded] using (spells_zeros (w - (digits n).length)).append (spells_digits n)

theorem padded_ne_nil (w n : Nat) : padded w n ≠ [] := by
  simp [padded, digits_ne_nil]

/-- A number that fits is filled up to the width. -/
theorem length_padded {w : Nat} (hw : 0 < w) (h : n < 10 ^ w) : (padded w n).length = w := by
  have hlength := length_digits_le hw h
  rw [padded, List.length_append, List.length_replicate]
  omega

end Dossier.Decimal
