import Dossier.Text.Utf8
import Mathlib.Data.UInt
import Mathlib.Tactic.IntervalCases

/-!
# Texts are read from their bytes

Reading the bytes of a text gives the text back (`Dossier.Text.decode_encode`). The machine that
reads them stands between two characters again after the bytes of one: each byte leaves the machine
with the bits of the character that have been written so far, and the last byte completes them.
-/

namespace Dossier.Text

variable {place : Option Begun} {n v missing bits bits' : Nat} {low high : UInt8}
  {bytes : List UInt8} {c : Char}

/-- **Whether bytes complete a character** where the machine stands. -/
def Completes (place : Option Begun) (bytes : List UInt8) (c : Char) : Prop :=
  ∀ rest, decodeFrom place (bytes ++ rest) = c :: decodeFrom none rest

theorem toNat_byte (h : n < 256) : (UInt8.ofNat n).toNat = n := by
  rw [UInt8.toNat_ofNat']
  exact Nat.mod_eq_of_lt h

/-! ### Later bytes -/

/-- What a later byte means, if it is one that may come. -/
theorem next_byte (hlow : low.toNat ≤ n) (hhigh : n ≤ high.toNat) :
    Begun.next ⟨missing, low, high, bits⟩ (UInt8.ofNat n) =
      if missing ≤ 1 then .single (Char.ofNat (bits * 64 + (n - 0x80)))
      else .begins ⟨missing - 1, 0x80, 0xBF, bits * 64 + (n - 0x80)⟩ := by
  have hbyte : (UInt8.ofNat n).toNat = n := toNat_byte (hhigh.trans_lt high.toNat_lt)
  rw [Begun.next, if_pos, hbyte]
  rw [UInt8.le_iff_toNat_le, UInt8.le_iff_toNat_le, hbyte]
  exact ⟨hlow, hhigh⟩

/-- The last byte of a character. -/
theorem completes_last (hlow : low.toNat ≤ n) (hhigh : n ≤ high.toNat)
    (hbits : bits * 64 + (n - 0x80) = v) :
    Completes (some ⟨1, low, high, bits⟩) [UInt8.ofNat n] (Char.ofNat v) := by
  intro rest
  rw [List.singleton_append, decodeFrom, next_byte hlow hhigh, if_pos (Nat.le_refl 1), hbits]

/-- A byte of a character that is not its last. -/
theorem completes_later (hlow : low.toNat ≤ n) (hhigh : n ≤ high.toNat)
    (hbits : bits * 64 + (n - 0x80) = bits')
    (h : Completes (some ⟨missing + 1, 0x80, 0xBF, bits'⟩) bytes c) :
    Completes (some ⟨missing + 2, low, high, bits⟩) (UInt8.ofNat n :: bytes) c := by
  intro rest
  rw [List.cons_append, decodeFrom, next_byte hlow hhigh, if_neg (by omega), hbits]
  exact h rest

/-! ### First bytes -/

/-- The first byte of a character of several. -/
theorem completes_first {p : Begun} (hfirst : FirstByte.of (UInt8.ofNat n) = .begins p)
    (h : Completes (some p) bytes c) : Completes none (UInt8.ofNat n :: bytes) c := by
  intro rest
  rw [List.cons_append, decodeFrom, hfirst]
  exact h rest

theorem firstByte_of_two (hlow : 0xC2 ≤ n) (hhigh : n < 0xE0) :
    FirstByte.of (UInt8.ofNat n) = .begins ⟨1, 0x80, 0xBF, n - 0xC0⟩ := by
  interval_cases n <;> rfl

/-- Of three bytes, the second is narrowed where the first alone would allow an overlong form or a
surrogate. -/
theorem firstByte_of_three (hlow : 0xE0 ≤ n) (hhigh : n < 0xF0) :
    FirstByte.of (UInt8.ofNat n) =
      .begins ⟨2, if n = 0xE0 then 0xA0 else 0x80, if n = 0xED then 0x9F else 0xBF, n - 0xE0⟩ := by
  interval_cases n <;> rfl

/-- Of four bytes, the second is narrowed where the first alone would allow an overlong form or
a number that is too large. -/
theorem firstByte_of_four (hlow : 0xF0 ≤ n) (hhigh : n < 0xF5) :
    FirstByte.of (UInt8.ofNat n) =
      .begins ⟨3, if n = 0xF0 then 0x90 else 0x80, if n = 0xF4 then 0x8F else 0xBF, n - 0xF0⟩ := by
  interval_cases n <;> rfl

/-! ### Characters -/

/-- **The bytes of a character** are read as that character. -/
theorem completes_utf8EncodeChar (c : Char) : Completes none (String.utf8EncodeChar c) c := by
  obtain ⟨v, hv⟩ : ∃ v, c.val.toNat = v := ⟨_, rfl⟩
  have hvalid : v < 0xD800 ∨ (0xDFFF < v ∧ v < 0x110000) := hv ▸ c.valid
  have hchar : c = Char.ofNat v := hv ▸ (Char.ofNat_toNat c).symm
  rw [String.utf8EncodeChar, hv, hchar]
  -- One to four bytes, by the size of the number.
  split
  · intro rest
    rw [List.singleton_append, decodeFrom, FirstByte.of, toNat_byte (by omega), if_pos (by omega)]
  split
  · exact completes_first (firstByte_of_two (by omega) (by omega))
      (completes_last (by simp) (by simp; omega) (by omega))
  split
  · refine completes_first (firstByte_of_three (by omega) (by omega)) (completes_later ?_ ?_ rfl
      (completes_last (by simp) (by simp; omega) (by omega)))
    · split <;> simp
      omega
    · split <;> (simp; omega)
  · refine completes_first (firstByte_of_four (by omega) (by omega)) (completes_later ?_ ?_ rfl
      (completes_later (by simp) (by simp; omega) rfl
        (completes_last (by simp) (by simp; omega) (by omega))))
    · split <;> simp
      omega
    · split <;> (simp; omega)

/-- **The bytes of a character**: one that is its number, or several that are 128 and more. -/
theorem utf8EncodeChar_eq_or (c : Char) :
    (c.toNat < 128 ∧ String.utf8EncodeChar c = [UInt8.ofNat c.toNat]) ∨
      ∀ b ∈ String.utf8EncodeChar c, 128 ≤ b.toNat := by
  obtain ⟨v, hv⟩ : ∃ v, c.toNat = v := ⟨_, rfl⟩
  have hvalid : v < 0xD800 ∨ (0xDFFF < v ∧ v < 0x110000) := hv ▸ c.valid
  -- All bytes of several have their highest bit set.
  have hcons : ∀ n, ∀ bytes : List UInt8, 128 ≤ n → n < 256 → (∀ b ∈ bytes, 128 ≤ b.toNat) →
      ∀ b ∈ UInt8.ofNat n :: bytes, 128 ≤ b.toNat := by
    intro n bytes hle hlt hbytes
    exact List.forall_mem_cons.mpr ⟨by rwa [toNat_byte hlt], hbytes⟩
  have hlast : ∀ n, 128 ≤ n → n < 256 → ∀ b ∈ [UInt8.ofNat n], 128 ≤ b.toNat :=
    fun n hle hlt => hcons n [] hle hlt (List.forall_mem_nil _)
  rw [String.utf8EncodeChar, ← Char.toNat, hv]
  split
  · exact .inl ⟨by omega, rfl⟩
  right
  split
  · exact hcons _ _ (by omega) (by omega) (hlast _ (by omega) (by omega))
  split
  · exact hcons _ _ (by omega) (by omega)
      (hcons _ _ (by omega) (by omega) (hlast _ (by omega) (by omega)))
  · exact hcons _ _ (by omega) (by omega)
      (hcons _ _ (by omega) (by omega)
        (hcons _ _ (by omega) (by omega) (hlast _ (by omega) (by omega))))

/-- **Reading the bytes of a text gives the text back.** -/
@[simp]
theorem decode_encode (s : String) : decode (encode s) = s := by
  have hall : ∀ cs : List Char, decodeFrom none (cs.flatMap String.utf8EncodeChar) = cs := by
    intro cs
    induction cs with
    | nil => rfl
    | cons c cs ih => rw [List.flatMap_cons, completes_utf8EncodeChar, ih]
  rw [decode, encode, hall, String.ofList_toList]

end Dossier.Text
