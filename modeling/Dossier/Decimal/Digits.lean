/-!
# Decimal digits

Natural numbers written in the decimal system and read back, as lists of characters with
the most significant digit first. Writing never puts a leading zero, except for zero
itself; `padded` fills up with zeros to a width.
-/

namespace Dossier.Decimal

/-- The character of a digit below ten. -/
def digitChar (d : Nat) : Char :=
  Char.ofNat ('0'.toNat + d)

/-- The value of a decimal digit character. -/
def digitValue? (c : Char) : Option Nat :=
  if '0' ≤ c ∧ c ≤ '9' then some (c.toNat - '0'.toNat) else none

/-- The digits of a number in front of others. The first argument bounds their number. -/
def digitsOnto : Nat → Nat → List Char → List Char
  | 0, _, acc => acc
  | k + 1, n, acc =>
    let acc := digitChar (n % 10) :: acc
    if n < 10 then acc else digitsOnto k (n / 10) acc

/-- **The decimal digits of a number.** -/
def digits (n : Nat) : List Char :=
  digitsOnto (n.log2 + 1) n []

/-- The decimal digits of a number, filled up with zeros to a width. -/
def padded (width n : Nat) : List Char :=
  let ds := digits n
  List.replicate (width - ds.length) '0' ++ ds

/-- A number as text. -/
def ofNat (n : Nat) : String :=
  String.ofList (digits n)

/-- An integer as text, with a minus sign if it is negative. -/
def ofInt : Int → String
  | .ofNat n => ofNat n
  | .negSucc n => "-" ++ ofNat (n + 1)

/-- The value of a list of digits read from the left, after those read before. -/
def valueFrom? : Nat → List Char → Option Nat
  | acc, [] => some acc
  | acc, c :: cs => (digitValue? c).bind fun d => valueFrom? (10 * acc + d) cs

/-- The value of a nonempty list of digits. -/
def value? : List Char → Option Nat
  | [] => none
  | cs => valueFrom? 0 cs

/-- Numbers of sixty-four bits with a sign are less than this number, and not less than its
negative. -/
def signedLimit : Int := 9223372036854775808

/-- An integer, if it fits into sixty-four bits with a sign. -/
def signed? (i : Int) : Option Int :=
  if -signedLimit ≤ i ∧ i < signedLimit then some i else none

end Dossier.Decimal
