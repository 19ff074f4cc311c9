import Dossier.Decimal.Digits

/-!
# Binary floating point and decimal digits

A finite double that is not zero is a sign and a number `m * 2 ^ q` with natural `m`.
Two ways of writing it in decimal are needed. `shortest` finds the fewest digits that
read back to the same double: on the grids of one, two, three and more digits it looks
at the two neighbours of the number, and takes the first grid on which one of them lies
in the interval of the reals that round to the double. `fixed` writes a given number of
places and sends an exact tie to the even neighbour; the value it rounds is the exact one
that the double stands for.

All arithmetic is exact, on natural numbers.
-/

namespace Dossier.Decimal

/-- The magnitude of a finite double: `mantissa * 2 ^ exponent`. -/
structure Binary where
  negative : Bool
  mantissa : Nat
  exponent : Int
deriving DecidableEq, Repr, Inhabited

/-- What a double is. -/
inductive Double where
  | nan
  | infinite (negative : Bool)
  | finite (value : Binary)
deriving DecidableEq, Repr, Inhabited

/-- The leading bit of a mantissa, which is not written. -/
def leadingBit : Nat := 4503599627370496

/-- Reads the sign, the exponent and the mantissa off the bits of a double. -/
def Double.ofFloat (x : Float) : Double :=
  let bits : Nat := x.toBits.toNat
  let negative := bits / (UInt64.size / 2) == 1
  let biased : Nat := bits / leadingBit % 2048
  let fraction : Nat := bits % leadingBit
  if biased == 2047 then
    if fraction == 0 then .infinite negative else .nan
  else if biased == 0 then .finite ⟨negative, fraction, -1074⟩
  else .finite ⟨negative, fraction + leadingBit, (biased : Int) - 1075⟩

/-- A nonnegative rational number. -/
structure Ratio where
  num : Nat
  den : Nat
deriving Repr

/-- `n * b ^ e` for an exponent of either sign. -/
def scale (n b : Nat) (e : Int) : Ratio :=
  match e with
  | .ofNat k => ⟨n * Nat.pow b k, 1⟩
  | .negSucc k => ⟨n, Nat.pow b (k + 1)⟩

namespace Ratio

/-- The product of two numbers. -/
def mul (r s : Ratio) : Ratio :=
  ⟨r.num * s.num, r.den * s.den⟩

/-- Comparison by cross multiplication. -/
def le (r s : Ratio) : Bool :=
  r.num * s.den ≤ s.num * r.den

/-- Strict comparison by cross multiplication. -/
def lt (r s : Ratio) : Bool :=
  r.num * s.den < s.num * r.den

/-- The largest natural number that is not greater. -/
def floor (r : Ratio) : Nat :=
  r.num / r.den

end Ratio

/-- Decimal digits `digits` and the position of the point: the number is
`0.d₁d₂… * 10 ^ point`. -/
structure Scientific where
  digits : List Char
  point : Int
deriving DecidableEq, Repr, Inhabited

/-- The reals that a double stands for: from `low` to `high`, with the ends if `closed`. -/
structure Interval where
  low : Ratio
  high : Ratio
  closed : Bool

/-- Whether a number lies in the interval. -/
def Interval.contains (i : Interval) (r : Ratio) : Bool :=
  if i.closed then i.low.le r && r.le i.high else i.low.lt r && r.lt i.high

/-- The reals that round to a double. Below a power of two the gap is half as wide, unless
the double is as small as they come. -/
def Binary.interval (b : Binary) : Interval :=
  let low :=
    if b.mantissa == leadingBit && b.exponent != -1074 then
      scale (4 * b.mantissa - 1) 2 (b.exponent - 2)
    else scale (2 * b.mantissa - 1) 2 (b.exponent - 1)
  ⟨low, scale (2 * b.mantissa + 1) 2 (b.exponent - 1), b.mantissa % 2 == 0⟩

/-- The `k` for which a number below one lies in `[10 ^ (k - 1), 10 ^ k)`. The first
argument bounds the search. -/
def leadingZeros : Nat → Nat → Nat → Nat
  | 0, _, _ => 0
  | fuel + 1, num, den => if den ≤ 10 * num then 0 else leadingZeros fuel (10 * num) den + 1

/-- The position of the point of a positive number. -/
def pointOf (r : Ratio) : Int :=
  if r.den ≤ r.num then ((digits r.floor).length : Int)
  else -((leadingZeros 400 r.num r.den : Nat) : Int)

/-- The point of a grid next to a number that lies in the interval and is nearest, if
there is one: of the two neighbours both of which fit, the nearer, and in a tie the even
one. The grid has the spacing `10 ^ e`. -/
def nearest? (i : Interval) (r : Ratio) (e : Int) : Option Nat :=
  let scaled := r.mul (scale 1 10 (-e))
  let d := scaled.floor
  let lower := i.contains (scale d 10 e) && d != 0
  let upper := i.contains (scale (d + 1) 10 e)
  let twice := 2 * (scaled.num % scaled.den)
  if lower && upper then
    if twice < scaled.den then some d
    else if scaled.den < twice then some (d + 1)
    else if d % 2 == 0 then some d else some (d + 1)
  else if lower then some d
  else if upper then some (d + 1)
  else none

/-- The digits of the first grid with a point in the interval, from `n` digits on. -/
def shortestFrom (i : Interval) (r : Ratio) (point : Int) : Nat → Nat → Scientific
  | 0, n => ⟨digits (r.mul (scale 1 10 (n - point))).floor, point⟩
  | fuel + 1, n =>
    match nearest? i r (point - n) with
    | some d =>
      let ds := digits d
      ⟨(ds.reverse.dropWhile (· == '0')).reverse, point - n + ds.length⟩
    | none => shortestFrom i r point fuel (n + 1)

/-- **The fewest digits that read back to the double.** -/
def Binary.shortest (b : Binary) : Scientific :=
  let r := scale b.mantissa 2 b.exponent
  shortestFrom b.interval r (pointOf r) 17 1

/-- A quotient rounded to the nearest natural number, a tie to the even one. -/
def roundDiv (num den : Nat) : Nat :=
  let q := num / den
  let twice := 2 * (num % den)
  if twice < den then q
  else if den < twice then q + 1
  else if q % 2 == 0 then q else q + 1

/-- A rounded quotient is within half a unit of the quotient. -/
theorem roundDiv_near (num den : Nat) (h : 0 < den) :
    2 * num ≤ 2 * (roundDiv num den * den) + den ∧
      2 * (roundDiv num den * den) ≤ 2 * num + den := by
  have hd := Nat.div_add_mod num den
  have hm := Nat.mod_lt num h
  have hs : (num / den + 1) * den = den * (num / den) + den := by
    rw [Nat.add_mul, Nat.one_mul, Nat.mul_comm]
  have hq : num / den * den = den * (num / den) := Nat.mul_comm _ _
  unfold roundDiv
  simp only
  split
  · omega
  · split
    · omega
    · split <;> omega

/-- **A double with a fixed number of places.** -/
def Binary.fixed (b : Binary) (places : Nat) : String :=
  let r := scale (b.mantissa * Nat.pow 10 places) 2 b.exponent
  let ds := padded (places + 1) (roundDiv r.num r.den)
  let whole := ds.take (ds.length - places)
  let fraction := ds.drop (ds.length - places)
  String.ofList
    ((if b.negative then ['-'] else []) ++ whole ++
      (if places = 0 then [] else '.' :: fraction))

/-- How doubles are written as text. -/
structure FloatFormat where
  /-- Whether a number is written with an exponent when its point is far away. -/
  exponents : Bool
  /-- Whether a whole number gets a point and a zero. -/
  pointZero : Bool
  /-- How the values that are no numbers are written. -/
  nan : String
  infinity : String

/-- The digits with the point put among or beside them. -/
def positional (f : FloatFormat) (s : Scientific) : List Char :=
  if s.point ≤ 0 then '0' :: '.' :: List.replicate s.point.natAbs '0' ++ s.digits
  else
    let k := s.point.toNat
    if s.digits.length ≤ k then
      s.digits ++ List.replicate (k - s.digits.length) '0' ++
        (if f.pointZero then ['.', '0'] else [])
    else s.digits.take k ++ '.' :: s.digits.drop k

/-- One digit, the others after a point, and an exponent with its sign. -/
def exponential (s : Scientific) : List Char :=
  let e := s.point - 1
  (match s.digits with
    | [] => []
    | [d] => [d]
    | d :: ds => d :: '.' :: ds) ++
    'e' :: (if e < 0 then '-' else '+') :: digits e.natAbs

/-- **The text of a double** in a format. -/
def FloatFormat.write (f : FloatFormat) (x : Float) : String :=
  match Double.ofFloat x with
  | .nan => f.nan
  | .infinite negative => if negative then "-" ++ f.infinity else f.infinity
  | .finite b =>
    let sign := if b.negative then ['-'] else []
    if b.mantissa == 0 then
      String.ofList (sign ++ (if f.pointZero then ['0', '.', '0'] else ['0']))
    else
      let s := b.shortest
      let far := s.point ≤ -5 || 16 < s.point
      String.ofList (sign ++ (if f.exponents && far then exponential s else positional f s))

/-- Numbers in data have a point or an exponent, which begins with the seventeenth place
before the point and the sixth after it. -/
def dataFormat : FloatFormat :=
  ⟨true, true, "NaN", "inf"⟩

/-- Numbers in messages are never written with an exponent, and whole ones without a
point. -/
def plainFormat : FloatFormat :=
  ⟨false, false, "NaN", "inf"⟩

/-- A double with a fixed number of places, for messages and reports. -/
def fixed (places : Nat) (x : Float) : String :=
  match Double.ofFloat x with
  | .nan => "NaN"
  | .infinite negative => if negative then "-inf" else "inf"
  | .finite b => b.fixed places

/-- **The double nearest to `mantissa * 10 ^ exponent`**, if it is finite. Exponents that no
digit of the mantissa can make up for are settled without computing the power. -/
def toFloat? (negative : Bool) (mantissa : Nat) (exponent : Int) : Option Float :=
  let size := ((digits mantissa).length : Int) + exponent
  let magnitude : Option Float :=
    if mantissa == 0 || size < -400 then some 0.0
    else if 400 < size then none
    else
      let x :=
        match exponent with
        | .ofNat k => Float.ofScientific mantissa false k
        | .negSucc k => Float.ofScientific mantissa true (k + 1)
      if x.isFinite then some x else none
  magnitude.map fun x => if negative then -x else x

end Dossier.Decimal
