import Dossier.Decimal.Binary
import Dossier.Json.Basic
import Dossier.Text.Hex

/-!
# Reading JSON

Reads a whole text as one JSON value, with blanks around it. Blanks are the space, the
tab, the line feed and the carriage return. Strings hold no raw control characters, and a
surrogate escape counts only as the first half of a pair. Integers that fit sixty-four
bits are read as integers, all other numbers as the nearest double; a number beyond the
doubles is refused, and so is nesting deeper than `maxDepth`. Since a minus zero is no
integer, it is read as a double.
-/

namespace Dossier.Json

/-- How deep arrays and objects may be nested. -/
def maxDepth : Nat := 127

/-- The blanks between the parts of a value. -/
def isSpace (c : Char) : Bool :=
  c == ' ' || c == '\n' || c == '\t' || c == '\r'

/-- What follows the blanks. -/
def skipSpace (cs : List Char) : List Char :=
  cs.dropWhile isSpace

/-- The value of four hexadecimal digits. -/
def hex4? (a b c d : Char) : Option Nat := do
  let a ← Text.hexValue? a
  let b ← Text.hexValue? b
  let c ← Text.hexValue? c
  let d ← Text.hexValue? d
  return 4096 * a + 256 * b + 16 * c + d

/-- The character of a one-letter escape. -/
def plainEscape? (c : Char) : Option Char :=
  if c == '"' || c == '\\' || c == '/' then some c
  else if c == 'b' then some (Char.ofNat 8)
  else if c == 'f' then some (Char.ofNat 12)
  else if c == 'n' then some '\n'
  else if c == 'r' then some '\r'
  else if c == 't' then some '\t'
  else none

/-- The rest of a string literal, after its characters so far in reverse. -/
def stringTail? : List Char → List Char → Option (List Char × List Char)
  | _, [] => none
  | acc, '"' :: cs => some (acc.reverse, cs)
  | acc, '\\' :: 'u' :: a :: b :: c :: d :: cs =>
    match hex4? a b c d with
    | none => none
    | some n =>
      if 0xD800 ≤ n ∧ n < 0xDC00 then
        match cs with
        | '\\' :: 'u' :: e :: f :: g :: h :: rest =>
          match hex4? e f g h with
          | none => none
          | some m =>
            if 0xDC00 ≤ m ∧ m < 0xE000 then
              stringTail? (Char.ofNat (0x10000 + (n - 0xD800) * 1024 + (m - 0xDC00)) :: acc) rest
            else none
        | _ => none
      else if 0xDC00 ≤ n ∧ n < 0xE000 then none
      else stringTail? (Char.ofNat n :: acc) cs
  | acc, '\\' :: c :: cs =>
    match plainEscape? c with
    | some e => stringTail? (e :: acc) cs
    | none => none
  | acc, c :: cs => if c.toNat < 32 || c == '\\' then none else stringTail? (c :: acc) cs

/-- A number as it is written: its sign, its digits before and after the point, and its
exponent; `isWhole` when it has neither point nor exponent. -/
structure Numeral where
  negative : Bool
  mantissa : Nat
  exponent : Int
  isWhole : Bool
deriving Repr, Inhabited

/-- The value of a run of digits. -/
def digitsValue (cs : List Char) : Nat :=
  (Decimal.value? cs).getD 0

/-- The digits at the head of the text, and the rest. -/
def digitRun (cs : List Char) : List Char × List Char :=
  let ds := cs.takeWhile fun c => '0' ≤ c && c ≤ '9'
  (ds, cs.drop ds.length)

/-- Whether a minus sign is at the head of the text, and the rest. -/
def minus : List Char → Bool × List Char
  | '-' :: rest => (true, rest)
  | cs => (false, cs)

/-- Whether the sign at the head of an exponent is a minus, and the rest. -/
def exponentMinus : List Char → Bool × List Char
  | '+' :: rest => (false, rest)
  | cs => minus cs

/-- The digits after a point, if a point is at the head of the text, and the rest. -/
def fraction? : List Char → Option (List Char × List Char)
  | '.' :: rest =>
    let (ds, rest) := digitRun rest
    if ds.isEmpty then none else some (ds, rest)
  | cs => some ([], cs)

/-- The exponent, if one is at the head of the text, and the rest. -/
def exponent? : List Char → Option (Option Int × List Char)
  | [] => some (none, [])
  | e :: rest =>
    if e == 'e' || e == 'E' then
      let (negative, rest) := exponentMinus rest
      let (ds, rest) := digitRun rest
      if ds.isEmpty then none
      else
        let k : Int := digitsValue ds
        some (some (if negative then -k else k), rest)
    else some (none, e :: rest)

/-- A number at the head of the text, and the rest. -/
def numeral? (cs : List Char) : Option (Numeral × List Char) := do
  let (negative, cs) := minus cs
  let (whole, cs) := digitRun cs
  if whole.isEmpty || (whole.head? == some '0' && whole.length ≠ 1) then none
  else
    let (fraction, cs) ← fraction? cs
    let (exponent, cs) ← exponent? cs
    return (⟨negative, digitsValue (whole ++ fraction), exponent.getD 0 - fraction.length,
      fraction.isEmpty && exponent.isNone⟩, cs)

/-- The value of a number, unless it is beyond the doubles. -/
def Numeral.value? (n : Numeral) : Option Json :=
  if n.isWhole && !n.negative && n.mantissa < UInt64.size then some (.int n.mantissa)
  else if n.isWhole && n.negative && n.mantissa ≠ 0 && n.mantissa ≤ Decimal.signedLimit then
    some (.int (-n.mantissa))
  else (Decimal.toFloat? n.negative n.mantissa n.exponent).map .float

mutual

/-- A value at the head of the text, and the rest. The first argument bounds the number of
steps, the second the depth that is left. -/
def value? : Nat → Nat → List Char → Option (Json × List Char)
  | 0, _, _ => none
  | fuel + 1, depth, cs =>
    match skipSpace cs with
    | 'n' :: 'u' :: 'l' :: 'l' :: rest => some (.null, rest)
    | 't' :: 'r' :: 'u' :: 'e' :: rest => some (.bool true, rest)
    | 'f' :: 'a' :: 'l' :: 's' :: 'e' :: rest => some (.bool false, rest)
    | '"' :: rest => (stringTail? [] rest).map fun r => (.string (String.ofList r.1), r.2)
    | '[' :: rest =>
      match depth with
      | 0 => none
      | depth + 1 =>
        match skipSpace rest with
        | ']' :: rest => some (.array [], rest)
        | rest => (items? fuel depth rest).map fun r => (.array r.1, r.2)
    | '\x7b' :: rest =>
      match depth with
      | 0 => none
      | depth + 1 =>
        match skipSpace rest with
        | '\x7d' :: rest => some (.object [], rest)
        | rest => (members? fuel depth rest).map fun r => (.object r.1, r.2)
    | rest =>
      match numeral? rest with
      | some (n, rest) => n.value?.map fun v => (v, rest)
      | none => none

/-- The items of an array up to and with its closing bracket. -/
def items? : Nat → Nat → List Char → Option (List Json × List Char)
  | 0, _, _ => none
  | fuel + 1, depth, cs =>
    match value? fuel depth cs with
    | none => none
    | some (v, rest) =>
      match skipSpace rest with
      | ']' :: rest => some ([v], rest)
      | ',' :: rest => (items? fuel depth rest).map fun r => (v :: r.1, r.2)
      | _ => none

/-- The members of an object up to and with its closing bracket. -/
def members? : Nat → Nat → List Char → Option (List (String × Json) × List Char)
  | 0, _, _ => none
  | fuel + 1, depth, cs =>
    match skipSpace cs with
    | '"' :: rest =>
      match stringTail? [] rest with
      | none => none
      | some (name, rest) =>
        match skipSpace rest with
        | ':' :: rest =>
          match value? fuel depth rest with
          | none => none
          | some (v, rest) =>
            let member := (String.ofList name, v)
            match skipSpace rest with
            | '\x7d' :: rest => some ([member], rest)
            | ',' :: rest => (members? fuel depth rest).map fun r => (member :: r.1, r.2)
            | _ => none
        | _ => none
    | _ => none

end

/-- **Reads a whole text as one value.** -/
def parseChars? (cs : List Char) : Option Json :=
  match value? (cs.length + 1) maxDepth cs with
  | some (v, rest) => if (skipSpace rest).isEmpty then some v else none
  | none => none

/-- Reads a whole text as one value. -/
def parse? (s : String) : Option Json :=
  parseChars? s.toList

end Dossier.Json
