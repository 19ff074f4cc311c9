import Dossier.Text.Blank
import Dossier.Time.Date

/-!
# Instants

A moment of universal time, to the nanosecond: a date, a second of the day, and the
nanoseconds since it began. A leap second is no second of its own; it lengthens the last
second of a minute, so its nanoseconds count from one billion on.

`write` puts an instant into the internet format, with a `Z` at its end and as many
fraction digits in threes as are needed. `read?` takes more than `write` makes: blanks
before numbers and before the separators, any offset from universal time, and a fraction
of any length, of which nine digits count.
-/

namespace Dossier

/-- A moment of universal time. -/
structure Instant where
  date : Date
  /-- The second of the day. -/
  second : Nat
  /-- The nanoseconds since that second began. -/
  nanos : Nat
deriving DecidableEq, Repr, Inhabited

namespace Instant

/-- The number of nanoseconds in a second. -/
def nanosPerSecond : Nat := 1000000000

/-- The moment so many seconds after the beginning of 1970, and nanoseconds after that. -/
def ofTimestamp (seconds : Int) (nanos : Nat) : Instant :=
  ⟨Date.ofDays (seconds / Date.secondsPerDay), (seconds % Date.secondsPerDay).toNat, nanos⟩

/-- Instants are compared by date, second and nanoseconds. -/
def compare (a b : Instant) : Ordering :=
  (a.date.compare b.date).then
    ((Ord.compare a.second b.second).then (Ord.compare a.nanos b.nanos))

/-- **The time from one instant to another**, in nanoseconds. A leap second between them
counts when the later of the two seconds of the day is past it. -/
def since (later earlier : Instant) : Int :=
  let days := later.date.toDays - earlier.date.toDays
  let seconds : Int := later.second - earlier.second
  let leap : Int :=
    if earlier.second < later.second then
      if nanosPerSecond ≤ earlier.nanos then 1 else 0
    else if later.second < earlier.second then
      if nanosPerSecond ≤ later.nanos then -1 else 0
    else 0
  (days * Date.secondsPerDay + seconds + leap) * nanosPerSecond +
    ((later.nanos : Int) - earlier.nanos)

/-- The instant so many seconds later; the nanoseconds stay. -/
def addSeconds (t : Instant) (seconds : Int) : Instant :=
  let total := (t.second : Int) + seconds
  let days := total / Date.secondsPerDay
  let date := if days = 0 then t.date else Date.ofDays (t.date.toDays + days)
  ⟨date, (total % Date.secondsPerDay).toNat, t.nanos⟩

/-! ### Writing -/

/-- The fraction of a second, with its point, in the fewest threes of digits. -/
def fractionText (nanos : Nat) : List Char :=
  if nanos = 0 then []
  else if nanos % 1000000 = 0 then '.' :: Decimal.padded 3 (nanos / 1000000)
  else if nanos % 1000 = 0 then '.' :: Decimal.padded 6 (nanos / 1000)
  else '.' :: Decimal.padded 9 nanos

/-- The hour, the minute and the second, with colons between them; in a leap second the
second is sixty. -/
def clockText (t : Instant) : List Char :=
  let extra := if nanosPerSecond ≤ t.nanos then 1 else 0
  Decimal.padded 2 (t.second / 3600) ++ ':' :: Decimal.padded 2 (t.second / 60 % 60) ++
    ':' :: Decimal.padded 2 (t.second % 60 + extra)

/-- The nanoseconds of a second that may be a leap second. -/
def fraction (t : Instant) : Nat :=
  if nanosPerSecond ≤ t.nanos then t.nanos - nanosPerSecond else t.nanos

/-- **An instant in the internet format.** -/
def chars (t : Instant) : List Char :=
  t.date.chars ++ 'T' :: t.clockText ++ fractionText t.fraction ++ ['Z']

/-- An instant in the internet format. -/
def write (t : Instant) : String :=
  String.ofList t.chars

/-- An instant in the internet format with all nine digits of its fraction, so that the
order of the texts is the order of the instants of one millennium. -/
def writeNanos (t : Instant) : String :=
  String.ofList (t.date.chars ++ 'T' :: t.clockText ++ '.' :: Decimal.padded 9 t.fraction ++ ['Z'])

/-- The date and the time of day to the second, with a space between them. -/
def dayAndTime (t : Instant) : String :=
  String.ofList (t.date.chars ++ ' ' :: t.clockText)

/-! ### Reading -/

/-- A number of at least one and at most `limit` digits after blanks, and the rest. -/
def number? (limit : Nat) (cs : List Char) : Option (Nat × List Char) :=
  let cs := Text.dropBlank cs
  let ds := (cs.take limit).takeWhile fun c => (Decimal.digitValue? c).isSome
  (Decimal.value? ds).map fun n => (n, cs.drop ds.length)

/-- A number whose digits are all taken, without blanks before it. -/
def longNumber? (cs : List Char) : Option (Nat × List Char) :=
  let ds := cs.takeWhile fun c => (Decimal.digitValue? c).isSome
  (Decimal.value? ds).map fun n => (n, cs.drop ds.length)

/-- A year: four digits at most, or a sign and any number of digits. -/
def year? (cs : List Char) : Option (Int × List Char) :=
  match Text.dropBlank cs with
  | '-' :: cs => (longNumber? cs).map fun r => (-(r.1 : Int), r.2)
  | '+' :: cs => (longNumber? cs).map fun r => ((r.1 : Int), r.2)
  | cs => (number? 4 cs).map fun r => ((r.1 : Int), r.2)

/-- What follows a character, with blanks before it. -/
def after? (c : Char) (cs : List Char) : Option (List Char) :=
  Text.dropPrefix? [c] (Text.dropBlank cs)

/-- The fraction of a second in nanoseconds, if there is one, and the rest. -/
def fraction? (cs : List Char) : Option (Nat × List Char) :=
  match cs with
  | '.' :: rest =>
    let ds := rest.takeWhile fun c => (Decimal.digitValue? c).isSome
    let kept := ds.take 9
    (Decimal.value? kept).map fun n => (n * Nat.pow 10 (9 - kept.length), rest.drop ds.length)
  | _ => some (0, cs)

/-- The two digits at the head of a text, and the rest. -/
def twoDigits? : List Char → Option (Nat × List Char)
  | a :: b :: cs => (Decimal.value? [a, b]).map fun n => (n, cs)
  | _ => none

/-- The offset from universal time in seconds, and the rest. -/
def offset? (cs : List Char) : Option (Int × List Char) :=
  let signed (sign : Int) (cs : List Char) : Option (Int × List Char) := do
    let (hours, cs) ← twoDigits? cs
    let (minutes, cs) ← twoDigits? (cs.dropWhile fun c => c == ':' || Text.isBlank c)
    if 60 ≤ minutes then none
    else if 24 ≤ hours then none
    else some (sign * (hours * 3600 + minutes * 60), cs)
  match cs with
  | 'Z' :: rest | 'z' :: rest => some (0, rest)
  | u :: t :: c :: rest =>
    if (u == 'U' || u == 'u') && (t == 'T' || t == 't') && (c == 'C' || c == 'c') then
      some (0, rest)
    else if u == '+' then signed 1 (t :: c :: rest)
    else if u == '-' || u == '−' then signed (-1) (t :: c :: rest)
    else none
  | _ => none

/-- A local time taken back by its offset. -/
def shift (date : Date) (second : Nat) (offset : Int) : Date × Nat :=
  let total := (second : Int) - offset
  if total < 0 then (date.previous, (total + Date.secondsPerDay).toNat)
  else if Date.secondsPerDay ≤ total then (date.next, (total - Date.secondsPerDay).toNat)
  else (date, total.toNat)

/-- **Reads an instant.** -/
def readChars? (cs : List Char) : Option Instant := do
  let (year, cs) ← year? cs
  let cs ← after? '-' cs
  let (month, cs) ← number? 2 cs
  let cs ← after? '-' cs
  let (day, cs) ← number? 2 cs
  let date : Date := ⟨year, month, day⟩
  guard date.isValid
  let cs ←
    match cs with
    | 'T' :: cs | 't' :: cs | ' ' :: cs => some cs
    | _ => none
  let (hour, cs) ← number? 2 cs
  let cs ← after? ':' cs
  let (minute, cs) ← number? 2 cs
  let cs ← after? ':' cs
  let (second, cs) ← number? 2 cs
  guard (hour < 24 && minute < 60 && second ≤ 60)
  let (nanos, cs) ← fraction? cs
  let (offset, cs) ← offset? (Text.dropBlank cs)
  guard (Text.dropBlank cs).isEmpty
  let (leap, second) := if second = 60 then (nanosPerSecond, 59) else (0, second)
  let (date, second) := shift date (hour * 3600 + minute * 60 + second) offset
  guard date.isValid
  some ⟨date, second, leap + nanos⟩

/-- Reads an instant. -/
def read? (s : String) : Option Instant :=
  readChars? s.toList

end Instant

end Dossier
