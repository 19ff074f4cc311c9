/-!
# Reading bytes as text

Bytes are read as UTF-8 by a machine that looks at one byte after another. A first byte
says how many bytes follow it and, for some, narrows what the next one may be, so neither
overlong forms nor surrogates are read. `decode?` refuses bytes that are no text; `decode`
puts the replacement character for every stretch of bytes that begins a character and
does not go on, and for every byte that begins none.
-/

namespace Dossier.Text

/-- A character that has been begun. -/
structure Begun where
  /-- How many bytes are missing. -/
  missing : Nat
  /-- The least byte that may come next. -/
  low : UInt8
  /-- The greatest byte that may come next. -/
  high : UInt8
  /-- The bits that have been read. -/
  bits : Nat
deriving DecidableEq, Repr, Inhabited

/-- What a first byte means: a character of its own, the beginning of one, or nothing. -/
inductive FirstByte where
  | single (c : Char)
  | begins (b : Begun)
  | wrong
deriving Repr, Inhabited

/-- Reads a first byte. -/
def FirstByte.of (b : UInt8) : FirstByte :=
  let n := b.toNat
  if n < 0x80 then single (Char.ofNat n)
  else if n < 0xC2 then wrong
  else if n < 0xE0 then begins ⟨1, 0x80, 0xBF, n - 0xC0⟩
  else if n = 0xE0 then begins ⟨2, 0xA0, 0xBF, 0⟩
  else if n = 0xED then begins ⟨2, 0x80, 0x9F, 0xD⟩
  else if n < 0xF0 then begins ⟨2, 0x80, 0xBF, n - 0xE0⟩
  else if n = 0xF0 then begins ⟨3, 0x90, 0xBF, 0⟩
  else if n < 0xF4 then begins ⟨3, 0x80, 0xBF, n - 0xF0⟩
  else if n = 0xF4 then begins ⟨3, 0x80, 0x8F, 4⟩
  else wrong

/-- What a later byte means: it ends the character, or goes on with it, or does neither. -/
def Begun.next (p : Begun) (b : UInt8) : FirstByte :=
  if p.low ≤ b ∧ b ≤ p.high then
    let bits := p.bits * 64 + (b.toNat - 0x80)
    if p.missing ≤ 1 then .single (Char.ofNat bits)
    else .begins ⟨p.missing - 1, 0x80, 0xBF, bits⟩
  else .wrong

/-- Stands for bytes that are no text. -/
def replacement : Char := '\uFFFD'

/-- Reads bytes after the beginning of a character, or between characters. -/
def decodeFrom : Option Begun → List UInt8 → List Char
  | none, [] => []
  | some _, [] => [replacement]
  | none, b :: bs =>
    match FirstByte.of b with
    | .single c => c :: decodeFrom none bs
    | .begins p => decodeFrom (some p) bs
    | .wrong => replacement :: decodeFrom none bs
  | some p, b :: bs =>
    match p.next b with
    | .single c => c :: decodeFrom none bs
    | .begins p => decodeFrom (some p) bs
    | .wrong =>
      replacement ::
        match FirstByte.of b with
        | .single c => c :: decodeFrom none bs
        | .begins p => decodeFrom (some p) bs
        | .wrong => replacement :: decodeFrom none bs

/-- **The text that bytes stand for**, with replacements for what is no text. -/
def decode (bs : List UInt8) : String :=
  String.ofList (decodeFrom none bs)

/-- Reads bytes strictly, after the beginning of a character or between characters. -/
def decodeFrom? : Option Begun → List UInt8 → Option (List Char)
  | none, [] => some []
  | some _, [] => none
  | place, b :: bs =>
    match (match place with
      | none => FirstByte.of b
      | some p => p.next b) with
    | .single c => (decodeFrom? none bs).map fun cs => c :: cs
    | .begins p => decodeFrom? (some p) bs
    | .wrong => none

/-- **The text that bytes stand for**, if they stand for one. -/
def decode? (bs : List UInt8) : Option String :=
  (decodeFrom? none bs).map String.ofList

/-- The bytes of a text. -/
def encode (s : String) : List UInt8 :=
  s.toList.flatMap String.utf8EncodeChar

end Dossier.Text
