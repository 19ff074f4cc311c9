import Dossier.Decimal.Binary
import Dossier.Json.Basic
import Dossier.Order.Sorting
import Dossier.Text.Hex

/-!
# Writing JSON

Two layouts: `compact` has no space at all, `pretty` puts every item and every member on
a line of its own and indents by two spaces, except that an empty list is `[]` and an
empty object is a pair of curly brackets. In strings only the quote, the backslash and
the control characters below the space are escaped. `sortKeys` puts the members of every
object in the order of their names.
-/

namespace Dossier.Json

/-- A character as it stands in a string literal. -/
def escapeChar (c : Char) : List Char :=
  if c == '"' then ['\\', '"']
  else if c == '\\' then ['\\', '\\']
  else if c == '\n' then ['\\', 'n']
  else if c == '\r' then ['\\', 'r']
  else if c == '\t' then ['\\', 't']
  else if c.toNat == 8 then ['\\', 'b']
  else if c.toNat == 12 then ['\\', 'f']
  else if c.toNat < 32 then
    ['\\', 'u', '0', '0', Text.hexDigit (c.toNat / 16), Text.hexDigit (c.toNat % 16)]
  else [c]

/-- A string literal. -/
def quote (s : String) : List Char :=
  '"' :: s.toList.flatMap escapeChar ++ ['"']

/-- Pieces with a separator between neighbours. -/
def separate (sep : List Char) : List (List Char) → List Char
  | [] => []
  | [p] => p
  | p :: ps => p ++ sep ++ separate sep ps

mutual

/-- A value without any space. -/
def compactChars : Json → List Char
  | null => "null".toList
  | bool b => (if b then "true" else "false").toList
  | int i => (Decimal.ofInt i).toList
  | float x => (Decimal.dataFormat.write x).toList
  | string s => quote s
  | array xs => '[' :: separate [','] (compactItems xs) ++ [']']
  | object ms => '\x7b' :: separate [','] (compactMembers ms) ++ ['\x7d']

/-- The items of an array without any space. -/
def compactItems : List Json → List (List Char)
  | [] => []
  | x :: xs => compactChars x :: compactItems xs

/-- The members of an object without any space. -/
def compactMembers : List (String × Json) → List (List Char)
  | [] => []
  | (k, x) :: ms => (quote k ++ ':' :: compactChars x) :: compactMembers ms

end

/-- **The text of a value without any space.** -/
def compact (v : Json) : String :=
  String.ofList (compactChars v)

/-- A line feed and the indentation of a depth. -/
def newLine (depth : Nat) : List Char :=
  '\n' :: List.replicate (2 * depth) ' '

/-- Pieces on lines of their own between two brackets. -/
def block (o c : Char) (depth : Nat) (pieces : List (List Char)) : List Char :=
  match pieces with
  | [] => [o, c]
  | _ =>
    o :: newLine (depth + 1) ++ separate (',' :: newLine (depth + 1)) pieces ++
      newLine depth ++ [c]

mutual

/-- A value laid out at a depth. -/
def prettyChars (depth : Nat) : Json → List Char
  | null => "null".toList
  | bool b => (if b then "true" else "false").toList
  | int i => (Decimal.ofInt i).toList
  | float x => (Decimal.dataFormat.write x).toList
  | string s => quote s
  | array xs => block '[' ']' depth (prettyItems (depth + 1) xs)
  | object ms => block '\x7b' '\x7d' depth (prettyMembers (depth + 1) ms)

/-- The items of an array laid out at a depth. -/
def prettyItems (depth : Nat) : List Json → List (List Char)
  | [] => []
  | x :: xs => prettyChars depth x :: prettyItems depth xs

/-- The members of an object laid out at a depth. -/
def prettyMembers (depth : Nat) : List (String × Json) → List (List Char)
  | [] => []
  | (k, x) :: ms => (quote k ++ ':' :: ' ' :: prettyChars depth x) :: prettyMembers depth ms

end

/-- **The text of a value with one item or member a line.** -/
def pretty (v : Json) : String :=
  String.ofList (prettyChars 0 v)

mutual

/-- The value with the members of every object in the order of their names. -/
def sortKeys : Json → Json
  | array xs => array (sortKeysItems xs)
  | object ms => object (Order.sort (fun a b => a.1 ≤ b.1) (sortKeysMembers ms))
  | v => v

/-- `sortKeys` on each item. -/
def sortKeysItems : List Json → List Json
  | [] => []
  | x :: xs => sortKeys x :: sortKeysItems xs

/-- `sortKeys` on the value of each member. -/
def sortKeysMembers : List (String × Json) → List (String × Json)
  | [] => []
  | (k, x) :: ms => (k, sortKeys x) :: sortKeysMembers ms

end

end Dossier.Json
