/-!
# JSON values

A JSON value with its numbers told apart as they are written: integers that fit sixty-four
bits, signed or not, and doubles. The members of an object keep the order and the
repetitions of the text; `get?` takes the last member of a name, and `distinctKeys` says
whether a name is repeated.
-/

namespace Dossier

/-- A JSON value. -/
inductive Json where
  | null
  | bool (b : Bool)
  | int (i : Int)
  | float (x : Float)
  | string (s : String)
  | array (items : List Json)
  | object (members : List (String × Json))
deriving Repr, Inhabited

namespace Json

/-- The member of an object with a name, the last one if the name is repeated. -/
def get? (name : String) : Json → Option Json
  | object ms => (ms.reverse.find? fun m => m.1 == name).map Prod.snd
  | _ => none

/-- The text of a string value. -/
def string? : Json → Option String
  | string s => some s
  | _ => none

/-- The value of an integer. -/
def int? : Json → Option Int
  | int i => some i
  | _ => none

/-- The items of an array. -/
def array? : Json → Option (List Json)
  | array xs => some xs
  | _ => none

/-- The members of an object. -/
def object? : Json → Option (List (String × Json))
  | object ms => some ms
  | _ => none

/-- A list of strings as a value. -/
def ofStrings (ss : List String) : Json :=
  array (ss.map string)

/-- A natural number as a value. -/
def ofNat (n : Nat) : Json :=
  int n

end Json

end Dossier
