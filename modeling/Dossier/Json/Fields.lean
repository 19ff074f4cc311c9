import Dossier.Decimal.Digits
import Dossier.Json.Basic

/-!
# Typed reading of JSON

A structure is written as an object whose members are its fields, in any order, or as an
array of its fields in the order of their declaration. `fields?` takes both and gives the
values field by field. A field that is named twice is refused; members that are no fields
are passed over, unless the structure is closed. Whether a field may be left out is its
`Presence`.

The readers of single values are strict: an integer is no text, a fraction is no integer,
and an integer out of its range is none at all.
-/

namespace Dossier.Json

/-- Whether a field has to be there. -/
inductive Presence where
  /-- The field has to be there. -/
  | required
  /-- The field may be left out where fields are named. -/
  | named
  /-- The field may be left out. -/
  | free
deriving DecidableEq, Repr

/-- The values of fields given by name. -/
def namedFields? (ms : List (String × Json)) :
    List (String × Presence) → Option (List (Option Json))
  | [] => some []
  | (name, presence) :: rules =>
    match ms.filter fun m => m.1 == name with
    | [] =>
      if presence = .required then none else (namedFields? ms rules).map fun vs => none :: vs
    | [m] => (namedFields? ms rules).map fun vs => some m.2 :: vs
    | _ => none

/-- The values of fields given by position. -/
def listedFields? : List Json → List (String × Presence) → Option (List (Option Json))
  | [], [] => some []
  | _ :: _, [] => none
  | x :: xs, _ :: rules => (listedFields? xs rules).map fun vs => some x :: vs
  | [], (_, presence) :: rules =>
    if presence = .free then (listedFields? [] rules).map fun vs => none :: vs else none

/-- **The values of the fields of a structure.** -/
def fields? (closed : Bool) (rules : List (String × Presence)) (v : Json) :
    Option (List (Option Json)) :=
  match v with
  | object ms =>
    if closed && ms.any fun m => !(rules.any fun r => r.1 == m.1) then none
    else namedFields? ms rules
  | array xs => listedFields? xs rules
  | _ => none

/-- A natural number below a limit. -/
def natBelow? (limit : Nat) : Json → Option Nat
  | int i => if 0 ≤ i ∧ i < limit then some i.toNat else none
  | _ => none

/-- A natural number of thirty-two bits. -/
def nat32? : Json → Option Nat :=
  natBelow? UInt32.size

/-- A natural number of sixty-four bits. -/
def nat64? : Json → Option Nat :=
  natBelow? UInt64.size

/-- A signed integer of sixty-four bits. -/
def int64? : Json → Option Int
  | int i => Decimal.signed? i
  | _ => none

/-- A number as a double. -/
def double? : Json → Option Float
  | float x => some x
  | int i => some (Float.ofInt i)
  | _ => none

/-- An array of which every item can be read. -/
def list? {α : Type} (read : Json → Option α) : Json → Option (List α)
  | array xs => xs.mapM read
  | _ => none

/-- An array of strings. -/
def strings? : Json → Option (List String) :=
  list? string?

/-- The name of a choice without further data: a string, or an object whose one member has
that name and the value null. -/
def choice? : Json → Option String
  | string s => some s
  | object [(name, null)] => some name
  | _ => none

/-- A value or null. -/
def optional? {α : Type} (read : Json → Option α) : Json → Option (Option α)
  | null => some none
  | v => (read v).map some

/-- A double as a value; what is no finite number is null. -/
def ofDouble (x : Float) : Json :=
  if x.isFinite then float x else null

end Dossier.Json
