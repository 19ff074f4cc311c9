import Dossier.Files.Error

/-!
# Errors of stores

Why a store of records or artifacts could not do its work.
-/

namespace Dossier

/-- Why a store could not do its work. -/
inductive StoreError where
  | database (message : String)
  | serialization (message : String)
  | file (error : FileError)
  | unavailable (message : String)
deriving DecidableEq, Repr, Inhabited

/-- The name of the kind of a reason. -/
def StoreError.kind : StoreError → String
  | database _ => "Sqlite"
  | serialization _ => "Serialization"
  | file _ => "Io"
  | unavailable _ => "Unavailable"

/-- The reason in words. -/
def StoreError.text : StoreError → String
  | database message => "sqlite error: " ++ message
  | serialization message => "record serialization failed: " ++ message
  | file e => "store i/o failed: " ++ e.text
  | unavailable message => "store unavailable: " ++ message

end Dossier
