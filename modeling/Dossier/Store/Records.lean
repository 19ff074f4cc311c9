import Dossier.Order.Sorting
import Dossier.Record.Basic
import Dossier.Reply
import Dossier.Store.Error

/-!
# Stores of records

A store of records keeps one record under every key: a record that is put takes the place
of the one that was there. It is read by key, or asked for all records of a function in a
repository, oldest first, whatever their files and fingerprints.
-/

namespace Dossier

/-- What a store of records does. Putting a record changes the store and may fail. -/
class RecordStore (σ : Type) where
  /-- The record under a key. -/
  get : σ → RecordKey → Reply StoreError (Option Record)
  put : σ → Record → σ × Reply StoreError Unit
  /-- The records of a function in a repository, oldest first. -/
  history : σ → String → String → Reply StoreError (List Record)

namespace Record

/-- Whether a record comes before another or beside it: by time, then by file, then by
fingerprint. -/
def notAfter (a b : Record) : Bool :=
  match a.createdAt.compare b.createdAt with
  | .lt => true
  | .gt => false
  | .eq =>
    a.function.filePath < b.function.filePath ||
      (a.function.filePath == b.function.filePath &&
        a.function.fingerprint ≤ b.function.fingerprint)

/-- **Records from the oldest to the newest.** -/
def oldestFirst (rs : List Record) : List Record :=
  Order.sort notAfter rs

/-- Whether a record is of a function of this name in a repository. -/
def isOf (repositoryId functionName : String) (r : Record) : Bool :=
  r.function.repositoryId == repositoryId && r.function.functionName == functionName

end Record

end Dossier
