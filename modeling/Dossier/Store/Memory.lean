import Dossier.Store.Records

/-!
# Records in memory

The records themselves, one for each key. Reading, writing and listing never fail.
-/

namespace Dossier

/-- Records, one for each key. -/
structure MemoryStore where
  records : List Record
deriving Repr, Inhabited

namespace MemoryStore

/-- The store without records. -/
def empty : MemoryStore :=
  ⟨[]⟩

/-- The record under a key. -/
def get? (s : MemoryStore) (k : RecordKey) : Option Record :=
  s.records.find? fun r => r.key == k

/-- Records with one more, in the place of the one that has its key. -/
def replace (new : Record) : List Record → List Record
  | [] => [new]
  | r :: rs => if r.key = new.key then new :: rs else r :: replace new rs

/-- The store with a record put. -/
def put (s : MemoryStore) (r : Record) : MemoryStore :=
  ⟨replace r s.records⟩

/-- The records of a function in a repository, oldest first. -/
def history (s : MemoryStore) (repositoryId functionName : String) : List Record :=
  Record.oldestFirst (s.records.filter (Record.isOf repositoryId functionName))

/-- The number of records. -/
def size (s : MemoryStore) : Nat :=
  s.records.length

instance : RecordStore MemoryStore where
  get s k := .answer (s.get? k)
  put s r := (s.put r, .answer ())
  history s repositoryId functionName := .answer (s.history repositoryId functionName)

end MemoryStore

end Dossier
