import Dossier.Json.Parser
import Dossier.Json.Printer
import Dossier.Record.Json
import Dossier.Store.Records

/-!
# Records in a table

A table has one row for every key. A row holds a record as JSON text, next to the columns
by which rows are looked up and listed. What is read has been written and read again, so a
record that does not come back from its text is a failure when it is read, and not when it
is put.

The table is kept in a database, and a call may come to nothing there (`Dossier.Trouble`). A
statement is carried out whole or not at all, so such a call leaves the table as it was.
-/

namespace Dossier

/-- A row of the table. -/
structure Row where
  key : RecordKey
  functionName : String
  /-- The time as a text in which all fractions have nine digits. -/
  createdAt : String
  formatVersion : Nat
  record : String
deriving DecidableEq, Repr, Inhabited

namespace Row

/-- The row of a record. -/
def ofRecord (r : Record) : Row :=
  ⟨r.key, r.function.functionName, r.createdAt.writeNanos, r.formatVersion, r.toJson.compact⟩

/-- The record of a row. -/
def toRecord (row : Row) : Except StoreError Record :=
  match (Json.parse? row.record).bind Record.ofJson? with
  | some r => .ok r
  | none => .error (.serialization "no record")

end Row

/-- A table of rows. -/
structure Table where
  rows : List Row
deriving DecidableEq, Repr, Inhabited

namespace Table

/-- The table without rows. -/
def empty : Table :=
  ⟨[]⟩

/-- Rows with one more, in the place of the one that has its key. -/
def replace (new : Row) : List Row → List Row
  | [] => [new]
  | r :: rs => if r.key = new.key then new :: rs else r :: replace new rs

/-- The record under a key. -/
def get (t : Table) (k : RecordKey) : Except StoreError (Option Record) :=
  match t.rows.find? fun r => r.key == k with
  | none => .ok none
  | some row => row.toRecord.map some

/-- The record under a key, if there is one that can be read. -/
def get? (t : Table) (k : RecordKey) : Option Record :=
  (t.get k).toOption.join

/-- The table with a record put. -/
def put (t : Table) (r : Record) : Table :=
  ⟨replace (Row.ofRecord r) t.rows⟩

/-- The rows of a function in a repository, in the order of the texts of their times. -/
def select (t : Table) (repositoryId functionName : String) : List Row :=
  Order.sort (fun a b => !decide (b.createdAt < a.createdAt))
    (t.rows.filter fun r => r.key.repositoryId == repositoryId && r.functionName == functionName)

/-- The records of a function in a repository, oldest first. -/
def history (t : Table) (repositoryId functionName : String) : Except StoreError (List Record) :=
  ((t.select repositoryId functionName).mapM Row.toRecord).map Record.oldestFirst

/-- A result as a reply. -/
def reply {α : Type} : Except StoreError α → Reply StoreError α
  | .ok a => .answer a
  | .error e => .failure e

instance : RecordStore Table where
  get t k := reply (t.get k)
  put t r := (t.put r, .answer ())
  history t repositoryId functionName := reply (t.history repositoryId functionName)

end Table

/-! ### A database in trouble -/

/-- What may befall a call of the database. -/
inductive Trouble where
  /-- The connection has been left locked by a call that broke down. -/
  | locked
  /-- The statement is refused, with what the database says. -/
  | refused (message : String)
  /-- The task of the call breaks down before the statement, with what is said of it. -/
  | broken (message : String)
  /-- The call does not return. -/
  | stuck
deriving DecidableEq, Repr, Inhabited

/-- What comes back from a call that comes to nothing. -/
def Trouble.reply {α : Type} : Trouble → Reply StoreError α
  | locked => .failure (.unavailable "connection lock poisoned")
  | refused message => .failure (.database message)
  | broken message => .failure (.unavailable ("store task failed: " ++ message))
  | stuck => .stall

/-- What befalls the calls of a table: nothing, unless a trouble is named. -/
structure Troubles where
  get : Table → RecordKey → Option Trouble := fun _ _ => none
  put : Table → Record → Option Trouble := fun _ _ => none
  history : Table → String → String → Option Trouble := fun _ _ _ => none

/-- **A table whose calls may come to nothing.** -/
@[reducible] def Table.troubled (troubles : Troubles) : RecordStore Table where
  get t k := (troubles.get t k).elim (RecordStore.get t k) Trouble.reply
  put t r := (troubles.put t r).elim (RecordStore.put t r) fun trouble => (t, trouble.reply)
  history t repositoryId functionName :=
    (troubles.history t repositoryId functionName).elim
      (RecordStore.history t repositoryId functionName) Trouble.reply

theorem Table.put_troubled (troubles : Troubles) (t : Table) (r : Record) :
    (Table.troubled troubles).put t r =
      (troubles.put t r).elim (t.put r, .answer ()) fun trouble => (t, trouble.reply) :=
  rfl

end Dossier
