import Dossier.Proofs.Record.Codec
import Dossier.Proofs.Record.Order
import Dossier.Proofs.Store.Faithful

/-!
# The stores of records agree

A store in memory keeps the records themselves, a table keeps their texts with the columns that
its rows are found by. To whoever calls them they are the same store: after the same calls they
give the same answers, and these are the answers that the records put so far determine
(`Dossier.answers_agree`). Under a key there is the record that was put last, and the history of a
function is made of all such records of the function, each once, in the order in which records are
listed.

The table is simulated by the memory: its rows are those of the records in memory, in the same
order (`Dossier.Mirrors`), because both put a record into the place of the one that has its key.
-/

namespace Dossier

/-! ### Calls and their answers -/

/-- A call of a store of records. -/
inductive StoreCall where
  | put (r : Record)
  | get (key : RecordKey)
  | history (repositoryId functionName : String)

/-- What comes back from a call. -/
inductive StoreAnswer where
  | put (reply : Reply StoreError Unit)
  | get (reply : Reply StoreError (Option Record))
  | history (reply : Reply StoreError (List Record))

/-- The record under a key, where the record that was put last comes first. -/
def latest? (log : List Record) (key : RecordKey) : Option Record :=
  log.find? fun r => r.key == key

/-- **Whether records are the history of a function**: those that are there under their keys, each
once and in order. -/
structure IsHistory (log : List Record) (repositoryId functionName : String) (rs : List Record) :
    Prop where
  ordered : rs.Pairwise Record.Before
  once : rs.Nodup
  mem_iff : ∀ r, r ∈ rs ↔ latest? log r.key = some r ∧
    r.function.repositoryId = repositoryId ∧ r.function.functionName = functionName

namespace StoreCall

variable {σ : Type} [RecordStore σ]

/-- What a call makes of a store, and what comes back. -/
def run (s : σ) : StoreCall → σ × StoreAnswer
  | put r => ((RecordStore.put s r).1, .put (RecordStore.put s r).2)
  | get key => (s, .get (RecordStore.get s key))
  | history repositoryId functionName =>
    (s, .history (RecordStore.history s repositoryId functionName))

/-- **What comes back from calls** that are made one after another. -/
def answers (s : σ) : List StoreCall → List StoreAnswer
  | [] => []
  | call :: calls => (call.run s).2 :: answers (call.run s).1 calls

/-- The records that have been put after a call, the last one first. -/
def extend (log : List Record) : StoreCall → List Record
  | put r => r :: log
  | get _ => log
  | history _ _ => log

/-- **Whether an answer to a call is the right one**, given the records put before. -/
def Answered (log : List Record) : StoreCall → StoreAnswer → Prop
  | put _, .put reply => reply = .answer ()
  | get key, .get reply => reply = .answer (latest? log key)
  | history repositoryId functionName, .history reply =>
    ∃ rs, reply = .answer rs ∧ IsHistory log repositoryId functionName rs
  | _, _ => False

/-- Whether every call has the right answer. -/
def AllAnswered : List Record → List StoreCall → List StoreAnswer → Prop
  | _, [], [] => True
  | log, call :: calls, answer :: answers =>
    call.Answered log answer ∧ AllAnswered (call.extend log) calls answers
  | _, _, _ => False

end StoreCall

/-! ### Records in the place of others -/

namespace MemoryStore

variable {r new : Record} {rs : List Record}

/-- A record takes the place of the one that has its key, or comes last. -/
theorem map_key_replace (new : Record) (rs : List Record) :
    (replace new rs).map Record.key =
      if new.key ∈ rs.map Record.key then rs.map Record.key
      else rs.map Record.key ++ [new.key] := by
  induction rs with
  | nil => rfl
  | cons r rs ih =>
    rw [replace]
    split
    · next heq => simp [heq]
    · next hne => rw [List.map_cons, ih]; split <;> simp_all [eq_comm]

theorem nodup_replace (new : Record) (h : (rs.map Record.key).Nodup) :
    ((replace new rs).map Record.key).Nodup := by
  rw [map_key_replace]
  split
  · exact h
  · next hnew => exact List.nodup_append_comm.mp (List.nodup_cons.mpr ⟨hnew, h⟩)

theorem mem_replace (h : r ∈ replace new rs) : r = new ∨ r ∈ rs := by
  induction rs with
  | nil => exact Or.inl (List.mem_singleton.mp h)
  | cons x rs ih =>
    rw [replace] at h
    split at h
    · exact (List.mem_cons.mp h).imp_right fun h => List.mem_cons_of_mem _ h
    · rcases List.mem_cons.mp h with rfl | h
      · exact Or.inr List.mem_cons_self
      · exact (ih h).imp_right fun h => List.mem_cons_of_mem _ h

/-- Of records with different keys each one is the record under its key. -/
theorem mem_iff_find? (h : (rs.map Record.key).Nodup) :
    r ∈ rs ↔ rs.find? (fun x => x.key == r.key) = some r := by
  refine ⟨fun hr => ?_, List.mem_of_find?_eq_some⟩
  obtain ⟨x, hx⟩ : ∃ x, rs.find? (fun x => x.key == r.key) = some x :=
    Option.isSome_iff_exists.mp (List.find?_isSome.mpr ⟨r, hr, beq_self_eq_true _⟩)
  have hkey := List.find?_some hx
  rw [beq_iff_eq] at hkey
  rw [hx, List.inj_on_of_nodup_map h (List.mem_of_find?_eq_some hx) hr hkey]

end MemoryStore

theorem latest?_cons (r : Record) (log : List Record) (key : RecordKey) :
    latest? (r :: log) key = if r.key = key then some r else latest? log key := by
  rw [latest?, List.find?_cons]
  split <;> simp_all [latest?]

/-! ### Rows of records -/

namespace Table

variable {rs : List Record}

/-- The row of a record takes the place that the record takes. -/
theorem replace_map (new : Record) (rs : List Record) :
    replace (Row.ofRecord new) (rs.map Row.ofRecord) =
      (MemoryStore.replace new rs).map Row.ofRecord := by
  induction rs with
  | nil => rfl
  | cons r rs ih =>
    have hkey : (Row.ofRecord r).key = (Row.ofRecord new).key ↔ r.key = new.key := Iff.rfl
    rw [List.map_cons, replace, MemoryStore.replace, ih]
    simp only [hkey]
    split <;> rfl

theorem find?_map (rs : List Record) (key : RecordKey) :
    ((rs.map Row.ofRecord).find? fun row => row.key == key) =
      (rs.find? fun r => r.key == key).map Row.ofRecord := by
  rw [List.find?_map]
  rfl

/-- **All records are read back from their rows.** -/
theorem mapM_toRecord (h : ∀ r ∈ rs, r.Representable) :
    (rs.map Row.ofRecord).mapM Row.toRecord = .ok rs := by
  induction rs with
  | nil => rfl
  | cons r rs ih =>
    rw [List.map_cons, List.mapM_cons, (h r List.mem_cons_self).toRecord_ofRecord,
      ih fun r hr => h r (List.mem_cons_of_mem _ hr)]
    rfl

/-- The rows of a function are those of its records, in some order. -/
theorem exists_select (repositoryId functionName : String) (rs : List Record) :
    ∃ picked : List Record,
      select ⟨rs.map Row.ofRecord⟩ repositoryId functionName = picked.map Row.ofRecord ∧
        picked.Perm (rs.filter (Record.isOf repositoryId functionName)) := by
  have hfilter : ((rs.map Row.ofRecord).filter fun row =>
        row.key.repositoryId == repositoryId && row.functionName == functionName) =
      (rs.filter (Record.isOf repositoryId functionName)).map Row.ofRecord := by
    rw [List.filter_map]
    rfl
  rw [select, hfilter, Order.sort_map]
  exact ⟨_, rfl, Order.sort_perm _ _⟩

end Table

/-! ### Records that have been put -/

namespace Table

theorem find?_replace_self (row : Row) (rows : List Row) :
    (replace row rows).find? (fun x => x.key == row.key) = some row := by
  induction rows with
  | nil => simp [replace]
  | cons x rows ih =>
    rw [replace]
    split
    · simp
    · next hne => rw [List.find?_cons_of_neg (by simpa using hne), ih]

/-- A record that is put into a table can be read from it. -/
theorem get?_put_self {r : Record} (hr : r.Representable) (t : Table) :
    (t.put r).get? r.key = some r := by
  have hfound : (replace (Row.ofRecord r) t.rows).find? (fun row => row.key == r.key) =
      some (Row.ofRecord r) := find?_replace_self (Row.ofRecord r) t.rows
  rw [get?, get, put, hfound]
  dsimp only
  rw [hr.toRecord_ofRecord]
  rfl

end Table

/-- **A record that a store has acknowledged is in it.** -/
theorem KeepsRecords.held_put {σ : Type} {i : RecordStore σ}
    {held : σ → RecordKey → Option Record} (h : KeepsRecords i held) {s : σ} {r : Record}
    (hr : r.Representable) (hput : (i.put s r).2 = .answer ()) :
    held (i.put s r).1 r.key = some r := by
  cases h with
  | memory => exact MemoryStore.faithful.put_acknowledged hput
  | table troubles =>
    rw [Table.put_troubled] at hput ⊢
    generalize troubles.put s r = trouble at hput ⊢
    cases trouble with
    | none => exact Table.get?_put_self hr s
    | some trouble => cases trouble <;> cases hput

/-! ### The simulation -/

/-- **Whether a table mirrors a store in memory** in which there is what has been put. -/
structure Mirrors (log : List Record) (s : MemoryStore) (t : Table) : Prop where
  rows : t.rows = s.records.map Row.ofRecord
  representable : ∀ r ∈ s.records, r.Representable
  distinct : (s.records.map Record.key).Nodup
  latest : ∀ key, s.get? key = latest? log key

namespace Mirrors

variable {log : List Record} {s : MemoryStore} {t : Table}

theorem empty : Mirrors [] .empty .empty :=
  ⟨rfl, nofun, List.nodup_nil, fun _ => rfl⟩

/-- **A record that is put is mirrored.** -/
theorem put (h : Mirrors log s t) {r : Record} (hr : r.Representable) :
    Mirrors (r :: log) (s.put r) (t.put r) where
  rows := by rw [Table.put, h.rows, Table.replace_map, MemoryStore.put]
  representable x hx := by
    rcases MemoryStore.mem_replace hx with rfl | hx
    · exact hr
    · exact h.representable x hx
  distinct := MemoryStore.nodup_replace r h.distinct
  latest key := by
    rw [latest?_cons, ← h.latest, MemoryStore.get?, MemoryStore.put]
    split
    · next heq => rw [← heq, MemoryStore.find?_replace_self]
    · next hne => rw [MemoryStore.find?_replace_of_ne (Ne.symm hne), MemoryStore.get?]

/-- **What is found under a key** is the record that was put last. -/
theorem get_eq (h : Mirrors log s t) (key : RecordKey) : t.get key = .ok (s.get? key) := by
  rw [Table.get, h.rows, Table.find?_map, MemoryStore.get?]
  cases hfound : s.records.find? fun r => r.key == key with
  | none => rfl
  | some r =>
    have hr := h.representable r (List.mem_of_find?_eq_some hfound)
    rw [Option.map_some]
    dsimp only
    rw [hr.toRecord_ofRecord]
    rfl

theorem ofOne (h : Mirrors log s t) (repositoryId functionName : String) :
    Record.OfOne repositoryId functionName
      (s.records.filter (Record.isOf repositoryId functionName)) where
  isOf _ hr := (List.mem_filter.mp hr).2
  distinct := h.distinct.sublist (List.filter_sublist.map _)

/-- **The history of a function** does not depend on the texts of the times, by which the rows are
found in some order that is not theirs. -/
theorem history_eq (h : Mirrors log s t) (repositoryId functionName : String) :
    t.history repositoryId functionName = .ok (s.history repositoryId functionName) := by
  obtain ⟨picked, hselect, hpicked⟩ := Table.exists_select repositoryId functionName s.records
  have hreadable : ∀ r ∈ picked, r.Representable := fun r hr =>
    h.representable r (List.mem_of_mem_filter (hpicked.mem_iff.mp hr))
  have hlisted := (h.ofOne repositoryId functionName).oldestFirst_eq_of_perm hpicked.symm
  have hrows : t = ⟨s.records.map Row.ofRecord⟩ := congrArg Table.mk h.rows
  rw [Table.history, hrows, hselect, Table.mapM_toRecord hreadable, MemoryStore.history, hlisted]
  rfl

theorem isHistory (h : Mirrors log s t) (repositoryId functionName : String) :
    IsHistory log repositoryId functionName (s.history repositoryId functionName) where
  ordered := (h.ofOne repositoryId functionName).pairwise_oldestFirst
  once := (h.ofOne repositoryId functionName).pairwise_oldestFirst.imp Record.Before.ne
  mem_iff r := by
    rw [MemoryStore.history, Record.oldestFirst, (Order.sort_perm _ _).mem_iff, List.mem_filter,
      MemoryStore.mem_iff_find? h.distinct, ← h.latest, MemoryStore.get?, Record.isOf,
      Bool.and_eq_true, beq_iff_eq, beq_iff_eq]

/-- **Every call has the same answer in both stores**, the right one, and leaves the one mirrored
by the other. -/
theorem step (h : Mirrors log s t) {call : StoreCall}
    (hcall : ∀ r, call = .put r → r.Representable) :
    (call.run s).2 = (call.run t).2 ∧ call.Answered log (call.run s).2 ∧
      Mirrors (call.extend log) (call.run s).1 (call.run t).1 := by
  cases call with
  | put r => exact ⟨rfl, rfl, h.put (hcall r rfl)⟩
  | get key =>
    have hsame : Table.reply (t.get key) = .answer (s.get? key) := by
      rw [h.get_eq]
      rfl
    exact ⟨congrArg StoreAnswer.get hsame.symm, congrArg Reply.answer (h.latest key), h⟩
  | history repositoryId functionName =>
    have hsame : Table.reply (t.history repositoryId functionName) =
        .answer (s.history repositoryId functionName) := by
      rw [h.history_eq]
      rfl
    exact ⟨congrArg StoreAnswer.history hsame.symm,
      ⟨_, rfl, h.isHistory repositoryId functionName⟩, h⟩

/-- All calls have the same answers, and the right ones. -/
theorem answers_eq (h : Mirrors log s t) {calls : List StoreCall}
    (hcalls : ∀ r, .put r ∈ calls → r.Representable) :
    StoreCall.answers s calls = StoreCall.answers t calls ∧
      StoreCall.AllAnswered log calls (StoreCall.answers s calls) := by
  induction calls generalizing log s t with
  | nil => exact ⟨rfl, trivial⟩
  | cons call calls ih =>
    obtain ⟨hsame, hright, hnext⟩ := h.step fun r hr => hcalls r (hr ▸ List.mem_cons_self)
    obtain ⟨hrest, hright'⟩ := ih hnext fun r hr => hcalls r (List.mem_cons_of_mem _ hr)
    exact ⟨by rw [StoreCall.answers, StoreCall.answers, hsame, hrest], hright, hright'⟩

end Mirrors

/-- **The stores agree.** Whatever is called with records that can be kept, a new store in memory
and a new table give the same answers, and the right ones. -/
theorem answers_agree {calls : List StoreCall} (h : ∀ r, .put r ∈ calls → r.Representable) :
    StoreCall.answers MemoryStore.empty calls = StoreCall.answers Table.empty calls ∧
      StoreCall.AllAnswered [] calls (StoreCall.answers MemoryStore.empty calls) ∧
      StoreCall.AllAnswered [] calls (StoreCall.answers Table.empty calls) := by
  obtain ⟨hsame, hright⟩ := Mirrors.empty.answers_eq h
  exact ⟨hsame, hright, hsame ▸ hright⟩

/-- Calls in which a record is put, read and replaced, and its function asked for. -/
def replacingCalls : List StoreCall :=
  [.put (.leapRecord 0.1), .get (Record.leapRecord 0.1).key, .put (.leapRecord 2),
    .history "repo" "f"]

theorem answers_agree_replacingCalls :
    (∀ r, .put r ∈ replacingCalls → r.Representable) ∧
      StoreCall.answers MemoryStore.empty replacingCalls =
        StoreCall.answers Table.empty replacingCalls ∧
      StoreCall.AllAnswered [] replacingCalls (StoreCall.answers MemoryStore.empty replacingCalls) ∧
      StoreCall.AllAnswered [] replacingCalls (StoreCall.answers Table.empty replacingCalls) := by
  have htenth := Record.leapRecord_representable (show (0.1 : Float).isFinite by decide)
  have htwo := Record.leapRecord_representable (show (2 : Float).isFinite by decide)
  have hcalls : ∀ r, .put r ∈ replacingCalls → r.Representable := by
    intro r hr
    simp only [replacingCalls, List.mem_cons, StoreCall.put.injEq, reduceCtorEq, List.not_mem_nil,
      or_false, false_or] at hr
    rcases hr with rfl | rfl
    · exact htenth
    · exact htwo
  exact ⟨hcalls, answers_agree hcalls⟩

end Dossier
