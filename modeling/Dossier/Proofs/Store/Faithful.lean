import Dossier.Store.Memory
import Dossier.Store.Rows
import Mathlib.Logic.Basic

/-!
# Stores that keep what they are given

A store of records is *faithful* to a view `held` of its content when that view is all that
can ever be read from it, and when putting a record changes the view under the key of the
record and nowhere else. A faithful store may be out of order: it may fail to read or to
write, a write that fails may have taken place or not, and a read that does not return says
nothing. What it cannot do is to answer with a record that was never put.

The stores that there are do not go so far. One keeps records in memory and never fails, the other
keeps a table in a database, and what fails there has not taken place
(`Dossier.KeepsRecords.put_of_failure`).
-/

namespace Dossier

variable {σ : Type}

/-- **A store that keeps what it is given**, where `held` is what is in it. -/
structure Faithful (i : RecordStore σ) (held : σ → RecordKey → Option Record) : Prop where
  /-- What is read is what is there. -/
  get_eq : ∀ {s key found}, i.get s key = .answer found → found = held s key
  put_other : ∀ s r key, key ≠ r.key → held (i.put s r).1 key = held s key
  /-- A write takes place or it does not. -/
  put_key : ∀ s r, held (i.put s r).1 r.key = held s r.key ∨ held (i.put s r).1 r.key = some r
  /-- A write that is acknowledged has taken place. -/
  put_acknowledged : ∀ {s r}, (i.put s r).2 = .answer () → held (i.put s r).1 r.key = some r

/-- A record that is in a store after a write was there before, or it is the one that was
written. -/
theorem Faithful.held_put {i : RecordStore σ} {held : σ → RecordKey → Option Record}
    (hf : Faithful i held) {s : σ} {new r : Record} {key : RecordKey}
    (h : held (i.put s new).1 key = some r) :
    held s key = some r ∨ (r = new ∧ key = new.key) := by
  rcases eq_or_ne key new.key with rfl | hne
  · rcases hf.put_key s new with hk | hk
    · exact Or.inl (hk ▸ h)
    · rw [hk] at h
      exact Or.inr ⟨(Option.some.inj h).symm, rfl⟩
  · rw [hf.put_other s new key hne] at h
    exact Or.inl h

/-! ### Records in memory -/

namespace MemoryStore

/-- The record that was put last is under its key. -/
theorem find?_replace_self (r : Record) (rs : List Record) :
    (replace r rs).find? (fun x => x.key == r.key) = some r := by
  induction rs with
  | nil => simp [replace]
  | cons x rs ih =>
    rw [replace]
    split
    · simp
    · next hne => rw [List.find?_cons_of_neg (by simpa using hne), ih]

/-- Under every other key there is what there was. -/
theorem find?_replace_of_ne {r : Record} {key : RecordKey} (hne : key ≠ r.key)
    (rs : List Record) :
    (replace r rs).find? (fun x => x.key == key) = rs.find? fun x => x.key == key := by
  induction rs with
  | nil => simp [replace, hne.symm]
  | cons x rs ih =>
    rw [replace]
    split
    · next hx =>
      have hx' : x.key ≠ key := fun h => hne (h.symm.trans hx)
      rw [List.find?_cons_of_neg (by simpa using hne.symm),
        List.find?_cons_of_neg (by simpa using hx')]
    · rw [List.find?_cons, List.find?_cons, ih]

/-- **Records in memory are kept**, and can always be read. -/
theorem faithful : Faithful instRecordStore get? where
  get_eq h := (Reply.answer.inj h).symm
  put_other s _ _ hne := find?_replace_of_ne hne s.records
  put_key s r := Or.inr (find?_replace_self r s.records)
  put_acknowledged {s _} _ := find?_replace_self _ s.records

end MemoryStore

/-! ### The stores that there are -/

/-- **The stores of records**, and what is in them: one in memory, and tables whose calls may come
to nothing in any way. -/
inductive KeepsRecords : {σ : Type} → RecordStore σ → (σ → RecordKey → Option Record) → Prop
  | memory : KeepsRecords MemoryStore.instRecordStore MemoryStore.get?
  | table (troubles : Troubles) : KeepsRecords (Table.troubled troubles) Table.get?

/-- **A write that fails leaves no trace** in any of these stores. -/
theorem KeepsRecords.put_of_failure {i : RecordStore σ} {held : σ → RecordKey → Option Record}
    (h : KeepsRecords i held) {s : σ} {r : Record} {e : StoreError}
    (he : (i.put s r).2 = .failure e) : (i.put s r).1 = s := by
  cases h with
  | memory => cases he
  | table troubles =>
    rw [Table.put_troubled] at he ⊢
    generalize troubles.put s r = trouble at he ⊢
    cases trouble with
    | none => cases he
    | some => rfl

end Dossier
