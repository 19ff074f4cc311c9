import Dossier.Order.Table
import Mathlib.Data.List.Sort

/-!
# What is in order is known by its members

What is kept in increasing order does not remember how it came about: two increasing lists with
the same members are equal, and so are two tables with the same names under each key
(`Dossier.Order.Table.ext_under`).
-/

namespace Dossier.Order

section Lists

variable {α : Type} [LT α]

/-- **Increasing lists with the same members are equal.** -/
theorem eq_of_mem_iff (irrefl : ∀ a : α, ¬a < a) (trans : ∀ a b c : α, a < b → b < c → a < c)
    {as bs : List α} (ha : as.Pairwise (· < ·)) (hb : bs.Pairwise (· < ·))
    (h : ∀ a, a ∈ as ↔ a ∈ bs) : as = bs := by
  have : Std.Irrefl ((· < ·) : α → α → Prop) := ⟨irrefl⟩
  have : Std.Antisymm ((· < ·) : α → α → Prop) :=
    ⟨fun a b hab hba => absurd (trans a b a hab hba) (irrefl a)⟩
  exact ha.eq_of_mem_iff hb h

/-- Increasing lists of names with the same members are equal. -/
theorem strings_eq_of_mem_iff {as bs : List String} (ha : as.Pairwise (· < ·))
    (hb : bs.Pairwise (· < ·)) (h : ∀ a, a ∈ as ↔ a ∈ bs) : as = bs :=
  eq_of_mem_iff String.lt_irrefl (fun _ _ _ => String.lt_trans) ha hb h

/-- Where no key is there twice, what is looked up is what stands there. -/
theorem lookup_of_mem {ν : Type} {entries : List (String × ν)} {key : String} {value : ν}
    (hkeys : (entries.map Prod.fst).Nodup) (h : (key, value) ∈ entries) :
    entries.lookup key = some value := by
  obtain ⟨before, after, heq⟩ := List.append_of_mem h
  refine List.lookup_eq_some_iff.mpr ⟨before, after, heq, fun e he => bne_iff_ne.mpr fun hkey => ?_⟩
  rw [heq, List.map_append, List.nodup_append] at hkeys
  exact hkeys.2.2 e.1 (List.mem_map_of_mem he) key List.mem_cons_self hkey.symm

end Lists

namespace Table

variable {t t' : Table} {key name : String} {names : List String}

/-- No other entry stands in the way of the entry of a key. -/
theorem under_of_mem (h : (key, names) ∈ t.entries) : t.under key = names := by
  have hkeys : (t.entries.map Prod.fst).Nodup :=
    (List.pairwise_map.mpr t.keys : (t.entries.map Prod.fst).Pairwise (· < ·)).nodup
  rw [under, lookup_of_mem hkeys h]
  rfl

/-- The entries of a table are its keys with the names under them. -/
theorem mem_entries_iff : (key, names) ∈ t.entries ↔ t.under key = names ∧ names ≠ [] := by
  constructor
  · exact fun h => ⟨under_of_mem h, t.inhabited _ h⟩
  · rintro ⟨rfl, hne⟩
    exact (t.under_eq_nil_or_mem key).resolve_left hne

/-- **Tables with the same names under each key are equal.** -/
theorem ext_under (h : ∀ key name, name ∈ t.under key ↔ name ∈ t'.under key) : t = t' := by
  have hunder : ∀ key, t.under key = t'.under key := fun key =>
    strings_eq_of_mem_iff (t.pairwise_under key) (t'.pairwise_under key) (h key)
  have hirrefl : Std.Irrefl fun a b : String × List String => a.1 < b.1 :=
    ⟨fun a => String.lt_irrefl a.1⟩
  have hantisymm : Std.Antisymm fun a b : String × List String => a.1 < b.1 :=
    ⟨fun a b hab hba => absurd (String.lt_trans hab hba) (String.lt_irrefl a.1)⟩
  have hentries : t.entries = t'.entries := by
    refine t.keys.eq_of_mem_iff t'.keys fun ⟨key, names⟩ => ?_
    rw [mem_entries_iff, mem_entries_iff, hunder]
  cases t
  cases t'
  cases hentries
  rfl

end Table

end Dossier.Order
