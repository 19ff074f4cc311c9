import Dossier.Order.Sorting

/-!
# Tables of names

A table holds names under keys. The keys are in increasing order and so are the names under
each of them; a key is there as soon as one name is entered under it, and so no key is without
names. All of this is part of the type: a table that is out of order cannot be made.
-/

namespace Dossier.Order

section Assign

variable {ν : Type}

/-- A value put under a key, in the place of the one that is there. -/
def assign (key : String) (value : ν) : List (String × ν) → List (String × ν)
  | [] => [(key, value)]
  | (k, v) :: rest =>
    if key < k then (key, value) :: (k, v) :: rest
    else if key = k then (key, value) :: rest
    else (k, v) :: assign key value rest

variable {key k : String} {value : ν} {entries : List (String × ν)} {e : String × ν}

theorem mem_of_mem_assign (h : e ∈ assign key value entries) : e = (key, value) ∨ e ∈ entries := by
  induction entries with
  | nil => exact Or.inl (List.mem_singleton.mp h)
  | cons entry rest ih =>
    rw [assign] at h
    split at h
    · exact List.mem_cons.mp h
    · split at h
      · exact (List.mem_cons.mp h).imp_right (List.mem_cons_of_mem entry)
      · rcases List.mem_cons.mp h with rfl | h
        · exact Or.inr List.mem_cons_self
        · exact (ih h).imp_right (List.mem_cons_of_mem entry)

theorem lookup_cons_eq :
    (e :: entries).lookup k = if k = e.1 then some e.2 else entries.lookup k := by
  rw [List.lookup_cons]
  by_cases h : k = e.1
  · rw [if_pos h, beq_iff_eq.mpr h]
  · rw [if_neg h, beq_eq_false_iff_ne.mpr h]

/-- What is looked up is the value that was put there last. -/
theorem lookup_assign :
    (assign key value entries).lookup k = if k = key then some value else entries.lookup k := by
  induction entries with
  | nil => exact lookup_cons_eq
  | cons entry rest ih =>
    rw [assign]
    split
    · exact lookup_cons_eq
    · split
      · next heq => rw [lookup_cons_eq, lookup_cons_eq, heq]; split <;> rfl
      · next hne =>
        rw [lookup_cons_eq, ih, lookup_cons_eq]
        by_cases h : k = key
        · subst h
          rw [if_neg hne, if_pos rfl, if_pos rfl]
        · rw [if_neg h, if_neg h]

/-- The keys stay in increasing order. -/
theorem pairwise_assign (h : entries.Pairwise fun a b => a.1 < b.1) :
    (assign key value entries).Pairwise fun a b => a.1 < b.1 := by
  induction entries with
  | nil => exact List.pairwise_singleton _ _
  | cons entry rest ih =>
    obtain ⟨hfirst, hrest⟩ := List.pairwise_cons.mp h
    rw [assign]
    split
    · next hlt =>
      refine List.pairwise_cons.mpr ⟨fun e he => ?_, h⟩
      rcases List.mem_cons.mp he with rfl | he
      · exact hlt
      · exact String.lt_trans hlt (hfirst e he)
    · next hnot =>
      split
      · next heq => exact List.pairwise_cons.mpr ⟨fun e he => heq ▸ hfirst e he, hrest⟩
      · next hne =>
        refine List.pairwise_cons.mpr ⟨fun e he => ?_, ih hrest⟩
        rcases mem_of_mem_assign he with rfl | he
        · exact string_lt_of_not_lt _ _ hnot hne
        · exact hfirst e he

end Assign

/-- **A table of names**: under each of its keys some names. -/
structure Table where
  entries : List (String × List String)
  /-- The keys are in order. -/
  keys : entries.Pairwise fun a b => a.1 < b.1
  /-- The names under each key are in order. -/
  names : ∀ e ∈ entries, e.2.Pairwise (· < ·)
  /-- There are names under each key. -/
  inhabited : ∀ e ∈ entries, e.2 ≠ []
deriving DecidableEq, Repr

namespace Table

/-- The table without keys. -/
def empty : Table :=
  ⟨[], .nil, fun _ h => absurd h List.not_mem_nil, fun _ h => absurd h List.not_mem_nil⟩

instance instInhabited : Inhabited Table :=
  ⟨empty⟩

/-- The names under a key, in increasing order; none if the key is not there. -/
def under (t : Table) (key : String) : List String :=
  (t.entries.lookup key).getD []

/-- The names under a key are those of its entry. -/
theorem under_eq_nil_or_mem (t : Table) (key : String) :
    t.under key = [] ∨ (key, t.under key) ∈ t.entries := by
  rw [under]
  rcases h : t.entries.lookup key with _ | found
  · exact Or.inl rfl
  · obtain ⟨before, after, heq, -⟩ := List.lookup_eq_some_iff.mp h
    rw [heq]
    exact Or.inr (List.mem_append_right before List.mem_cons_self)

theorem pairwise_under (t : Table) (key : String) : (t.under key).Pairwise (· < ·) := by
  rcases t.under_eq_nil_or_mem key with h | h
  · rw [h]
    exact .nil
  · exact t.names _ h

/-- **The table with one more name under a key.** -/
def enter (t : Table) (key name : String) : Table where
  entries := assign key (insertDistinct name (t.under key)) t.entries
  keys := pairwise_assign t.keys
  names := by
    intro e he
    rcases mem_of_mem_assign he with rfl | he
    · exact pairwise_insertDistinct_string (t.pairwise_under key) name
    · exact t.names e he
  inhabited := by
    intro e he
    rcases mem_of_mem_assign he with rfl | he
    · exact List.ne_nil_of_mem (mem_insertDistinct.mpr (Or.inl rfl))
    · exact t.inhabited e he

/-- The number of names in a table, those under different keys counted each. -/
def size (t : Table) : Nat :=
  t.entries.foldl (fun n e => n + e.2.length) 0

variable {t : Table} {key name k other : String}

/-- A name that is entered comes to those under its key, and nothing else changes. -/
theorem mem_under_enter :
    other ∈ (t.enter key name).under k ↔ (k = key ∧ other = name) ∨ other ∈ t.under k := by
  have hlookup : (t.enter key name).under k =
      if k = key then insertDistinct name (t.under key) else t.under k := by
    rw [under, enter, lookup_assign]
    split <;> rfl
  rw [hlookup]
  split
  · next h => rw [mem_insertDistinct, h]; simp
  · next h => simp [h]

end Table

end Dossier.Order
