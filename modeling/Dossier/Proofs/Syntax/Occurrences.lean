import Dossier.Syntax.Tree
import Mathlib.Data.List.Basic
import Mathlib.Data.List.Infix
import Mathlib.Logic.Relation

/-!
# Where nodes stand in a tree

Two nodes of a tree can be alike in everything, so what is said about a node *in* a tree is said
about one of its occurrences: the node with the nodes above it, and for each of them the number of
the child that leads on. The numbers alone are the address of the occurrence.

`Dossier.Tree.occurrences` lists the occurrences of a tree in the order of the text. They are those
that are reached by steps from a node to one of its children
(`Dossier.Tree.mem_occurrences_iff`), and no two of them have the same address
(`Dossier.Tree.nodup_addresses`). What holds of the children with each node
(`Dossier.Tree.Every`) holds of all of them.
-/

namespace Dossier

/-- **A node in a tree.** -/
structure Occurrence (κ : Type) where
  /-- The nodes above with the number of the child that leads on, the innermost one first. -/
  above : List (Tree κ × Nat)
  node : Tree κ

namespace Occurrence

variable {κ : Type}

/-- The numbers of the children that lead to the node, the last one first. -/
def address (o : Occurrence κ) : List Nat :=
  o.above.map Prod.snd

/-- The children of a node. -/
inductive Step : Occurrence κ → Occurrence κ → Prop
  | child {above : List (Tree κ × Nat)} {t c : Tree κ} {i : Nat} :
      t.children[i]? = some c → Step ⟨above, t⟩ ⟨(t, i) :: above, c⟩

end Occurrence

namespace Tree

variable {κ : Type}

mutual

/-- **The nodes of a tree** that stands below the given nodes, in the order of the text. -/
def occurrences (above : List (Tree κ × Nat)) : Tree κ → List (Occurrence κ)
  | .node k r a b ts =>
    ⟨above, .node k r a b ts⟩ :: occurrencesAmong above (.node k r a b ts) 0 ts

/-- The nodes of the children of `parent` from the `i`-th one on. -/
def occurrencesAmong (above : List (Tree κ × Nat)) (parent : Tree κ) (i : Nat) :
    List (Tree κ) → List (Occurrence κ)
  | [] => []
  | t :: ts => occurrences ((parent, i) :: above) t ++ occurrencesAmong above parent (i + 1) ts

end

variable {above : List (Tree κ × Nat)} {parent t : Tree κ} {ts : List (Tree κ)} {i : Nat}
  {o o' : Occurrence κ}

theorem occurrences_eq (above : List (Tree κ × Nat)) (t : Tree κ) :
    t.occurrences above = ⟨above, t⟩ :: occurrencesAmong above t 0 t.children := by
  cases t
  rfl

/-! ### The ways to the nodes -/

mutual

/-- The nodes of a tree stand below those that the tree stands below. -/
theorem suffix_of_mem_occurrences : ∀ (t : Tree κ) {above : List (Tree κ × Nat)},
    o ∈ t.occurrences above → above <:+ o.above
  | .node k r a b ts, above, h => by
    rcases List.mem_cons.mp h with rfl | h
    · exact List.suffix_refl above
    · obtain ⟨j, -, hj⟩ := suffix_of_mem_occurrencesAmong ts h
      exact (List.suffix_cons _ _).trans hj

/-- The nodes of children stand below the child that they belong to. -/
theorem suffix_of_mem_occurrencesAmong : ∀ (ts : List (Tree κ)) {above : List (Tree κ × Nat)}
    {parent : Tree κ} {i : Nat}, o ∈ occurrencesAmong above parent i ts →
      ∃ j, i ≤ j ∧ (parent, j) :: above <:+ o.above
  | [], _, _, _, h => absurd h List.not_mem_nil
  | t :: ts, above, parent, i, h => by
    rcases List.mem_append.mp h with h | h
    · exact ⟨i, le_rfl, suffix_of_mem_occurrences t h⟩
    · obtain ⟨j, hij, hj⟩ := suffix_of_mem_occurrencesAmong ts h
      exact ⟨j, by omega, hj⟩

end

/-- The nodes below a tree have longer addresses than the tree. -/
theorem length_lt_of_mem_occurrencesAmong (h : o ∈ occurrencesAmong above parent i ts) :
    above.length < o.above.length := by
  obtain ⟨j, -, hj⟩ := suffix_of_mem_occurrencesAmong ts h
  exact hj.length_le

/-- Two suffixes of one address that are equally long are equal. -/
theorem number_eq_of_suffix {i j : Nat} {way address : List Nat} (hi : i :: way <:+ address)
    (hj : j :: way <:+ address) : i = j := by
  have hsuffix : i :: way <:+ j :: way := List.suffix_of_suffix_length_le hi hj (by simp)
  exact (List.cons.inj (hsuffix.eq_of_length (by simp))).1

/-- Nothing stands both below a child and below a later one. -/
theorem not_below_both (h : o ∈ t.occurrences ((parent, i) :: above))
    (h' : o' ∈ occurrencesAmong above parent (i + 1) ts) {address : List Nat}
    (ho : o.address <:+ address) : ¬o'.address <:+ address := by
  intro ho'
  have hi : i :: above.map Prod.snd <:+ address :=
    ((suffix_of_mem_occurrences t h).map Prod.snd).trans ho
  obtain ⟨j, hij, hj⟩ := suffix_of_mem_occurrencesAmong ts h'
  have hj : j :: above.map Prod.snd <:+ address := (hj.map Prod.snd).trans ho'
  have := number_eq_of_suffix hi hj
  omega

mutual

theorem nodup_addresses_from : ∀ (t : Tree κ) (above : List (Tree κ × Nat)),
    ((t.occurrences above).map Occurrence.address).Nodup
  | .node k r a b ts, above => by
    refine List.nodup_cons.mpr ⟨?_, nodup_addresses_among ts above (.node k r a b ts) 0⟩
    intro hmem
    obtain ⟨o, ho, heq⟩ := List.mem_map.mp hmem
    have hlt := length_lt_of_mem_occurrencesAmong ho
    have hlength := congrArg List.length heq
    simp only [Occurrence.address, List.length_map] at hlength
    omega

theorem nodup_addresses_among : ∀ (ts : List (Tree κ)) (above : List (Tree κ × Nat))
    (parent : Tree κ) (i : Nat),
      ((occurrencesAmong above parent i ts).map Occurrence.address).Nodup
  | [], _, _, _ => List.nodup_nil
  | t :: ts, above, parent, i => by
    rw [occurrencesAmong, List.map_append]
    refine List.nodup_append.mpr
      ⟨nodup_addresses_from t _, nodup_addresses_among ts above parent (i + 1), ?_⟩
    rintro address h _ h' rfl
    obtain ⟨o, ho, rfl⟩ := List.mem_map.mp h
    obtain ⟨o', ho', heq⟩ := List.mem_map.mp h'
    exact not_below_both ho ho' (List.suffix_refl _) (heq ▸ List.suffix_refl _)

end

/-- **No two nodes of a tree have the same address.** -/
theorem nodup_addresses (t : Tree κ) : ((t.occurrences []).map Occurrence.address).Nodup :=
  nodup_addresses_from t []

/-! ### Steps from node to node -/

theorem mem_occurrencesAmong_iff :
    o ∈ occurrencesAmong above parent i ts ↔
      ∃ j, ∃ c : Tree κ, ts[j]? = some c ∧ o ∈ c.occurrences ((parent, i + j) :: above) := by
  induction ts generalizing i with
  | nil => simp [occurrencesAmong]
  | cons t ts ih =>
    rw [occurrencesAmong, List.mem_append, ih]
    constructor
    · rintro (h | ⟨j, c, hc, h⟩)
      · exact ⟨0, t, rfl, h⟩
      · exact ⟨j + 1, c, hc, by rwa [show i + (j + 1) = i + 1 + j by omega]⟩
    · rintro ⟨_ | j, c, hc, h⟩
      · obtain rfl := Option.some.inj hc
        exact Or.inl h
      · exact Or.inr ⟨j, c, hc, by rwa [show i + 1 + j = i + (j + 1) by omega]⟩

/-- A node of a tree is the tree itself or a node of one of its children. -/
theorem mem_occurrences :
    o ∈ t.occurrences above ↔
      o = ⟨above, t⟩ ∨
        ∃ j, ∃ c : Tree κ, t.children[j]? = some c ∧ o ∈ c.occurrences ((t, j) :: above) := by
  rw [occurrences_eq, List.mem_cons, mem_occurrencesAmong_iff]
  simp only [Nat.zero_add]

theorem steps_of_mem (t : Tree κ) {above : List (Tree κ × Nat)} (h : o ∈ t.occurrences above) :
    Relation.ReflTransGen Occurrence.Step ⟨above, t⟩ o := by
  rcases mem_occurrences.mp h with rfl | ⟨j, c, hc, h⟩
  · exact .refl
  · exact .head (.child hc) (steps_of_mem c h)
termination_by sizeOf t
decreasing_by
  have hlt := List.sizeOf_lt_of_mem (List.mem_of_getElem? hc)
  cases t
  simp only [children] at hlt
  simp only [node.sizeOf_spec]
  omega

/-- **The nodes of a tree** are those that steps from node to child lead to. -/
theorem mem_occurrences_iff :
    o ∈ t.occurrences above ↔ Relation.ReflTransGen Occurrence.Step ⟨above, t⟩ o := by
  suffices hmem : ∀ p q : Occurrence κ, Relation.ReflTransGen Occurrence.Step p q →
      q ∈ p.node.occurrences p.above from ⟨steps_of_mem t, hmem _ _⟩
  intro p q h
  induction h using Relation.ReflTransGen.head_induction_on with
  | refl => exact mem_occurrences.mpr (Or.inl rfl)
  | head hstep _ ih =>
    obtain ⟨hc⟩ := hstep
    exact mem_occurrences.mpr (Or.inr ⟨_, _, hc, ih⟩)

/-! ### What holds of all nodes -/

/-- **Whether something holds of all nodes of a tree.** -/
inductive Every (P : Tree κ → Prop) : Tree κ → Prop
  | node {k : κ} {r : Option Role} {a b : Position} {ts : List (Tree κ)} :
      P (.node k r a b ts) → (∀ t ∈ ts, Every P t) → Every P (.node k r a b ts)

namespace Every

variable {P : Tree κ → Prop}

theorem self (h : t.Every P) : P t := by
  obtain ⟨hself, -⟩ := h
  exact hself

theorem children (h : t.Every P) : ∀ c ∈ t.children, c.Every P := by
  obtain ⟨-, hbelow⟩ := h
  exact hbelow

theorem withRole (hP : ∀ t r, P t → P (t.withRole r)) (h : t.Every P) (r : Role) :
    (t.withRole r).Every P := by
  obtain ⟨hself, hbelow⟩ := h
  exact .node (hP _ r hself) hbelow

/-- What holds of all nodes of a tree holds of each of them. -/
theorem of_mem_occurrences (h : t.Every P) (ho : o ∈ t.occurrences above) : P o.node := by
  have hsteps := steps_of_mem t ho
  suffices hevery : o.node.Every P from hevery.self
  clear ho
  induction hsteps with
  | refl => exact h
  | tail _ hstep ih =>
    obtain ⟨hc⟩ := hstep
    exact ih.children _ (List.mem_of_getElem? hc)

end Every

end Tree

end Dossier
