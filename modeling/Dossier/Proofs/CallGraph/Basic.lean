import Dossier.CallGraph.Basic
import Dossier.Proofs.Order.Increasing

/-!
# Call graphs that are in order

A call graph has its nodes in increasing order, keeps every call both under its caller and under
its callee, and has no call without its ends (`Dossier.CallGraph.WellFormed`). The empty graph is
such a graph, and so is every graph with one more function or one more call. Two such graphs with
the same nodes and calls are equal, although each call is kept twice.
-/

namespace Dossier

namespace CallEdge

theorem lt_iff {a b : CallEdge} :
    a < b ↔ a.caller < b.caller ∨ (a.caller = b.caller ∧ a.callee < b.callee) :=
  Iff.rfl

protected theorem lt_trans (a b c : CallEdge) (hab : a < b) (hbc : b < c) : a < c := by
  rw [lt_iff] at *
  rcases hab with h | ⟨h, hh⟩ <;> rcases hbc with h' | ⟨h', hh'⟩
  · exact Or.inl (String.lt_trans h h')
  · exact Or.inl (h' ▸ h)
  · exact Or.inl (h ▸ h')
  · exact Or.inr ⟨h.trans h', String.lt_trans hh hh'⟩

protected theorem lt_irrefl (a : CallEdge) : ¬a < a := by
  rw [lt_iff]
  rintro (h | ⟨-, h⟩)
  · exact String.lt_irrefl _ h
  · exact String.lt_irrefl _ h

instance instIrrefl : Std.Irrefl ((· < ·) : CallEdge → CallEdge → Prop) :=
  ⟨CallEdge.lt_irrefl⟩

/-- **Calls that are listed caller by caller are in order**, if the callers are in order and so
are the callees of each. -/
theorem pairwise_flatMap_mk {α : Type} {as : List α} {caller : α → String}
    {callees : α → List String} (hcaller : as.Pairwise fun a b => caller a < caller b)
    (hcallees : ∀ a ∈ as, (callees a).Pairwise (· < ·)) :
    (as.flatMap fun a => (callees a).map (CallEdge.mk (caller a))).Pairwise (· < ·) := by
  refine List.pairwise_flatMap.mpr ⟨fun a ha => ?_, hcaller.imp fun {a b} hlt e he e' he' => ?_⟩
  · refine List.pairwise_map.mpr ((hcallees a ha).imp fun hlt => ?_)
    exact Or.inr ⟨rfl, hlt⟩
  · obtain ⟨callee, -, rfl⟩ := List.mem_map.mp he
    obtain ⟨callee', -, rfl⟩ := List.mem_map.mp he'
    exact Or.inl hlt

end CallEdge

namespace CallGraph

variable {g g' : CallGraph} {id other : String} {e : CallEdge}

theorem contains_iff : g.contains id ↔ id ∈ g.nodes :=
  List.contains_iff_mem

/-! ### The calls of a graph -/

theorem mem_downstream : other ∈ g.downstream id ↔ ⟨id, other⟩ ∈ g.edges := by
  rw [downstream, edges, List.mem_flatMap]
  constructor
  · intro h
    rcases g.forward.under_eq_nil_or_mem id with hnil | hentry
    · rw [hnil] at h
      exact absurd h List.not_mem_nil
    · exact ⟨_, hentry, List.mem_map_of_mem h⟩
  · rintro ⟨⟨caller, callees⟩, hentry, hedge⟩
    obtain ⟨callee, hcallee, heq⟩ := List.mem_map.mp hedge
    cases heq
    rwa [Order.Table.under_of_mem hentry]

theorem mem_edges : e ∈ g.edges ↔ e.callee ∈ g.downstream e.caller :=
  mem_downstream.symm

/-- The calls of a graph are in increasing order. -/
theorem pairwise_edges (g : CallGraph) : g.edges.Pairwise (· < ·) :=
  CallEdge.pairwise_flatMap_mk g.forward.keys g.forward.names

/-- The callers of a function are in increasing order. -/
theorem pairwise_upstream (g : CallGraph) (id : String) : (g.upstream id).Pairwise (· < ·) :=
  g.reverse.pairwise_under id

/-- The functions that a function calls are in increasing order. -/
theorem pairwise_downstream (g : CallGraph) (id : String) : (g.downstream id).Pairwise (· < ·) :=
  g.forward.pairwise_under id

/-- Each call is counted once. -/
theorem edgeCount_eq (g : CallGraph) : g.edgeCount = g.edges.length := by
  have hcount : ∀ (entries : List (String × List String)) (n : Nat),
      entries.foldl (fun n e => n + e.2.length) n =
        n + (entries.flatMap fun entry => entry.2.map (CallEdge.mk entry.1)).length := by
    intro entries
    induction entries with
    | nil => exact fun _ => rfl
    | cons entry rest ih =>
      intro n
      rw [List.foldl_cons, ih, List.flatMap_cons, List.length_append, List.length_map,
        Nat.add_assoc]
  exact (hcount g.forward.entries 0).trans (Nat.zero_add _)

/-! ### Graphs in order -/

/-- **Whether a call graph is in order**: its nodes are increasing, a call that is kept under its
caller is kept under its callee and the other way round, and the ends of every call are nodes. -/
structure WellFormed (g : CallGraph) : Prop where
  nodes : g.nodes.Pairwise (· < ·)
  mirrored : ∀ caller callee, callee ∈ g.downstream caller ↔ caller ∈ g.upstream callee
  caller_mem : ∀ e ∈ g.edges, e.caller ∈ g.nodes
  callee_mem : ∀ e ∈ g.edges, e.callee ∈ g.nodes

theorem WellFormed.mem_upstream (h : g.WellFormed) :
    other ∈ g.upstream id ↔ ⟨other, id⟩ ∈ g.edges :=
  (h.mirrored other id).symm.trans mem_downstream

/-- A function that is no node has no neighbours. -/
theorem WellFormed.mem_nodes_of_edge (h : g.WellFormed)
    (he : other ∈ g.upstream id ∨ other ∈ g.downstream id) : id ∈ g.nodes := by
  rcases he with he | he
  · exact h.callee_mem _ (h.mem_upstream.mp he)
  · exact h.caller_mem _ (mem_downstream.mp he)

/-- **Graphs in order are equal** when they have the same nodes and calls. -/
theorem WellFormed.ext (h : g.WellFormed) (h' : g'.WellFormed)
    (hnodes : ∀ id, id ∈ g.nodes ↔ id ∈ g'.nodes) (hedges : ∀ e, e ∈ g.edges ↔ e ∈ g'.edges) :
    g = g' := by
  have hnodes : g.nodes = g'.nodes := Order.strings_eq_of_mem_iff h.nodes h'.nodes hnodes
  have hforward : g.forward = g'.forward := Order.Table.ext_under fun caller callee =>
    mem_downstream.trans ((hedges ⟨caller, callee⟩).trans mem_downstream.symm)
  have hreverse : g.reverse = g'.reverse := Order.Table.ext_under fun callee caller =>
    h.mem_upstream.trans ((hedges ⟨caller, callee⟩).trans h'.mem_upstream.symm)
  cases g
  cases g'
  cases hnodes
  cases hforward
  cases hreverse
  rfl

theorem wellFormed_empty : empty.WellFormed where
  nodes := .nil
  mirrored _ _ := iff_of_false List.not_mem_nil List.not_mem_nil
  caller_mem _ h := absurd h List.not_mem_nil
  callee_mem _ h := absurd h List.not_mem_nil

/-! ### One more function -/

@[simp]
theorem mem_nodes_addNode : other ∈ (g.addNode id).nodes ↔ other = id ∨ other ∈ g.nodes :=
  Order.mem_insertDistinct

@[simp]
theorem edges_addNode : (g.addNode id).edges = g.edges :=
  rfl

theorem WellFormed.addNode (h : g.WellFormed) (id : String) : (g.addNode id).WellFormed where
  nodes := Order.pairwise_insertDistinct_string h.nodes id
  mirrored := h.mirrored
  caller_mem e he := mem_nodes_addNode.mpr (Or.inr (h.caller_mem e he))
  callee_mem e he := mem_nodes_addNode.mpr (Or.inr (h.callee_mem e he))

/-! ### One more call -/

@[simp]
theorem mem_nodes_addEdge :
    id ∈ (g.addEdge e).nodes ↔ id = e.callee ∨ id = e.caller ∨ id ∈ g.nodes := by
  rw [addEdge, Order.mem_insertDistinct, Order.mem_insertDistinct]

theorem mem_downstream_addEdge :
    other ∈ (g.addEdge e).downstream id ↔
      (id = e.caller ∧ other = e.callee) ∨ other ∈ g.downstream id :=
  Order.Table.mem_under_enter

theorem mem_upstream_addEdge :
    other ∈ (g.addEdge e).upstream id ↔
      (id = e.callee ∧ other = e.caller) ∨ other ∈ g.upstream id :=
  Order.Table.mem_under_enter

@[simp]
theorem mem_edges_addEdge {e' : CallEdge} : e' ∈ (g.addEdge e).edges ↔ e' = e ∨ e' ∈ g.edges := by
  rw [mem_edges, mem_downstream_addEdge, mem_edges, CallEdge.ext_iff]

theorem WellFormed.addEdge (h : g.WellFormed) (e : CallEdge) : (g.addEdge e).WellFormed where
  nodes := Order.pairwise_insertDistinct_string
    (Order.pairwise_insertDistinct_string h.nodes e.caller) e.callee
  mirrored caller callee := by
    rw [mem_downstream_addEdge, mem_upstream_addEdge, h.mirrored, and_comm]
  caller_mem e' he' := by
    rcases mem_edges_addEdge.mp he' with rfl | he'
    · exact mem_nodes_addEdge.mpr (Or.inr (Or.inl rfl))
    · exact mem_nodes_addEdge.mpr (Or.inr (Or.inr (h.caller_mem e' he')))
  callee_mem e' he' := by
    rcases mem_edges_addEdge.mp he' with rfl | he'
    · exact mem_nodes_addEdge.mpr (Or.inl rfl)
    · exact mem_nodes_addEdge.mpr (Or.inr (Or.inr (h.callee_mem e' he')))

end CallGraph

end Dossier
