import Dossier.CallGraph.Reach
import Dossier.Proofs.CallGraph.Build
import Mathlib.Algebra.GroupWithZero.Nat
import Mathlib.Data.List.Induction

/-!
# A call graph that is changed

A graph is changed by one more function, by one more call, or by a new graph that is built of
definitions and calls; where none can be built, the old one stays. Whatever changes are made one
after the other, the graph is in order, and its calls are those that have been brought since the
last new graph, or with it (`Dossier.CallGraph.consistent_ofChanges`).
-/

namespace Dossier.CallGraph

/-- A change of a call graph. -/
inductive Change where
  | node (id : String)
  | edge (e : CallEdge)
  | build (sites : List DefinitionSite) (calls : List CallEdge)

/-- The graph after a change. -/
def change (g : CallGraph) : Change → CallGraph
  | .node id => g.addNode id
  | .edge e => g.addEdge e
  | .build sites calls =>
    match build sites calls with
    | .ok built => built
    | .error _ => g

/-- **The graph that changes make**, one after the other, of the empty one. -/
def ofChanges (cs : List Change) : CallGraph :=
  cs.foldl change empty

/-- Whether a graph is made by changes of the empty one. -/
def Arises (g : CallGraph) : Prop :=
  ∃ cs, ofChanges cs = g

namespace Change

/-- Whether a change puts a new graph in the place of the old one. -/
def Renews : Change → Prop
  | node _ => False
  | edge _ => False
  | build sites _ => DefinitionSite.Agree sites

/-- Whether a change brings a call. A new graph brings those between its functions. -/
def Brings (e : CallEdge) : Change → Prop
  | node _ => False
  | edge added => e = added
  | build sites calls =>
    DefinitionSite.Agree sites ∧
      e ∈ calls ∧ (∃ s ∈ sites, s.id = e.caller) ∧ ∃ s ∈ sites, s.id = e.callee

end Change

/-- **Whether a call has been brought** by one of some changes, and no new graph came later. -/
def Brought (cs : List Change) (e : CallEdge) : Prop :=
  ∃ before c after, cs = before ++ c :: after ∧ c.Brings e ∧ ∀ later ∈ after, ¬later.Renews

variable {g : CallGraph} {c : Change} {cs : List Change} {e : CallEdge} {id : String}

/-! ### One change -/

theorem WellFormed.change (h : g.WellFormed) (c : Change) : (g.change c).WellFormed := by
  cases c with
  | node id => exact h.addNode id
  | edge e => exact h.addEdge e
  | build sites calls =>
    rw [CallGraph.change]
    split
    · next built hbuild => exact wellFormed_of_build hbuild
    · exact h

/-- **What a change does to the calls**: those that it brings come, and those of the old graph
stay unless there is a new one. -/
theorem mem_edges_change : e ∈ (g.change c).edges ↔ c.Brings e ∨ e ∈ g.edges ∧ ¬c.Renews := by
  cases c with
  | node id => simp [change, Change.Brings, Change.Renews]
  | edge added => simp [change, Change.Brings, Change.Renews]
  | build sites calls =>
    rw [change]
    rcases hbuild : build sites calls with conflict | built
    · have hdisagree : ¬DefinitionSite.Agree sites := fun h => by
        obtain ⟨built, hbuilt, -⟩ := exists_build h calls
        cases hbuild.symm.trans hbuilt
      simp [Change.Brings, Change.Renews, hdisagree]
    · obtain ⟨hagree, -, hgraph⟩ := of_build hbuild
      simp [Change.Brings, Change.Renews, hagree, hgraph.edges]

/-! ### All changes -/

theorem ofChanges_concat : ofChanges (cs ++ [c]) = (ofChanges cs).change c := by
  rw [ofChanges, List.foldl_append]
  rfl

/-- **Every graph that changes make is in order.** -/
theorem wellFormed_ofChanges (cs : List Change) : (ofChanges cs).WellFormed := by
  induction cs using List.reverseRecOn with
  | nil => exact wellFormed_empty
  | append_singleton cs c ih =>
    rw [ofChanges_concat]
    exact ih.change c

theorem Arises.wellFormed (h : g.Arises) : g.WellFormed := by
  obtain ⟨cs, rfl⟩ := h
  exact wellFormed_ofChanges cs

/-- A call has been brought by the last change, or before it if there is no new graph. -/
theorem brought_concat : Brought (cs ++ [c]) e ↔ c.Brings e ∨ Brought cs e ∧ ¬c.Renews := by
  constructor
  · -- Either the last change brings it, or an earlier one does and the last one makes no new graph.
    rintro ⟨before, c', after, heq, hbrings, hlater⟩
    rcases List.eq_nil_or_concat' after with rfl | ⟨after, last, rfl⟩
    · obtain ⟨-, rfl⟩ := List.append_singleton_inj.mp heq
      exact Or.inl hbrings
    · rw [← List.cons_append, ← List.append_assoc] at heq
      obtain ⟨rfl, rfl⟩ := List.append_singleton_inj.mp heq
      refine Or.inr ⟨⟨before, c', after, rfl, hbrings, fun later h => ?_⟩, ?_⟩
      · exact hlater later (List.mem_append_left _ h)
      · exact hlater c (List.mem_append_right _ List.mem_cons_self)
  · rintro (hbrings | ⟨⟨before, c', after, rfl, hbrings, hlater⟩, hstays⟩)
    · exact ⟨cs, c, [], rfl, hbrings, fun _ h => absurd h List.not_mem_nil⟩
    · refine ⟨before, c', after ++ [c], by simp, hbrings, fun later h => ?_⟩
      rcases List.mem_append.mp h with h | h
      · exact hlater later h
      · rwa [List.mem_singleton.mp h]

/-- The calls of a graph are those that have been brought. -/
theorem mem_edges_ofChanges : e ∈ (ofChanges cs).edges ↔ Brought cs e := by
  induction cs using List.reverseRecOn with
  | nil =>
    refine iff_of_false List.not_mem_nil ?_
    rintro ⟨before, c, after, heq, -⟩
    simp at heq
  | append_singleton cs c ih => rw [ofChanges_concat, mem_edges_change, brought_concat, ih]

/-! ### Counting the calls -/

/-- All calls are counted function by function, if a view shows each of them under one end. Which
end this is, is said by the way the calls are turned. -/
theorem WellFormed.edgeCount_eq_sum (h : g.WellFormed) {view : String → List String}
    {turned : CallEdge → CallEdge} (hturned : Function.Injective turned)
    (hview : ∀ id, (view id).Pairwise (· < ·))
    (hmem : ∀ id other, other ∈ view id ↔ ∃ e ∈ g.edges, turned e = ⟨id, other⟩)
    (hnodes : ∀ e ∈ g.edges, (turned e).caller ∈ g.nodes) :
    g.edgeCount = (g.nodes.map fun id => (view id).length).sum := by
  -- Put together, the lists of all functions are the calls, each once.
  have hlisted : (g.nodes.flatMap fun id => (view id).map (CallEdge.mk id)).Perm
      (g.edges.map turned) := by
    refine (List.perm_ext_iff_of_nodup ?_ (g.pairwise_edges.nodup.map hturned)).mpr fun e => ?_
    · exact (CallEdge.pairwise_flatMap_mk h.nodes fun id _ => hview id).nodup
    · rw [List.mem_flatMap, List.mem_map]
      constructor
      · rintro ⟨id, -, he⟩
        obtain ⟨other, hother, rfl⟩ := List.mem_map.mp he
        exact (hmem id other).mp hother
      · rintro ⟨e, he, rfl⟩
        have hother := (hmem (turned e).caller (turned e).callee).mpr ⟨e, he, rfl⟩
        exact ⟨(turned e).caller, hnodes e he, List.mem_map_of_mem hother⟩
  rw [edgeCount_eq, ← List.length_map, ← hlisted.length_eq, List.length_flatMap]
  simp only [List.length_map]

theorem WellFormed.edgeCount_eq_sum_fanOut (h : g.WellFormed) :
    g.edgeCount = (g.nodes.map g.fanOut).sum := by
  refine h.edgeCount_eq_sum Function.injective_id g.pairwise_downstream (fun id other => ?_)
    h.caller_mem
  rw [mem_downstream]
  exact exists_eq_right.symm

theorem WellFormed.edgeCount_eq_sum_fanIn (h : g.WellFormed) :
    g.edgeCount = (g.nodes.map g.fanIn).sum := by
  have hturned : Function.Injective fun e : CallEdge => CallEdge.mk e.callee e.caller := by
    intro e e' heq
    obtain ⟨hcallee, hcaller⟩ := CallEdge.mk.inj heq
    exact CallEdge.ext hcaller hcallee
  refine h.edgeCount_eq_sum hturned g.pairwise_upstream (fun id other => ?_) h.callee_mem
  rw [h.mem_upstream]
  constructor
  · exact fun he => ⟨_, he, rfl⟩
  · rintro ⟨e, he, heq⟩
    obtain ⟨rfl, rfl⟩ := CallEdge.mk.inj heq
    exact he

/-! ### What is not in the graph -/

/-- Whether every question about a function is answered with nothing. -/
structure Silent (g : CallGraph) (id : String) : Prop where
  contains : g.contains id = false
  upstream : g.upstream id = []
  downstream : g.downstream id = []
  fanIn : g.fanIn id = 0
  fanOut : g.fanOut id = 0
  distances : g.distances id = []
  impact : g.impact id = []
  neighbourhood : g.neighbourhood id = ⟨id, [], []⟩

/-- **A function that is no node has nothing around it.** -/
theorem WellFormed.silent (h : g.WellFormed) (hid : id ∉ g.nodes) : g.Silent id := by
  have hcontains : g.contains id = false := Bool.eq_false_iff.mpr fun h => hid (contains_iff.mp h)
  have hupstream : g.upstream id = [] := List.eq_nil_iff_forall_not_mem.mpr fun other hother =>
    hid (h.mem_nodes_of_edge (Or.inl hother))
  have hdownstream : g.downstream id = [] := List.eq_nil_iff_forall_not_mem.mpr fun other hother =>
    hid (h.mem_nodes_of_edge (Or.inr hother))
  have hdistances : g.distances id = [] := by
    rw [CallGraph.distances, hcontains]
    rfl
  have hcomponent : g.component id = [] := by rw [component, hdistances]; rfl
  exact {
    contains := hcontains
    upstream := hupstream
    downstream := hdownstream
    fanIn := by rw [CallGraph.fanIn, hupstream]; rfl
    fanOut := by rw [CallGraph.fanOut, hdownstream]; rfl
    distances := hdistances
    impact := by rw [CallGraph.impact, hcomponent]; rfl
    neighbourhood := by rw [CallGraph.neighbourhood, hcomponent]; rfl }

/-! ### What all changes keep -/

/-- **Whether a graph is a consistent account of some calls**, each kept once in both views, with
its ends, and counted once from either end. -/
structure Consistent (g : CallGraph) (calls : CallEdge → Prop) : Prop where
  /-- The view from the callers and the view from the callees show the same calls. -/
  mirrored : ∀ caller callee, callee ∈ g.forward.under caller ↔ caller ∈ g.reverse.under callee
  caller_mem : ∀ e ∈ g.edges, e.caller ∈ g.nodes
  callee_mem : ∀ e ∈ g.edges, e.callee ∈ g.nodes
  nodes_nodup : g.nodes.Nodup
  edges_nodup : g.edges.Nodup
  mem_edges : ∀ e, e ∈ g.edges ↔ calls e
  count_fanOut : g.edgeCount = (g.nodes.map g.fanOut).sum
  count_fanIn : g.edgeCount = (g.nodes.map g.fanIn).sum
  /-- About what is no node there is nothing to say. -/
  silent : ∀ id, id ∉ g.nodes → g.Silent id

/-- **After all changes a graph is a consistent account** of the calls that have been brought. -/
theorem consistent_ofChanges (cs : List Change) : (ofChanges cs).Consistent (Brought cs) := by
  have h : (ofChanges cs).WellFormed := wellFormed_ofChanges cs
  exact {
    mirrored := h.mirrored
    caller_mem := h.caller_mem
    callee_mem := h.callee_mem
    nodes_nodup := h.nodes.nodup
    edges_nodup := (pairwise_edges _).nodup
    mem_edges := fun _ => mem_edges_ofChanges
    count_fanOut := h.edgeCount_eq_sum_fanOut
    count_fanIn := h.edgeCount_eq_sum_fanIn
    silent := fun _ => h.silent }

end Dossier.CallGraph
