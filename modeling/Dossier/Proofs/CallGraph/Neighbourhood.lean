import Dossier.Proofs.CallGraph.Reach

/-!
# The neighbourhood of a function

A neighbourhood lists the calls from and to its own functions only. No call is lost by this: a call
with one end in the neighbourhood has the other end there as well, because calls are followed in
both directions (`Dossier.CallGraph.WellFormed.mem_edges_neighbourhood`).

Among the functions connected with a target there are calls that are neither from the target nor
to it. They are put in the order of their distances, and the distance of a call is that of its
farther end (`Dossier.CallGraph.EdgeDistant`). Every distance that is compared is a true one: what
stands for the distance of a function that was not found is never looked at, as both ends of such
a call have been found (`Dossier.CallGraph.WellFormed.edgeDistant`).

Calls of one distance are left in the order in which the neighbourhood lists them. So the order is
complete (`Dossier.CallGraph.Precedes`), though nothing but distances is compared.
-/

namespace Dossier.CallGraph

variable {g : CallGraph} {target id : String} {e : CallEdge} {n : Nat}

/-- Both ends of a call are connected with the target, or neither is. -/
theorem connected_caller_iff (he : e ∈ g.edges) :
    g.Connected target e.caller ↔ g.Connected target e.callee :=
  ⟨fun h => h.step (Or.inl he), fun h => h.step (Or.inr he)⟩

/-- The calls of a neighbourhood are in increasing order. -/
theorem WellFormed.pairwise_edges_neighbourhood (h : g.WellFormed) (target : String) :
    (g.neighbourhood target).edges.Pairwise (· < ·) :=
  CallEdge.pairwise_flatMap_mk (h.pairwise_component target) fun caller _ =>
    (g.pairwise_downstream caller).filter _

/-- **The calls of a neighbourhood** are those that have an end in it. -/
theorem WellFormed.mem_edges_neighbourhood (h : g.WellFormed) :
    e ∈ (g.neighbourhood target).edges ↔
      e ∈ g.edges ∧ target ∈ g.nodes ∧
        (g.Connected target e.caller ∨ g.Connected target e.callee) := by
  have hlisted : e ∈ (g.neighbourhood target).edges ↔
      e ∈ g.edges ∧ e.caller ∈ g.component target ∧ e.callee ∈ g.component target := by
    rw [neighbourhood, List.mem_flatMap]
    constructor
    · rintro ⟨caller, hcaller, he⟩
      obtain ⟨callee, hcallee, rfl⟩ := List.mem_map.mp he
      obtain ⟨hcalled, hmember⟩ := List.mem_filter.mp hcallee
      exact ⟨mem_downstream.mp hcalled, hcaller, List.contains_iff_mem.mp hmember⟩
    · rintro ⟨he, hcaller, hcallee⟩
      refine ⟨e.caller, hcaller, List.mem_map.mpr ⟨e.callee, ?_, rfl⟩⟩
      exact List.mem_filter.mpr ⟨mem_edges.mp he, List.contains_iff_mem.mpr hcallee⟩
  rw [hlisted, h.mem_component, h.mem_component]
  refine and_congr_right fun he => ?_
  -- One end of a call is connected with the target exactly if the other one is.
  rw [← and_and_left, connected_caller_iff he, and_self, or_self]

/-- **A neighbourhood is complete.** In every graph that is made by changes it has exactly the
functions that are connected with the target, and all calls of the graph from or to one of them,
each once and in order; there is nothing around what is no node. -/
theorem neighbourhood_complete (hg : g.Arises) (target : String) :
    (∀ id, id ∈ (g.neighbourhood target).nodes ↔ target ∈ g.nodes ∧ g.Connected target id) ∧
      (g.neighbourhood target).nodes.Pairwise (· < ·) ∧
      (∀ e, e ∈ (g.neighbourhood target).edges ↔
        e ∈ g.edges ∧ target ∈ g.nodes ∧
          (g.Connected target e.caller ∨ g.Connected target e.callee)) ∧
      (g.neighbourhood target).edges.Pairwise (· < ·) ∧
      (target ∉ g.nodes → g.neighbourhood target = ⟨target, [], []⟩) := by
  have h : g.WellFormed := hg.wellFormed
  exact ⟨fun _ => h.mem_component, h.pairwise_component target, fun _ => h.mem_edges_neighbourhood,
    h.pairwise_edges_neighbourhood target, fun habsent => (h.silent habsent).neighbourhood⟩

/-- All calls on the way are there, that of a function by itself as well, and no others. -/
theorem neighbourhood_complete_sample :
    (ofChanges sampleChanges).neighbourhood "d" =
        ⟨"d", ["a", "b", "c", "d"],
          [⟨"a", "b"⟩, ⟨"b", "a"⟩, ⟨"b", "b"⟩, ⟨"b", "c"⟩, ⟨"d", "c"⟩]⟩ ∧
      (ofChanges sampleChanges).Connected "d" "a" ∧
      ¬(ofChanges sampleChanges).Connected "d" "y" ∧
      (ofChanges sampleChanges).neighbourhood "old" = ⟨"old", [], []⟩ := by
  have hd : (ofChanges sampleChanges).neighbourhood "d" =
      ⟨"d", ["a", "b", "c", "d"],
        [⟨"a", "b"⟩, ⟨"b", "a"⟩, ⟨"b", "b"⟩, ⟨"b", "c"⟩, ⟨"d", "c"⟩]⟩ := by decide +kernel
  have hnode : "d" ∈ (ofChanges sampleChanges).nodes := by decide +kernel
  obtain ⟨hnodes, -⟩ := neighbourhood_complete ⟨sampleChanges, rfl⟩ "d"
  obtain ⟨-, -, -, -, habsent⟩ := neighbourhood_complete ⟨sampleChanges, rfl⟩ "old"
  rw [hd] at hnodes
  refine ⟨hd, ((hnodes "a").mp (by simp)).2, fun hy => ?_, habsent (by decide +kernel)⟩
  simpa using (hnodes "y").mpr ⟨hnode, hy⟩

/-! ### Calls that do not touch the target -/

/-- **Whether a call is one around the target**: from or to a function that is connected with it. -/
def Around (g : CallGraph) (target : String) (e : CallEdge) : Prop :=
  e ∈ g.edges ∧ (g.Connected target e.caller ∨ g.Connected target e.callee)

/-- **Whether a number is the distance of a call**: that of its farther end. -/
def EdgeDistant (g : CallGraph) (target : String) (e : CallEdge) (distance : Nat) : Prop :=
  ∃ m n, g.Distant target e.caller m ∧ g.Distant target e.callee n ∧ max m n = distance

/-- **Whether a call comes before another one**: it is nearer, or at the same distance and
smaller. -/
def Precedes (g : CallGraph) (target : String) (e e' : CallEdge) : Prop :=
  ∃ m n, g.EdgeDistant target e m ∧ g.EdgeDistant target e' n ∧ (m < n ∨ m = n ∧ e < e')

/-! ### Distances of calls -/

/-- Both ends of a call around the target are connected with it. -/
theorem Around.connected (h : g.Around target e) :
    g.Connected target e.caller ∧ g.Connected target e.callee := by
  obtain ⟨he, hcaller | hcallee⟩ := h
  · exact ⟨hcaller, (connected_caller_iff he).mp hcaller⟩
  · exact ⟨(connected_caller_iff he).mpr hcallee, hcallee⟩

/-- The distance of a connected function is found. -/
theorem WellFormed.lookup_distances (h : g.WellFormed) (htarget : target ∈ g.nodes)
    (hdistant : g.Distant target id n) : (g.distances target).lookup id = some n :=
  Order.lookup_of_mem (h.pairwise_component target).nodup (h.mem_distances.mpr ⟨htarget, hdistant⟩)

/-- **The distance of a call around the target is that of its farther end.** -/
theorem WellFormed.edgeDistant (h : g.WellFormed) (htarget : target ∈ g.nodes)
    (he : g.Around target e) :
    g.EdgeDistant target e (edgeDistance (g.distances target) e) := by
  obtain ⟨hcaller, hcallee⟩ := he.connected
  obtain ⟨m, hm⟩ := hcaller.exists_distant
  obtain ⟨n, hn⟩ := hcallee.exists_distant
  refine ⟨m, n, hm, hn, ?_⟩
  rw [edgeDistance, h.lookup_distances htarget hm, h.lookup_distances htarget hn]
  rfl

/-! ### The calls that do not touch the target -/

theorem WellFormed.mem_indirectEdges (h : g.WellFormed) :
    e ∈ g.indirectEdges target ↔
      target ∈ g.nodes ∧ g.Around target e ∧ e.caller ≠ target ∧ e.callee ≠ target := by
  have hlisted : e ∈ (g.neighbourhood target).edges ↔ target ∈ g.nodes ∧ g.Around target e := by
    rw [h.mem_edges_neighbourhood, and_left_comm, Around]
  rw [indirectEdges, (Order.sort_perm _ _).mem_iff, List.mem_filter, hlisted, Bool.and_eq_true,
    decide_eq_true_eq, decide_eq_true_eq, and_assoc]

/-- **The calls that do not touch the target come nearest first**, and in increasing order where
they are equally near. -/
theorem WellFormed.pairwise_indirectEdges (h : g.WellFormed) (target : String) :
    (g.indirectEdges target).Pairwise (g.Precedes target) := by
  have hdistant : ∀ e ∈ g.indirectEdges target,
      g.EdgeDistant target e (edgeDistance (g.distances target) e) := by
    intro e he
    obtain ⟨htarget, haround, -⟩ := h.mem_indirectEdges.mp he
    exact h.edgeDistant htarget haround
  -- The sort compares distances, and ties stay as they are in the neighbourhood.
  have hstable : (g.indirectEdges target).Pairwise fun a b =>
      decide (edgeDistance (g.distances target) a ≤ edgeDistance (g.distances target) b) ∧
        (decide (edgeDistance (g.distances target) b ≤ edgeDistance (g.distances target) a) →
          a < b) :=
    Order.pairwise_sort_stable (by simp [Nat.le_total]) (by simpa using fun _ _ _ => Nat.le_trans)
      ((h.pairwise_edges_neighbourhood target).filter _)
  refine hstable.imp_of_mem fun {a b} ha hb hab => ?_
  obtain ⟨hle, htie⟩ := hab
  refine ⟨_, _, hdistant a ha, hdistant b hb, ?_⟩
  rcases Nat.lt_or_eq_of_le (of_decide_eq_true hle) with hlt | heq
  · exact Or.inl hlt
  · exact Or.inr ⟨heq, htie (decide_eq_true heq.ge)⟩

/-- Each of them is there once. -/
theorem WellFormed.nodup_indirectEdges (h : g.WellFormed) (target : String) :
    (g.indirectEdges target).Nodup :=
  (Order.sort_perm _ _).nodup_iff.mpr ((h.pairwise_edges_neighbourhood target).nodup.filter _)

/-- **No call around the target is lost**: it leads to the target, or from it, or does not touch
it. -/
theorem WellFormed.around_iff (h : g.WellFormed) (htarget : target ∈ g.nodes) :
    g.Around target e ↔ e ∈ g.indirectEdges target ∨
      (∃ caller ∈ g.upstream target, e = ⟨caller, target⟩) ∨
        ∃ callee ∈ g.downstream target, e = ⟨target, callee⟩ := by
  rw [h.mem_indirectEdges, and_iff_right htarget]
  obtain ⟨caller, callee⟩ := e
  constructor
  · intro haround
    by_cases hcallee : callee = target
    · subst hcallee
      exact Or.inr (Or.inl ⟨caller, h.mem_upstream.mpr haround.1, rfl⟩)
    · by_cases hcaller : caller = target
      · subst hcaller
        exact Or.inr (Or.inr ⟨callee, mem_downstream.mpr haround.1, rfl⟩)
      · exact Or.inl ⟨haround, hcaller, hcallee⟩
  · rintro (⟨haround, -⟩ | ⟨id, hid, heq⟩ | ⟨id, hid, heq⟩)
    · exact haround
    -- The target is connected with itself, by a path without steps.
    · rw [heq]
      exact ⟨h.mem_upstream.mp hid, Or.inr ⟨0, .start⟩⟩
    · rw [heq]
      exact ⟨mem_downstream.mp hid, Or.inl ⟨0, .start⟩⟩

end Dossier.CallGraph
