import Dossier.Proofs.CallGraph.Changes
import Mathlib.Data.Finset.Card
import Mathlib.Data.Finset.Dedup
import Mathlib.Data.List.Perm.Subperm

/-!
# What a search of a call graph finds

A search finds the functions in the order of their distances. In every turn the functions that
have been found are those whose neighbours have been looked at, followed by those in the queue
(`Dossier.CallGraph.Search.Underway`), and none of them is farther away than one step beyond the
first in the queue. So when the queue is empty, every function that is connected with the target
has been found at the length of a shortest path (`Dossier.CallGraph.Search.Underway.mem_found_iff`),
and the queue is empty after as many turns as there are nodes
(`Dossier.CallGraph.WellFormed.exists_underway_search`).

When two graphs differ only in what the functions are called (`Dossier.CallGraph.Renames`), what can
be said of a function in the one can be said of it under its other name. So a change of it can reach
as many functions (`Dossier.CallGraph.Renames.length_impact`).
-/

namespace Dossier.CallGraph

/-! ### Paths -/

/-- Whether one of two functions calls the other. -/
def Adjacent (g : CallGraph) (id other : String) : Prop :=
  ⟨id, other⟩ ∈ g.edges ∨ ⟨other, id⟩ ∈ g.edges

/-- **Whether a path of some length** leads from a function to another one, along calls that are
followed in either direction. -/
inductive Path (g : CallGraph) (source : String) : String → Nat → Prop
  | start : Path g source source 0
  | step {id other : String} {length : Nat} :
      Path g source id length → g.Adjacent id other → Path g source other (length + 1)

/-- Whether two functions are connected. -/
def Connected (g : CallGraph) (id other : String) : Prop :=
  ∃ length, g.Path id other length

/-- **Whether a number is the distance of two functions**: the length of a shortest path. -/
def Distant (g : CallGraph) (id other : String) (distance : Nat) : Prop :=
  g.Path id other distance ∧ ∀ length, g.Path id other length → distance ≤ length

variable {g : CallGraph} {target id other : String} {n : Nat}

theorem Adjacent.symm (h : g.Adjacent id other) : g.Adjacent other id :=
  Or.symm h

theorem WellFormed.mem_neighbours (h : g.WellFormed) :
    other ∈ g.neighbours id ↔ g.Adjacent id other := by
  rw [neighbours, List.mem_append, mem_downstream, h.mem_upstream, Adjacent]

theorem WellFormed.mem_nodes_of_adjacent (h : g.WellFormed) (hadjacent : g.Adjacent id other) :
    other ∈ g.nodes := by
  rcases hadjacent with he | he
  · exact h.callee_mem _ he
  · exact h.caller_mem _ he

namespace Path

/-- A path with one more step before it. -/
theorem before (h : g.Path other target n) (hadjacent : g.Adjacent id other) :
    g.Path id target (n + 1) := by
  induction h with
  | start => exact .step .start hadjacent
  | step _ hstep ih => exact .step ih hstep

/-- A path is walked in the other direction. -/
theorem symm (h : g.Path id other n) : g.Path other id n := by
  induction h with
  | start => exact .start
  | step _ hstep ih => exact ih.before hstep.symm

/-- A path leads from node to node. -/
theorem mem_nodes (h : g.Path target id n) (hg : g.WellFormed) (htarget : target ∈ g.nodes) :
    id ∈ g.nodes := by
  cases h with
  | start => exact htarget
  | step _ hstep => exact hg.mem_nodes_of_adjacent hstep

end Path

theorem Connected.symm (h : g.Connected id other) : g.Connected other id :=
  h.imp fun _ hpath => hpath.symm

/-- What is next to a connected function is connected. -/
theorem Connected.step {source : String} (h : g.Connected source id)
    (hadjacent : g.Adjacent id other) : g.Connected source other := by
  obtain ⟨length, hpath⟩ := h
  exact ⟨length + 1, .step hpath hadjacent⟩

/-- Connected functions have a distance. -/
theorem Connected.exists_distant (h : g.Connected id other) :
    ∃ distance, g.Distant id other distance := by
  classical
  exact ⟨Nat.find h, Nat.find_spec h, fun _ hpath => Nat.find_min' h hpath⟩

/-! ### One turn -/

namespace Search

/-- What a search has found after it has come upon some functions at one distance: those of them
that it had not found before, each once. -/
theorem foldl_note (distance : Nat) (ids : List String) (s : Search) :
    ∃ fresh : List String, fresh.Nodup ∧
      (∀ id ∈ fresh, id ∈ ids ∧ id ∉ s.found.map Prod.fst) ∧
      (∀ id ∈ ids, id ∈ s.found.map Prod.fst ∨ id ∈ fresh) ∧
      ids.foldl (note distance) s =
        ⟨s.found ++ fresh.map fun id => (id, distance), s.queue ++ fresh⟩ := by
  induction ids generalizing s with
  | nil => exact ⟨[], .nil, by simp, by simp, by simp⟩
  | cons id rest ih =>
    have hany : (s.found.any fun f => f.1 = id) = true ↔ id ∈ s.found.map Prod.fst := by simp
    by_cases hfound : id ∈ s.found.map Prod.fst
    · -- The first function was found before, so that the search stays as it is.
      obtain ⟨fresh, hnodup, hfresh, hall, heq⟩ := ih s
      refine ⟨fresh, hnodup, fun x hx => ?_, fun x hx => ?_, ?_⟩
      · exact ⟨List.mem_cons_of_mem id (hfresh x hx).1, (hfresh x hx).2⟩
      · rcases List.mem_cons.mp hx with rfl | hx
        · exact Or.inl hfound
        · exact hall x hx
      · rw [List.foldl_cons, note, if_pos (hany.mpr hfound), heq]
    · -- It is new, and the others are noted after it.
      obtain ⟨fresh, hnodup, hfresh, hall, heq⟩ := ih ⟨s.found ++ [(id, distance)], s.queue ++ [id]⟩
      simp only [List.map_append, List.map_cons, List.map_nil, List.mem_append, List.mem_singleton,
        not_or] at hfresh hall
      refine ⟨id :: fresh, ?_, fun x hx => ?_, fun x hx => ?_, ?_⟩
      · exact List.nodup_cons.mpr ⟨fun hid => (hfresh id hid).2.2 rfl, hnodup⟩
      · rcases List.mem_cons.mp hx with rfl | hx
        · exact ⟨List.mem_cons_self, hfound⟩
        · exact ⟨List.mem_cons_of_mem id (hfresh x hx).1, (hfresh x hx).2.1⟩
      · rcases List.mem_cons.mp hx with rfl | hx
        · exact Or.inr List.mem_cons_self
        · rcases hall x hx with (hx | rfl) | hx
          · exact Or.inl hx
          · exact Or.inr List.mem_cons_self
          · exact Or.inr (List.mem_cons_of_mem id hx)
      · rw [List.foldl_cons, note, if_neg fun h => hfound (hany.mp h), heq]
        simp

/-- **What is true of a search that is under way.** The functions that have been found are those
that are done, whose neighbours have all been found, and those in the queue. They have been found
once each, in the order of their distances, and the last of them at most one step beyond the first
in the queue. -/
structure Underway (g : CallGraph) (target : String) (done pending : List (String × Nat))
    (s : Search) : Prop where
  found : s.found = done ++ pending
  queue : s.queue = pending.map Prod.fst
  distinct : ((done ++ pending).map Prod.fst).Nodup
  target_mem : (target, 0) ∈ done ++ pending
  paths : ∀ f ∈ done ++ pending, g.Path target f.1 f.2
  closed : ∀ f ∈ done, ∀ other, g.Adjacent f.1 other →
    ∃ distance ≤ f.2 + 1, (other, distance) ∈ done ++ pending
  increasing : (done ++ pending).Pairwise fun f f' => f.2 ≤ f'.2
  near : ∀ f ∈ pending.head?, ∀ f' ∈ done ++ pending, f'.2 ≤ f.2 + 1

variable {s : Search} {done pending : List (String × Nat)} {first : String × Nat}

theorem underway_start (g : CallGraph) (target : String) :
    Underway g target [] [(target, 0)] (start target) where
  found := rfl
  queue := rfl
  distinct := by simp
  target_mem := List.mem_singleton.mpr rfl
  paths f hf := by
    obtain rfl := List.mem_singleton.mp hf
    exact .start
  closed f hf := absurd hf List.not_mem_nil
  increasing := List.pairwise_singleton _ _
  near f _ f' hf' := by
    obtain rfl := List.mem_singleton.mp hf'
    exact Nat.zero_le _

/-- The new functions of a turn. -/
theorem Underway.exists_turn (h : Underway g target done (first :: pending) s)
    (hg : g.WellFormed) :
    ∃ fresh : List String, fresh.Nodup ∧
      (∀ id ∈ fresh, g.Adjacent first.1 id ∧ id ∉ (done ++ first :: pending).map Prod.fst) ∧
      (∀ id, g.Adjacent first.1 id →
        id ∈ (done ++ first :: pending).map Prod.fst ∨ id ∈ fresh) ∧
      g.turn s = ⟨done ++ first :: pending ++ fresh.map fun id => (id, first.2 + 1),
        pending.map Prod.fst ++ fresh⟩ := by
  have hhops : (s.found.lookup first.1).getD 0 = first.2 := by
    rw [h.found, Order.lookup_of_mem h.distinct (List.mem_append_right done List.mem_cons_self)]
    rfl
  have hturn : g.turn s =
      (g.neighbours first.1).foldl (note (first.2 + 1)) ⟨s.found, pending.map Prod.fst⟩ := by
    rw [turn, h.queue]
    simp only [List.map_cons, hhops]
  obtain ⟨fresh, hnodup, hfresh, hall, heq⟩ :=
    foldl_note (first.2 + 1) (g.neighbours first.1) ⟨s.found, pending.map Prod.fst⟩
  simp only [hg.mem_neighbours, h.found] at hfresh hall heq
  exact ⟨fresh, hnodup, hfresh, hall, by rw [hturn, h.found, heq]⟩

/-- **One turn of a search**: the first function in the queue is done, and its neighbours that had
not been found come to the end of the queue. -/
theorem Underway.turn (h : Underway g target done (first :: pending) s) (hg : g.WellFormed) :
    ∃ pending', Underway g target (done ++ [first]) (pending ++ pending') (g.turn s) := by
  obtain ⟨fresh, hnodup, hfresh, hall, hturn⟩ := h.exists_turn hg
  refine ⟨fresh.map fun id => (id, first.2 + 1), ?_⟩
  have hsame : done ++ [first] ++ (pending ++ fresh.map fun id => (id, first.2 + 1)) =
      done ++ first :: pending ++ fresh.map fun id => (id, first.2 + 1) := by simp
  have hfirst : first ∈ done ++ first :: pending := List.mem_append_right done List.mem_cons_self
  have hnear : ∀ f ∈ done ++ first :: pending, f.2 ≤ first.2 + 1 := h.near first rfl
  -- Of those that are new, the name is fresh and the distance is one more than that of the first.
  have hnew : ∀ {f : String × Nat}, f ∈ (fresh.map fun id => (id, first.2 + 1)) →
      f.1 ∈ fresh ∧ f.2 = first.2 + 1 := by
    intro f hf
    obtain ⟨id, hid, rfl⟩ := List.mem_map.mp hf
    exact ⟨hid, rfl⟩
  constructor
  case found => rw [hturn, hsame]
  case queue => rw [hturn, List.map_append, List.map_map]; simp [Function.comp_def]
  case distinct =>
    rw [hsame, List.map_append, List.map_map, List.nodup_append]
    refine ⟨h.distinct, by simpa [Function.comp_def] using hnodup, ?_⟩
    rintro id hid other hother rfl
    obtain ⟨id, hfreshId, rfl⟩ := List.mem_map.mp hother
    exact (hfresh id hfreshId).2 hid
  case target_mem =>
    rw [hsame]
    exact List.mem_append_left _ h.target_mem
  case paths =>
    rw [hsame]
    intro f hf
    rcases List.mem_append.mp hf with hf | hf
    · exact h.paths f hf
    · obtain ⟨hid, hdistance⟩ := hnew hf
      rw [hdistance]
      exact .step (h.paths first hfirst) (hfresh f.1 hid).1
  case closed =>
    rw [hsame]
    intro f hf other hadjacent
    rcases List.mem_append.mp hf with hf | hf
    · obtain ⟨distance, hle, hmem⟩ := h.closed f hf other hadjacent
      exact ⟨distance, hle, List.mem_append_left _ hmem⟩
    · obtain rfl := List.mem_singleton.mp hf
      rcases hall other hadjacent with hold | hid
      · obtain ⟨⟨_, distance⟩, hmem, rfl⟩ := List.mem_map.mp hold
        exact ⟨distance, hnear _ hmem, List.mem_append_left _ hmem⟩
      · exact ⟨f.2 + 1, Nat.le_refl _, List.mem_append_right _ (List.mem_map_of_mem hid)⟩
  case increasing =>
    rw [hsame, List.pairwise_append]
    refine ⟨h.increasing, List.pairwise_of_forall_mem_list fun f hf f' hf' => ?_,
      fun f hf f' hf' => ?_⟩
    · rw [(hnew hf).2, (hnew hf').2]
    · rw [(hnew hf').2]
      exact hnear f hf
  case near =>
    rw [hsame]
    intro f hf f' hf'
    -- Whatever comes first now is not nearer than what came first before.
    have hle : first.2 ≤ f.2 := by
      rcases List.mem_append.mp (List.mem_of_mem_head? hf) with hf | hf
      · exact (List.pairwise_cons.mp (List.pairwise_append.mp h.increasing).2.1).1 f hf
      · rw [(hnew hf).2]
        exact Nat.le_succ _
    rcases List.mem_append.mp hf' with hf' | hf'
    · exact (hnear f' hf').trans (Nat.succ_le_succ hle)
    · rw [(hnew hf').2]
      exact Nat.succ_le_succ hle

/-! ### The end of a search -/

/-- When the queue is empty, everything that is connected with the target has been found. -/
theorem Underway.exists_mem_found (h : Underway g target done [] s) (hpath : g.Path target id n) :
    ∃ distance ≤ n, (id, distance) ∈ s.found := by
  rw [h.found]
  induction hpath with
  | start => exact ⟨0, Nat.le_refl 0, h.target_mem⟩
  | step _ hadjacent ih =>
    obtain ⟨distance, hle, hmem⟩ := ih
    rw [List.append_nil] at hmem
    obtain ⟨distance', hle', hmem'⟩ := h.closed _ hmem _ hadjacent
    exact ⟨distance', hle'.trans (Nat.succ_le_succ hle), hmem'⟩

/-- **At its end a search has found everything at its distance.** -/
theorem Underway.mem_found_iff (h : Underway g target done [] s) :
    (id, n) ∈ s.found ↔ g.Distant target id n := by
  constructor
  · intro hmem
    rw [h.found] at hmem
    refine ⟨h.paths _ hmem, fun length hpath => ?_⟩
    obtain ⟨distance, hle, hmem'⟩ := h.exists_mem_found hpath
    rw [h.found] at hmem'
    have heq := (Order.lookup_of_mem h.distinct hmem).symm.trans
      (Order.lookup_of_mem h.distinct hmem')
    exact Option.some.inj heq ▸ hle
  · rintro ⟨hpath, hshortest⟩
    obtain ⟨distance, hle, hmem⟩ := h.exists_mem_found hpath
    have hfound := hmem
    rw [h.found] at hfound
    obtain rfl : distance = n := Nat.le_antisymm hle (hshortest distance (h.paths _ hfound))
    exact hmem

/-- No search finds more functions than there are nodes. -/
theorem Underway.length_le (h : Underway g target done pending s) (hg : g.WellFormed)
    (htarget : target ∈ g.nodes) : (done ++ pending).length ≤ g.nodes.length := by
  rw [← List.length_map (f := Prod.fst)]
  refine (List.subperm_of_subset h.distinct fun id hid => ?_).length_le
  obtain ⟨f, hf, rfl⟩ := List.mem_map.mp hid
  exact (h.paths f hf).mem_nodes hg htarget

end Search

open Search

/-- After some turns a search is at its end, or as many functions are done. -/
theorem WellFormed.exists_underway (h : g.WellFormed) (target : String) (turns : Nat) :
    ∃ done pending, Underway g target done pending (g.search target turns) ∧
      (pending = [] ∨ done.length = turns) := by
  induction turns with
  | zero => exact ⟨[], _, underway_start g target, Or.inr rfl⟩
  | succ turns ih =>
    obtain ⟨done, pending, hsearch, hturns⟩ := ih
    rcases pending with _ | ⟨first, pending⟩
    · -- The search is over, and a turn does nothing more.
      have hover : g.search target (turns + 1) = g.search target turns := by
        rw [search, turn, hsearch.queue]
        rfl
      rw [hover]
      exact ⟨done, [], hsearch, Or.inl rfl⟩
    · obtain ⟨pending', hnext⟩ := hsearch.turn h
      refine ⟨_, _, hnext, Or.inr ?_⟩
      rw [List.length_append, hturns.resolve_left nofun]
      rfl

/-- **A search is at its end after as many turns as there are nodes.** -/
theorem WellFormed.exists_underway_search (h : g.WellFormed) (htarget : target ∈ g.nodes) :
    ∃ done, Underway g target done [] (g.search target g.nodes.length) := by
  obtain ⟨done, pending, hsearch, hturns⟩ := h.exists_underway target g.nodes.length
  rcases pending with _ | ⟨first, pending⟩
  · exact ⟨done, hsearch⟩
  · have hlength := hsearch.length_le h htarget
    rw [List.length_append, hturns.resolve_left nofun, List.length_cons] at hlength
    omega

/-! ### Distances -/

theorem WellFormed.mem_distances (h : g.WellFormed) :
    (id, n) ∈ g.distances target ↔ target ∈ g.nodes ∧ g.Distant target id n := by
  rw [distances]
  split
  · next htarget =>
    have htarget := contains_iff.mp htarget
    obtain ⟨done, hsearch⟩ := h.exists_underway_search htarget
    rw [(Order.sort_perm _ _).mem_iff, hsearch.mem_found_iff, and_iff_right htarget]
  · next htarget =>
    exact iff_of_false List.not_mem_nil fun hmem => htarget (contains_iff.mpr hmem.1)

/-- The functions that are connected with the target are in increasing order. -/
theorem WellFormed.pairwise_component (h : g.WellFormed) (target : String) :
    (g.component target).Pairwise (· < ·) := by
  rw [component, distances]
  split
  · next htarget =>
    obtain ⟨done, hsearch⟩ := h.exists_underway_search (contains_iff.mp htarget)
    have hnodup : ((Order.sort (fun a b => a.1 ≤ b.1)
        (g.search target g.nodes.length).found).map Prod.fst).Nodup := by
      refine ((Order.sort_perm _ _).map Prod.fst).nodup_iff.mpr ?_
      rw [hsearch.found]
      exact hsearch.distinct
    have hsorted : ((Order.sort (fun a b => a.1 ≤ b.1)
        (g.search target g.nodes.length).found).map Prod.fst).Pairwise (· ≤ ·) := by
      refine List.pairwise_map.mpr ((Order.pairwise_sort ?_ ?_ _).imp of_decide_eq_true)
      · simp [String.le_total]
      · simpa using fun _ _ _ => String.le_trans
    -- Increasing but for ties, and no function is there twice.
    exact (hsorted.and hnodup).imp fun hab =>
      String.not_le.mp fun hge => hab.2 (String.le_antisymm hab.1 hge)
  · exact .nil

theorem WellFormed.mem_component (h : g.WellFormed) :
    id ∈ g.component target ↔ target ∈ g.nodes ∧ g.Connected target id := by
  rw [component, List.mem_map]
  constructor
  · rintro ⟨⟨id, distance⟩, hmem, rfl⟩
    obtain ⟨htarget, hpath, -⟩ := h.mem_distances.mp hmem
    exact ⟨htarget, distance, hpath⟩
  · rintro ⟨htarget, hconnected⟩
    obtain ⟨distance, hdistant⟩ := hconnected.exists_distant
    exact ⟨(id, distance), h.mem_distances.mpr ⟨htarget, hdistant⟩, rfl⟩

theorem WellFormed.mem_impact_iff (h : g.WellFormed) :
    id ∈ g.impact target ↔ target ∈ g.nodes ∧ g.Connected target id ∧ id ≠ target := by
  rw [impact, List.mem_filter, h.mem_component, decide_eq_true_eq, and_assoc]

/-- **A change reaches back**: what a function can reach can reach it. -/
theorem WellFormed.mem_impact_comm (h : g.WellFormed) :
    id ∈ g.impact other ↔ other ∈ g.impact id := by
  have hback : ∀ {id other : String}, id ∈ g.impact other → other ∈ g.impact id := by
    intro id other hid
    obtain ⟨hother, ⟨length, hpath⟩, hne⟩ := h.mem_impact_iff.mp hid
    exact h.mem_impact_iff.mpr ⟨hpath.mem_nodes h hother, ⟨length, hpath.symm⟩, hne.symm⟩
  exact ⟨hback, hback⟩

/-! ### Neighbours -/

/-- **A change of a function can reach its neighbours.** -/
theorem WellFormed.mem_impact (h : g.WellFormed)
    (hother : other ∈ g.upstream id ∨ other ∈ g.downstream id) (hne : other ≠ id) :
    other ∈ g.impact id := by
  have hadjacent : g.Adjacent id other :=
    h.mem_neighbours.mp (List.mem_append.mpr hother.symm)
  exact h.mem_impact_iff.mpr
    ⟨h.mem_nodes_of_edge hother, ⟨1, .step .start hadjacent⟩, hne⟩

/-- There are at least as many functions that a change can reach as there are neighbours, each
counted once and the function itself left out. -/
theorem WellFormed.card_neighbours_le (h : g.WellFormed) (id : String) :
    ((g.upstream id ++ g.downstream id).toFinset.erase id).card ≤ (g.impact id).length := by
  have hsub : (g.upstream id ++ g.downstream id).toFinset.erase id ⊆ (g.impact id).toFinset := by
    intro other hother
    obtain ⟨hne, hmem⟩ := Finset.mem_erase.mp hother
    exact List.mem_toFinset.mpr
      (h.mem_impact (List.mem_append.mp (List.mem_toFinset.mp hmem)) hne)
  exact (Finset.card_le_card hsub).trans (List.toFinset_card_le _)

/-! ### Graphs that changes have made -/

/-- **A search ends and finds what it should.** In every graph that is made by changes the queue of
a search is empty after as many turns as there are nodes. The functions with a distance are those
that are connected with the target, once each, and the distance is the length of a shortest path.
A change of the target can reach all of them but itself, and each of them in turn can reach the
target. -/
theorem distances_shortest (hg : g.Arises) (htarget : target ∈ g.nodes) :
    (g.search target g.nodes.length).queue = [] ∧
      ((g.distances target).map Prod.fst).Nodup ∧
      (∀ id, id ∈ (g.distances target).map Prod.fst ↔ g.Connected target id) ∧
      (∀ id n, (id, n) ∈ g.distances target ↔ g.Distant target id n) ∧
      (g.impact target).Nodup ∧
      (∀ id, id ∈ g.impact target ↔ g.Connected target id ∧ id ≠ target) ∧
      ∀ other, other ∈ g.impact target ↔ target ∈ g.impact other := by
  have h : g.WellFormed := hg.wellFormed
  obtain ⟨done, hsearch⟩ := h.exists_underway_search htarget
  have hnodup : (g.component target).Nodup := (h.pairwise_component target).nodup
  refine ⟨hsearch.queue, hnodup, fun id => ?_, fun id n => ?_, hnodup.filter _, fun id => ?_,
    fun other => h.mem_impact_comm⟩
  · exact h.mem_component.trans (and_iff_right htarget)
  · rw [h.mem_distances, and_iff_right htarget]
  · rw [h.mem_impact_iff, and_iff_right htarget]

/-- A graph with a cycle and a call of a function by itself, of which only a part is connected. It
takes the place of an older one; a graph that cannot be built does not. -/
def sampleChanges : List Change :=
  [ .edge ⟨"old", "a"⟩,
    .build [⟨"a", "m", "a()"⟩, ⟨"b", "m", "b()"⟩, ⟨"c", "m", "c()"⟩, ⟨"a", "m", "a()"⟩]
      [⟨"b", "a"⟩, ⟨"a", "b"⟩, ⟨"b", "b"⟩, ⟨"b", "c"⟩, ⟨"b", "c"⟩, ⟨"c", "print"⟩],
    .build [⟨"z", "m", "z()"⟩, ⟨"z", "n", "z(x)"⟩] [],
    .edge ⟨"d", "c"⟩,
    .node "e",
    .edge ⟨"x", "y"⟩ ]

/-- What is called from elsewhere is three steps away. -/
theorem distances_shortest_sample :
    (ofChanges sampleChanges).distances "a" = [("a", 0), ("b", 1), ("c", 2), ("d", 3)] ∧
      (ofChanges sampleChanges).Distant "a" "d" 3 ∧
      ¬(ofChanges sampleChanges).Connected "a" "x" ∧
      "a" ∈ (ofChanges sampleChanges).impact "d" := by
  have hdistances : (ofChanges sampleChanges).distances "a" =
      [("a", 0), ("b", 1), ("c", 2), ("d", 3)] := by decide +kernel
  obtain ⟨-, -, hconnected, hdistant, -, himpact, hback⟩ :=
    distances_shortest ⟨sampleChanges, rfl⟩
      (show "a" ∈ (ofChanges sampleChanges).nodes by decide +kernel)
  rw [hdistances] at hconnected hdistant
  have hd : (ofChanges sampleChanges).Distant "a" "d" 3 := (hdistant "d" 3).mp (by simp)
  refine ⟨hdistances, hd, fun hx => ?_, (hback "d").mp ?_⟩
  · simpa using (hconnected "x").mpr hx
  · exact (himpact "d").mpr ⟨⟨3, hd.1⟩, by decide⟩

/-! ### Graphs that differ in the names of functions -/

/-- **Whether a graph is another one with other names**, which are exchanged by `ρ`. -/
structure Renames (ρ : String → String) (g g' : CallGraph) : Prop where
  exchanges : ρ.Involutive
  nodes : ∀ id, id ∈ g'.nodes ↔ ρ id ∈ g.nodes
  edges : ∀ id other, ⟨id, other⟩ ∈ g'.edges ↔ (⟨ρ id, ρ other⟩ : CallEdge) ∈ g.edges

namespace Renames

variable {ρ : String → String} {g' : CallGraph}

theorem symm (h : Renames ρ g g') : Renames ρ g' g where
  exchanges := h.exchanges
  nodes id := by rw [h.nodes, h.exchanges]
  edges id other := by rw [h.edges, h.exchanges, h.exchanges]

theorem adjacent (h : Renames ρ g g') (hadjacent : g.Adjacent id other) :
    g'.Adjacent (ρ id) (ρ other) := by
  rw [Adjacent, h.edges, h.edges, h.exchanges, h.exchanges]
  exact hadjacent

theorem path (h : Renames ρ g g') (hpath : g.Path id other n) : g'.Path (ρ id) (ρ other) n := by
  induction hpath with
  | start => exact .start
  | step _ hstep ih => exact .step ih (h.adjacent hstep)

/-- Functions are connected exactly if they are so under their other names. -/
theorem connected_iff (h : Renames ρ g g') :
    g'.Connected (ρ id) (ρ other) ↔ g.Connected id other := by
  refine ⟨fun ⟨n, hpath⟩ => ⟨n, ?_⟩, fun ⟨n, hpath⟩ => ⟨n, h.path hpath⟩⟩
  have hback := h.symm.path hpath
  rwa [h.exchanges, h.exchanges] at hback

/-- **A change of a function can reach the same functions**, under their other names. -/
theorem mem_impact_iff (h : Renames ρ g g') (hg : g.WellFormed) (hg' : g'.WellFormed) :
    ρ id ∈ g'.impact (ρ target) ↔ id ∈ g.impact target := by
  rw [hg'.mem_impact_iff, hg.mem_impact_iff, h.nodes, h.exchanges, h.connected_iff,
    h.exchanges.injective.ne_iff]

/-- **A change of a function can reach as many functions** under whatever names. -/
theorem length_impact (h : Renames ρ g g') (hg : g.WellFormed) (hg' : g'.WellFormed)
    (target : String) : (g'.impact (ρ target)).length = (g.impact target).length := by
  have hnodup : ∀ {g : CallGraph}, g.WellFormed → ∀ target, (g.impact target).Nodup :=
    fun hg target => (hg.pairwise_component target).nodup.filter _
  have hperm : (g'.impact (ρ target)).Perm ((g.impact target).map ρ) := by
    refine (List.perm_ext_iff_of_nodup (hnodup hg' _)
      ((hnodup hg target).map h.exchanges.injective)).mpr fun id => ?_
    rw [← h.exchanges id, h.mem_impact_iff hg hg', List.mem_map_of_injective h.exchanges.injective]
  rw [hperm.length_eq, List.length_map]

end Renames

end Dossier.CallGraph
