import Dossier.Proofs.CallGraph.Basic

/-!
# The graph of some definitions and calls

The definitions are gone through one by one, and each is compared with nothing but the first
definition of its function. This is enough to find out whether all of them agree
(`Dossier.CallGraph.Declared.agree`), so it does not matter in which order they come. The calls
between the functions that are defined are then put in one by one, and what comes of it depends
neither on their order nor on how often each of them is there.
-/

namespace Dossier

/-- Whether definitions agree: those of one function have one signature. -/
def DefinitionSite.Agree (sites : List DefinitionSite) : Prop :=
  ∀ s ∈ sites, ∀ t ∈ sites, s.id = t.id → s.signature = t.signature

/-- Definitions of different functions agree. -/
theorem DefinitionSite.agree_of_nodup {sites : List DefinitionSite}
    (h : (sites.map DefinitionSite.id).Nodup) : Agree sites :=
  fun _ hs _ ht heq => congrArg signature (List.inj_on_of_nodup_map h hs ht heq)

/-- Whether a conflict is one between two definitions of a list. -/
def Conflict.IsAmong (c : Conflict) (sites : List DefinitionSite) : Prop :=
  ∃ s ∈ sites, ∃ t ∈ sites, s.id = c.name ∧ t.id = c.name ∧
    s.signature = c.first ∧ t.signature = c.second ∧ c.first ≠ c.second

namespace CallGraph

open DefinitionSite

variable {g g' : CallGraph} {firsts met sites sites' : List DefinitionSite} {calls : List CallEdge}
  {s first : DefinitionSite} {c : Conflict} {e : CallEdge} {id : String}

/-! ### Going through the definitions -/

/-- **What has been made of the definitions that were met**: a graph of their functions without
calls, and one first definition for each function, with which all others agree. -/
structure Declared (g : CallGraph) (firsts met : List DefinitionSite) : Prop where
  wellFormed : g.WellFormed
  nodes : ∀ id, id ∈ g.nodes ↔ ∃ s ∈ met, s.id = id
  edges : g.edges = []
  mem : ∀ t ∈ firsts, t ∈ met
  known : ∀ s ∈ met, ∃ t ∈ firsts, t.id = s.id ∧ t.signature = s.signature
  distinct : (firsts.map DefinitionSite.id).Nodup

namespace Declared

theorem nil : Declared empty [] [] where
  wellFormed := wellFormed_empty
  nodes id := iff_of_false List.not_mem_nil (by rintro ⟨_, hs, -⟩; exact List.not_mem_nil hs)
  edges := rfl
  mem _ h := h
  known _ h := absurd h List.not_mem_nil
  distinct := .nil

/-- Where each definition agrees with the first one of its function, any two agree. -/
theorem agree (h : Declared g firsts met) : Agree met := by
  intro s hs t ht heq
  obtain ⟨s', hs', hid, hsignature⟩ := h.known s hs
  obtain ⟨t', ht', hid', hsignature'⟩ := h.known t ht
  obtain rfl := List.inj_on_of_nodup_map h.distinct hs' ht' (hid.trans (heq.trans hid'.symm))
  exact hsignature.symm.trans hsignature'

/-- A function that has not been met before. -/
theorem new (h : Declared g firsts met) (hnew : (firsts.find? fun t => t.id = s.id) = none) :
    Declared (g.addNode s.id) (s :: firsts) (met ++ [s]) where
  wellFormed := h.wellFormed.addNode s.id
  nodes id := by
    rw [mem_nodes_addNode, h.nodes]
    simp only [List.mem_append, List.mem_singleton, or_and_right, exists_or, exists_eq_left]
    rw [or_comm, eq_comm]
  edges := h.edges
  mem t ht := by
    rcases List.mem_cons.mp ht with rfl | ht
    · exact List.mem_append_right met List.mem_cons_self
    · exact List.mem_append_left [s] (h.mem t ht)
  known t ht := by
    rcases List.mem_append.mp ht with ht | ht
    · obtain ⟨t', ht', hsame⟩ := h.known t ht
      exact ⟨t', List.mem_cons_of_mem s ht', hsame⟩
    · obtain rfl := List.mem_singleton.mp ht
      exact ⟨t, List.mem_cons_self, rfl, rfl⟩
  distinct := by
    refine List.nodup_cons.mpr ⟨fun hs => ?_, h.distinct⟩
    obtain ⟨t, ht, heq⟩ := List.mem_map.mp hs
    exact List.find?_eq_none.mp hnew t ht (decide_eq_true heq)

/-- One more definition of a function that has been met before. -/
theorem again (h : Declared g firsts met) (hmem : first ∈ firsts) (hid : first.id = s.id)
    (hsignature : first.signature = s.signature) : Declared g firsts (met ++ [s]) where
  wellFormed := h.wellFormed
  nodes id := by
    rw [h.nodes]
    constructor
    · rintro ⟨t, ht, heq⟩
      exact ⟨t, List.mem_append_left [s] ht, heq⟩
    · rintro ⟨t, ht, heq⟩
      rcases List.mem_append.mp ht with ht | ht
      · exact ⟨t, ht, heq⟩
      -- The function is a node already, because its first definition has been met.
      · obtain rfl := List.mem_singleton.mp ht
        exact ⟨first, h.mem first hmem, hid.trans heq⟩
  edges := h.edges
  mem t ht := List.mem_append_left [s] (h.mem t ht)
  known t ht := by
    rcases List.mem_append.mp ht with ht | ht
    · exact h.known t ht
    · obtain rfl := List.mem_singleton.mp ht
      exact ⟨first, hmem, hid, hsignature⟩
  distinct := h.distinct

/-- **All definitions are gone through**, or one of them disagrees with the first one of its
function. -/
theorem declare (h : Declared g firsts met) (sites : List DefinitionSite) :
    (∀ g', g.declare firsts sites = .ok g' → ∃ firsts', Declared g' firsts' (met ++ sites)) ∧
      ∀ c, g.declare firsts sites = .error c → c.IsAmong (met ++ sites) := by
  induction sites generalizing g firsts met with
  | nil =>
    rw [List.append_nil]
    refine ⟨fun g' hg' => ?_, nofun⟩
    obtain rfl := Except.ok.inj hg'
    exact ⟨firsts, h⟩
  | cons s rest ih =>
    rw [List.append_cons, CallGraph.declare]
    split
    · -- A function that was not met before brings its node with it.
      next hnew => exact ih (h.new hnew)
    · next first hfirst =>
      -- One that was met has to have the signature of its first definition.
      have hmem : first ∈ firsts := List.mem_of_find?_eq_some hfirst
      have hid : first.id = s.id := by simpa using List.find?_some hfirst
      split
      · next hsignature => exact ih (h.again hmem hid hsignature)
      · next hsignature =>
        refine ⟨nofun, fun c hc => ?_⟩
        obtain rfl := Except.error.inj hc
        have hfirstMem : first ∈ met ++ [s] ++ rest :=
          List.mem_append_left rest (List.mem_append_left [s] (h.mem first hmem))
        have hsMem : s ∈ met ++ [s] ++ rest :=
          List.mem_append_left rest (List.mem_append_right met List.mem_cons_self)
        exact ⟨first, hfirstMem, s, hsMem, hid, rfl, rfl, rfl, hsignature⟩

end Declared

/-! ### Putting the calls in -/

/-- A call between two nodes comes to the graph. -/
theorem connect_of_mem (hcaller : e.caller ∈ g.nodes) (hcallee : e.callee ∈ g.nodes) :
    g.connect e = g.addEdge e := by
  rw [connect, if_pos]
  rw [Bool.and_eq_true, contains_iff, contains_iff]
  exact ⟨hcaller, hcallee⟩

/-- A call that leads out of the nodes is left out. -/
theorem connect_of_not_mem (h : ¬(e.caller ∈ g.nodes ∧ e.callee ∈ g.nodes)) : g.connect e = g := by
  rw [connect, if_neg]
  rwa [Bool.and_eq_true, contains_iff, contains_iff]

/-- What one call changes. -/
theorem connected (hg : g.WellFormed) (e : CallEdge) :
    (g.connect e).WellFormed ∧ (∀ id, id ∈ (g.connect e).nodes ↔ id ∈ g.nodes) ∧
      ∀ e', e' ∈ (g.connect e).edges ↔
        e' ∈ g.edges ∨ e' = e ∧ e.caller ∈ g.nodes ∧ e.callee ∈ g.nodes := by
  by_cases h : e.caller ∈ g.nodes ∧ e.callee ∈ g.nodes
  · rw [connect_of_mem h.1 h.2]
    refine ⟨hg.addEdge e, fun id => ?_, fun e' => ?_⟩
    · rw [mem_nodes_addEdge]
      refine ⟨?_, fun hid => Or.inr (Or.inr hid)⟩
      rintro (rfl | rfl | hid)
      · exact h.2
      · exact h.1
      · exact hid
    · rw [mem_edges_addEdge, or_comm, and_iff_left h]
  · rw [connect_of_not_mem h]
    exact ⟨hg, fun _ => Iff.rfl, fun e' => ⟨Or.inl, fun h' => h'.resolve_right fun h' => h h'.2⟩⟩

/-- What all calls change. -/
theorem connected_all (hg : g.WellFormed) (calls : List CallEdge) :
    (calls.foldl connect g).WellFormed ∧ (∀ id, id ∈ (calls.foldl connect g).nodes ↔ id ∈ g.nodes) ∧
      ∀ e, e ∈ (calls.foldl connect g).edges ↔
        e ∈ g.edges ∨ e ∈ calls ∧ e.caller ∈ g.nodes ∧ e.callee ∈ g.nodes := by
  induction calls generalizing g with
  | nil => exact ⟨hg, fun _ => Iff.rfl, fun e => by simp⟩
  | cons call rest ih =>
    obtain ⟨hform, hnodes, hedges⟩ := connected hg call
    obtain ⟨hform', hnodes', hedges'⟩ := ih hform
    refine ⟨hform', fun id => (hnodes' id).trans (hnodes id), fun e => ?_⟩
    rw [List.foldl_cons, hedges', hedges, hnodes, hnodes, List.mem_cons, or_assoc, or_and_right]
    refine or_congr_right (or_congr_left (and_congr_right fun heq => ?_))
    rw [heq]

/-! ### The graph -/

/-- **Whether a graph is that of some definitions and calls**: its nodes are the functions that are
defined, and its edges are the calls between them. -/
structure IsGraphOf (g : CallGraph) (sites : List DefinitionSite) (calls : List CallEdge) :
    Prop where
  nodes : ∀ id, id ∈ g.nodes ↔ ∃ s ∈ sites, s.id = id
  edges : ∀ e, e ∈ g.edges ↔
    e ∈ calls ∧ (∃ s ∈ sites, s.id = e.caller) ∧ ∃ s ∈ sites, s.id = e.callee

/-- A graph is built of definitions that agree, and it is in order. -/
theorem of_build (h : build sites calls = .ok g) :
    Agree sites ∧ g.WellFormed ∧ g.IsGraphOf sites calls := by
  rw [build] at h
  rcases hdeclare : empty.declare [] sites with c | bare <;> rw [hdeclare] at h
  · cases h
  obtain rfl := Except.ok.inj h
  obtain ⟨firsts, hdeclared⟩ := (Declared.nil.declare sites).1 bare hdeclare
  obtain ⟨hform, hnodes, hedges⟩ := connected_all hdeclared.wellFormed calls
  refine ⟨hdeclared.agree, hform, fun id => (hnodes id).trans (hdeclared.nodes id), fun e => ?_⟩
  rw [hedges, hdeclared.edges, hdeclared.nodes, hdeclared.nodes]
  exact or_iff_right List.not_mem_nil

theorem wellFormed_of_build (h : build sites calls = .ok g) : g.WellFormed :=
  (of_build h).2.1

/-- A conflict that is reported is one between two of the definitions. -/
theorem isAmong_of_build (h : build sites calls = .error c) : c.IsAmong sites := by
  rw [build] at h
  rcases hdeclare : empty.declare [] sites with c' | bare <;> rw [hdeclare] at h
  · obtain rfl := Except.error.inj h
    exact (Declared.nil.declare sites).2 c' hdeclare
  · cases h

/-- **Definitions that agree have a graph.** -/
theorem exists_build (h : Agree sites) (calls : List CallEdge) :
    ∃ g, build sites calls = .ok g ∧ g.IsGraphOf sites calls := by
  rcases hbuild : build sites calls with c | g
  · obtain ⟨s, hs, t, ht, hid, hid', hfirst, hsecond, hne⟩ := isAmong_of_build hbuild
    exact absurd (hfirst.symm.trans ((h s hs t ht (hid.trans hid'.symm)).trans hsecond)) hne
  · exact ⟨g, rfl, (of_build hbuild).2.2⟩

/-- Graphs of the same definitions and calls are equal. -/
theorem IsGraphOf.eq {calls' : List CallEdge} (h : g.IsGraphOf sites calls)
    (h' : g'.IsGraphOf sites' calls') (hg : g.WellFormed) (hg' : g'.WellFormed)
    (hsites : ∀ s, s ∈ sites ↔ s ∈ sites') (hcalls : ∀ e, e ∈ calls ↔ e ∈ calls') : g = g' := by
  refine hg.ext hg' (fun id => ?_) fun e => ?_
  · simp only [h.nodes, h'.nodes, hsites]
  · simp only [h.edges, h'.edges, hsites, hcalls]

/-- **What is built of definitions and calls.** There is no graph exactly if two definitions of one
function have different signatures, and then two such signatures are reported; otherwise the nodes
are the functions that are defined and the edges the calls between them, each once. Neither the
order of the definitions nor the order and the repetitions of the calls make a difference. -/
theorem build_determined (sites : List DefinitionSite) (calls : List CallEdge) :
    ((∃ c, build sites calls = .error c) ↔
      ∃ s ∈ sites, ∃ t ∈ sites, s.id = t.id ∧ s.signature ≠ t.signature) ∧
    (∀ g, build sites calls = .ok g →
      g.nodes.Nodup ∧ g.edges.Nodup ∧ (∀ id, id ∈ g.nodes ↔ ∃ s ∈ sites, s.id = id) ∧
      ∀ e, e ∈ g.edges ↔
        e ∈ calls ∧ (∃ s ∈ sites, s.id = e.caller) ∧ ∃ s ∈ sites, s.id = e.callee) ∧
    (∀ sites' calls', sites.Perm sites' → (∀ e, e ∈ calls ↔ e ∈ calls') →
      (build sites calls).toOption = (build sites' calls').toOption) ∧
    ∀ c, build sites calls = .error c →
      ∃ s ∈ sites, ∃ t ∈ sites, s.id = c.name ∧ t.id = c.name ∧
        s.signature = c.first ∧ t.signature = c.second ∧ c.first ≠ c.second := by
  refine ⟨⟨?_, ?_⟩, fun g hg => ?_, fun sites' calls' hsites hcalls => ?_,
    fun c => isAmong_of_build⟩
  · rintro ⟨c, hc⟩
    obtain ⟨s, hs, t, ht, hid, hid', hfirst, hsecond, hne⟩ := isAmong_of_build hc
    exact ⟨s, hs, t, ht, hid.trans hid'.symm, fun h => hne (hfirst ▸ hsecond ▸ h)⟩
  · rintro ⟨s, hs, t, ht, hid, hne⟩
    rcases hbuild : build sites calls with c | g
    · exact ⟨c, rfl⟩
    · exact absurd ((of_build hbuild).1 s hs t ht hid) hne
  · obtain ⟨-, hform, hgraph⟩ := of_build hg
    exact ⟨hform.nodes.nodup, g.pairwise_edges.nodup, hgraph.nodes, hgraph.edges⟩
  · -- Whether there is a graph depends on the set of definitions alone.
    have hagree : Agree sites ↔ Agree sites' := by
      simp only [Agree, hsites.mem_iff]
    rcases hbuild : build sites calls with c | g <;>
      rcases hbuild' : build sites' calls' with c' | g'
    · rfl
    · obtain ⟨g, hg, -⟩ := exists_build (hagree.mpr (of_build hbuild').1) calls
      cases hbuild.symm.trans hg
    · obtain ⟨g', hg', -⟩ := exists_build (hagree.mp (of_build hbuild).1) calls'
      cases hbuild'.symm.trans hg'
    · obtain ⟨-, hform, hgraph⟩ := of_build hbuild
      obtain ⟨-, hform', hgraph'⟩ := of_build hbuild'
      exact congrArg some
        (hgraph.eq hgraph' hform hform' (fun s => hsites.mem_iff) hcalls)

end CallGraph

end Dossier
