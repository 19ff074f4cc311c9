import Dossier.Analysis.Findings
import Dossier.Proofs.CallGraph.Neighbourhood
import Dossier.Proofs.Structure.Target

/-!
# What the model is told about the surroundings of a function

The callers and callees of a function are listed apart from the other calls around it. The
function is a node of the graph that was built around it
(`Dossier.Structure.Assembly.targetId_mem_nodes`), because its own definition has gone into that
graph; so the three lists account for every call of the functions connected with it.
-/

namespace Dossier

namespace Structure.Assembly

variable {t : SourceTree} {filter : PathFilter} {file name : String} {a : Analysis}

/-- **The function is a node of its graph.** -/
theorem targetId_mem_nodes (m : Assembly t filter file name a) : a.targetId ∈ a.graph.nodes := by
  have hdefinition : m.definition ∈ m.outline.definitions :=
    Outline.mem_of_locate (target_eq_ok_iff.mp m.found)
  obtain ⟨-, -, hcomplete⟩ := known_of_survey m.surveyed
  obtain ⟨first, hfirst, hid⟩ := hcomplete ⟨Path.normalize file, m.definition⟩
    (mem_flatMap_located.mpr ⟨_, List.mem_cons_self, rfl, hdefinition⟩)
  -- The survey may have kept another definition, but it is one of the same function.
  obtain ⟨-, -, hgraph⟩ := CallGraph.of_build m.built
  rw [m.targetId_eq, hgraph.nodes]
  exact ⟨first.site, List.mem_map_of_mem hfirst, hid⟩

end Structure.Assembly

namespace Analysis.Findings

/-- **Every call around a function is told, and once.** Those that do not touch the function are
listed apart, each once, nearer ones first and in increasing order where they are equally near. The
other calls around it are those by its callers and those of its callees. -/
theorem surroundings_complete {t : SourceTree} {filter : PathFilter} {file name : String}
    {f : Findings} (h : (Structure.analyze t filter file name).reply = .answer (.ok f.structural)) :
    (∀ e, e ∈ f.surroundings.indirectEdges ↔
        f.structural.graph.Around f.surroundings.targetId e ∧
          e.caller ≠ f.surroundings.targetId ∧ e.callee ≠ f.surroundings.targetId) ∧
      f.surroundings.indirectEdges.Nodup ∧
      f.surroundings.indirectEdges.Pairwise
        (f.structural.graph.Precedes f.surroundings.targetId) ∧
      ∀ e, f.structural.graph.Around f.surroundings.targetId e ↔
        e ∈ f.surroundings.indirectEdges ∨
          (∃ caller ∈ f.surroundings.upstream, e = ⟨caller, f.surroundings.targetId⟩) ∨
            ∃ callee ∈ f.surroundings.downstream, e = ⟨f.surroundings.targetId, callee⟩ := by
  obtain ⟨m⟩ := Structure.nonempty_assembly h
  have hgraph : f.structural.graph.WellFormed := m.wellFormed
  have htarget : f.structural.targetId ∈ f.structural.graph.nodes := m.targetId_mem_nodes
  simp only [surroundings, m.upstream_eq, m.downstream_eq]
  exact ⟨fun e => hgraph.mem_indirectEdges.trans (and_iff_right htarget),
    hgraph.nodup_indirectEdges _, hgraph.pairwise_indirectEdges _,
    fun e => hgraph.around_iff htarget⟩

/-! ### A function in the middle of a graph -/

/-- A file in which some functions call each other and some themselves. -/
def sampleWebText : String :=
  String.join
    ["package p\n", "func a() \x7b a() \x7d\n", "func b() \x7b a(); b(); t() \x7d\n",
      "func t() \x7b b() \x7d\n", "func x() \x7b x() \x7d\n"]

def sampleWeb : SourceTree :=
  .workingTree (Place.root (.directory [("r", .directory
    [("a.go", .file (some sampleWebText))])])) "/r"

/-- The calls that are found, and what is told about a function of which only the structure is
known. -/
def sampleTold : Reply VcsError (Except AnalysisError Structure.Analysis) →
    Option (List CallEdge × Synthesis.Surroundings)
  | .answer (.ok a) => some (a.graph.edges, surroundings ⟨default, a, [], []⟩)
  | _ => none

theorem told_sampleWeb :
    sampleTold (Structure.analyze sampleWeb ⟨none, []⟩ "a.go" "t").reply =
      some
        ([⟨"a.go::a", "a.go::a"⟩, ⟨"a.go::b", "a.go::a"⟩, ⟨"a.go::b", "a.go::b"⟩,
          ⟨"a.go::b", "a.go::t"⟩, ⟨"a.go::t", "a.go::b"⟩, ⟨"a.go::x", "a.go::x"⟩],
        { targetId := "a.go::t", signature := "func t()"
          upstream := ["a.go::b"], downstream := ["a.go::b"], impactSize := 2
          indirectEdges := [⟨"a.go::b", "a.go::b"⟩, ⟨"a.go::a", "a.go::a"⟩,
            ⟨"a.go::b", "a.go::a"⟩] }) := by
  decide +kernel

/-- The calls of a function by itself come as well, the nearer one first though it is not the first
by name; what is not connected does not come. -/
theorem surroundings_complete_web :
    ∃ a, (Structure.analyze sampleWeb ⟨none, []⟩ "a.go" "t").reply = .answer (.ok a) ∧
      a.graph.Precedes "a.go::t" ⟨"a.go::b", "a.go::b"⟩ ⟨"a.go::a", "a.go::a"⟩ ∧
      a.graph.Around "a.go::t" ⟨"a.go::a", "a.go::a"⟩ ∧
      ⟨"a.go::x", "a.go::x"⟩ ∈ a.graph.edges ∧
      ¬a.graph.Around "a.go::t" ⟨"a.go::x", "a.go::x"⟩ := by
  have htold := told_sampleWeb
  rcases hreply : (Structure.analyze sampleWeb ⟨none, []⟩ "a.go" "t").reply with (e | a) | e | _ <;>
    rw [hreply] at htold
  · cases htold
  · obtain ⟨hedges, hsurroundings⟩ := Prod.mk.inj (Option.some.inj htold)
    obtain ⟨hmem, -, horder, haround⟩ :=
      surroundings_complete (f := ⟨default, a, [], []⟩) hreply
    rw [hsurroundings] at hmem horder haround
    refine ⟨a, rfl, ?_, ((hmem _).mp (by simp)).1, by rw [hedges]; simp, fun hx => ?_⟩
    · exact (List.pairwise_cons.mp horder).1 _ (by simp)
    · simpa using (haround _).mp hx
  · cases htold
  · cases htold

end Analysis.Findings

end Dossier
