import Dossier.Proofs.CallGraph.Reach
import Dossier.Proofs.VersionControl.Inquiry
import Dossier.Structure.Analysis

/-!
# How the structure around a function is put together

A structure that is known has come about in one way (`Dossier.Structure.Assembly`): the file of
the function was read and outlined and the function found in it, the other files were listed and
looked into one by one, and a graph was built of what all of them define. What is said about the
neighbours of the function is read off that graph, which is in order.

Of the tree the structure hangs on the texts of its files and the list of them only, and it sees the
file of the function by its usual path. So trees that read alike have the same structure
(`Dossier.Structure.analyze_congr`).
-/

namespace Dossier.Structure

/-- The functions of the file of the target and of those other files that have an outline. -/
def locatedIn (target : OutlinedFile) (others : List (String × Except String Outline)) :
    List Located :=
  (target :: others.filterMap outlined?).flatMap OutlinedFile.located

/-- **How a structure has come about**: what was read and found on the way to it. -/
structure Assembly (t : SourceTree) (filter : PathFilter) (file name : String) (a : Analysis) where
  source : String
  outline : Outline
  definition : Definition
  /-- The files that are listed. -/
  paths : List String
  /-- What is remarked on the listing. -/
  remarks : List String
  /-- What the other files came to. -/
  others : List (String × Except String Outline)
  /-- All functions, each taken once. -/
  known : List Located
  /-- What is remarked on definitions that were passed over. -/
  ambiguous : List String
  read : (t.read (Path.normalize file)).reply = .answer (.ok source)
  outlined : outlineOf (Path.normalize file) source = .ok outline
  found : target (Path.normalize file) name outline = .ok definition
  listed : (listFiles t filter).reply = .answer (paths, remarks)
  looked : (Inquiry.forAll (outlineOther t)
    (paths.filter fun p => p != Path.normalize file)).reply = .answer others
  surveyed : survey (Located.idOf (Path.normalize file) definition.name)
    (locatedIn ⟨Path.normalize file, outline⟩ others) = .ok (known, ambiguous)
  built : CallGraph.build (known.map Located.site)
    ((⟨Path.normalize file, outline⟩ :: others.filterMap outlined?).flatMap
      (callsOf (.ofSites (known.map Located.site)))) =
      .ok a.graph
  targetId_eq : a.targetId = Located.idOf (Path.normalize file) definition.name
  target_eq : a.target = definition
  upstream_eq : a.upstream = a.graph.upstream a.targetId
  downstream_eq : a.downstream = a.graph.downstream a.targetId
  impact_eq : a.impact = a.graph.impact a.targetId
  notes_eq : a.notes = remarks ++ others.filterMap skipped? ++ ambiguous

variable {t : SourceTree} {filter : PathFilter} {file name : String} {a : Analysis}

/-- A text has an outline if the path tells its language and the rules of that language apply. -/
theorem outlineOf_eq_ok_iff {path source : String} {o : Outline} :
    outlineOf path source = .ok o ↔
      ∃ l, Language.ofPath? path = some l ∧ Outline.ofText l source = .ok o := by
  unfold outlineOf
  rcases Language.ofPath? path with _ | l
  · exact ⟨nofun, fun ⟨_, hl, _⟩ => nomatch hl⟩
  · rw [mapError_eq_ok_iff, Outline.ofSource_eq_ok_iff]
    constructor
    · exact fun ho => ⟨l, rfl, ho⟩
    · rintro ⟨_, ⟨⟩, ho⟩
      exact ho

/-- A structure that is put together is read off the graph of the functions that are known. -/
theorem exists_of_assemble {target : OutlinedFile} {d : Definition} {remarks : List String}
    {others : List (String × Except String Outline)}
    (h : assemble target d remarks others = .ok a) :
    ∃ known ambiguous,
      survey (Located.idOf target.path d.name) (locatedIn target others) = .ok (known, ambiguous) ∧
      CallGraph.build (known.map Located.site)
        ((target :: others.filterMap outlined?).flatMap
          (callsOf (.ofSites (known.map Located.site)))) = .ok a.graph ∧
      a = {
        graph := a.graph
        targetId := Located.idOf target.path d.name
        target := d
        upstream := a.graph.upstream (Located.idOf target.path d.name)
        downstream := a.graph.downstream (Located.idOf target.path d.name)
        impact := a.graph.impact (Located.idOf target.path d.name)
        notes := remarks ++ others.filterMap skipped? ++ ambiguous } := by
  unfold assemble at h
  unfold locatedIn
  dsimp only at h
  rcases hsurvey : survey (Located.idOf target.path d.name)
      ((target :: others.filterMap outlined?).flatMap OutlinedFile.located) with
    conflict | ⟨known, ambiguous⟩ <;> rw [hsurvey] at h
  · cases h
  rcases hbuilt : CallGraph.build (known.map Located.site)
      ((target :: others.filterMap outlined?).flatMap
        (callsOf (.ofSites (known.map Located.site)))) with conflict | graph <;>
    simp only [bind, Except.bind, hbuilt] at h
  · cases h
  · obtain rfl := Except.ok.inj h
    exact ⟨known, ambiguous, rfl, hbuilt, rfl⟩

/-- **Every structure that is known has come about in this way.** -/
theorem nonempty_assembly (h : (analyze t filter file name).reply = .answer (.ok a)) :
    Nonempty (Assembly t filter file name a) := by
  simp only [analyze] at h
  -- There is a structure only if no step on the way to it has failed.
  split at h
  · cases h
  obtain ⟨source, hread, h⟩ := Inquiry.reply_bind_eq_answer.mp h
  rcases source with e | source
  · cases h
  dsimp only at h
  split at h
  · cases h
  next outline houtlined =>
  split at h
  · cases h
  next definition hfound =>
  obtain ⟨⟨paths, remarks⟩, hlisted, h⟩ := Inquiry.reply_bind_eq_answer.mp h
  obtain ⟨others, hlooked, h⟩ := Inquiry.reply_bind_eq_answer.mp h
  rcases hassembled : assemble ⟨Path.normalize file, outline⟩ definition remarks others with
    conflict | a' <;> rw [hassembled] at h
  · cases Reply.answer.inj h
  · obtain rfl := Except.ok.inj (Reply.answer.inj h)
    obtain ⟨known, ambiguous, hsurveyed, hbuilt, heq⟩ := exists_of_assemble hassembled
    rw [heq]
    exact ⟨{
      source, outline, definition, paths, remarks, others, known, ambiguous
      read := hread, outlined := houtlined, found := hfound, listed := hlisted
      looked := hlooked, surveyed := hsurveyed, built := hbuilt
      targetId_eq := rfl, target_eq := rfl, upstream_eq := rfl, downstream_eq := rfl
      impact_eq := rfl, notes_eq := rfl }⟩

namespace Assembly

/-- The graph of a structure is in order. -/
theorem wellFormed (m : Assembly t filter file name a) : a.graph.WellFormed :=
  CallGraph.wellFormed_of_build m.built

/-- The callers of the function are in increasing order. -/
theorem pairwise_upstream (m : Assembly t filter file name a) : a.upstream.Pairwise (· < ·) := by
  rw [m.upstream_eq]
  exact a.graph.pairwise_upstream _

/-- The functions that it calls are in increasing order. -/
theorem pairwise_downstream (m : Assembly t filter file name a) :
    a.downstream.Pairwise (· < ·) := by
  rw [m.downstream_eq]
  exact a.graph.pairwise_downstream _

/-- A change of the function can reach its neighbours. -/
theorem card_neighbours_le (m : Assembly t filter file name a) :
    ((a.upstream ++ a.downstream).toFinset.erase a.targetId).card ≤ a.impact.length := by
  rw [m.upstream_eq, m.downstream_eq, m.impact_eq]
  exact m.wellFormed.card_neighbours_le _

/-- The calls that are made on the way to a structure. -/
theorem calls_eq (m : Assembly t filter file name a) :
    (analyze t filter file name).calls =
      (t.read (Path.normalize file)).calls ++ ((listFiles t filter).calls ++
        (Inquiry.forAll (outlineOther t)
          (m.paths.filter fun p => p != Path.normalize file)).calls) := by
  -- The file has an outline, so the stage does not stop at its language.
  have hlanguage : (Language.ofPath? (Path.normalize file)).isNone = false := by
    obtain ⟨l, hl, -⟩ := outlineOf_eq_ok_iff.mp m.outlined
    rw [hl]
    rfl
  have hlisted := Inquiry.calls_bind m.listed fun listed => do
    let others ← Inquiry.forAll (outlineOther t)
      (listed.1.filter fun p => p != Path.normalize file)
    return (assemble ⟨Path.normalize file, m.outline⟩ m.definition listed.2 others).mapError
      AnalysisError.graphConstruction
  have hlooked := Inquiry.calls_bind m.looked fun others =>
    (pure ((assemble ⟨Path.normalize file, m.outline⟩ m.definition m.remarks others).mapError
      AnalysisError.graphConstruction) : Inquiry (Except AnalysisError Analysis))
  simp only [analyze, hlanguage, Bool.false_eq_true, if_false]
  rw [Inquiry.calls_bind m.read]
  simp only [m.outlined, m.found]
  rw [hlisted, hlooked]
  exact congrArg _ (congrArg _ (List.append_nil _))

end Assembly

/-! ### What a structure hangs on -/

/-- **Trees that read alike have the same structure**, under all ways to write the path. -/
theorem analyze_congr {t t' : SourceTree} {filter : PathFilter} {file file' : String}
    (hread : ∀ path, t.read path = t'.read path)
    (hlist : t.sourceFiles filter = t'.sourceFiles filter)
    (hfile : Path.normalize file = Path.normalize file') (name : String) :
    analyze t filter file name = analyze t' filter file' name := by
  have hother : outlineOther t = outlineOther t' := by
    funext path
    unfold outlineOther
    rw [hread path]
  have hfiles : listFiles t filter = listFiles t' filter := by
    unfold listFiles
    rw [hlist]
  simp only [analyze, hfile, hread, hother, hfiles]

/-- When a structure is known, the file of the function has been read. -/
theorem exists_read_of_analyze {t : SourceTree} {filter : PathFilter} {file name : String}
    {a : Analysis} (h : (analyze t filter file name).reply = .answer (.ok a)) :
    ∃ source, (t.read (Path.normalize file)).reply = .answer (.ok source) := by
  obtain ⟨m⟩ := nonempty_assembly h
  exact ⟨m.source, m.read⟩

end Dossier.Structure
