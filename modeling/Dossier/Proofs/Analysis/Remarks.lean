import Dossier.Proofs.Analysis.Commits
import Dossier.Proofs.Analysis.WorkingTree
import Dossier.Proofs.History.Collection
import Dossier.Proofs.Structure.Notes

/-!
# What a record remarks on

Every stage of a request may leave remarks, and the degradations of a record are the remarks of
all stages, one stage after another. For each stage it is said here which stage its remarks name,
and exactly when there are none: when the store could be read, when the revision is known, when
the history and the tree could be seen, and when the artifacts are stored.
-/

namespace Dossier.Analysis

variable {σ τ : Type} {k : Conditions}

/-! ### The stores -/

section Stores

variable [RecordStore σ] [ArtifactStore τ]

/-- **A request that misses** remarks on a store of records that cannot be read, and on nothing
else. -/
theorem remarks_of_lookUp {now : Instant} {records : σ} {f : FunctionRef}
    {remarks : List Degradation} (h : lookUp k now records f = .miss remarks) :
    (∀ d ∈ remarks, d.stage = .cache) ∧
      (remarks = [] ↔ ∃ found, RecordStore.get records f.recordKey = .answer found) := by
  unfold lookUp at h
  split at h
  · cases h
  · next e hget =>
    obtain rfl := Lookup.miss.inj h
    rw [hget]
    refine ⟨fun d hd => by rw [List.mem_singleton.mp hd], nofun, ?_⟩
    rintro ⟨found, hfound⟩
    cases hfound
  · next hget =>
    obtain rfl := Lookup.miss.inj h
    exact ⟨fun d hd => absurd hd List.not_mem_nil, fun _ => ⟨none, hget⟩, fun _ => rfl⟩
  · next r hget =>
    split at h
    · cases h
    · obtain rfl := Lookup.miss.inj h
      exact ⟨fun d hd => absurd hd List.not_mem_nil, fun _ => ⟨some r, hget⟩, fun _ => rfl⟩

/-- **Whether artifacts are all stored**, one after another. -/
def AllStored (f : FunctionRef) : List (ArtifactKind × List UInt8) → τ → Prop
  | [], _ => True
  | (kind, content) :: rest, t =>
    let key := ArtifactKey.ofContent f.repositoryId kind f.key content
    (ArtifactStore.put t key content).2 = .answer () ∧
      AllStored f rest (ArtifactStore.put t key content).1

/-- In memory there is room for all of them. -/
theorem allStored_memory (f : FunctionRef) (artifacts : List (ArtifactKind × List UInt8))
    (t : MemoryArtifacts) : AllStored f artifacts t := by
  induction artifacts generalizing t with
  | nil => trivial
  | cons artifact rest ih => exact ⟨rfl, ih _⟩

/-- **Storing artifacts** remarks on those that cannot be stored, and on nothing else. -/
theorem remarks_of_putArtifacts {f : FunctionRef} {artifacts : List (ArtifactKind × List UInt8)}
    {t : τ} {remarks : List Degradation} (h : (putArtifacts f artifacts t).2 = some remarks) :
    (∀ d ∈ remarks, d.stage = .persist) ∧ (remarks = [] ↔ AllStored f artifacts t) := by
  induction artifacts generalizing t remarks with
  | nil =>
    obtain rfl := Option.some.inj h
    exact ⟨fun d hd => absurd hd List.not_mem_nil, fun _ => trivial, fun _ => rfl⟩
  | cons artifact rest ih =>
    obtain ⟨kind, content⟩ := artifact
    simp only [putArtifacts] at h
    rw [AllStored]
    split at h
    · cases h
    · next hput =>
      -- The first artifact is stored, and the others say what is remarked on.
      rw [hput]
      obtain ⟨hstage, hnone⟩ := ih h
      exact ⟨hstage, hnone.trans ⟨fun hall => ⟨rfl, hall⟩, And.right⟩⟩
    · next e hput =>
      -- The first one is refused, and its remark stands before theirs.
      rw [hput]
      obtain ⟨later, hlater, rfl⟩ := Option.map_eq_some_iff.mp h
      refine ⟨fun d hd => ?_, fun hnone => absurd hnone (List.cons_ne_nil _ _), ?_⟩
      · rcases List.mem_cons.mp hd with rfl | hd
        · rfl
        · exact (ih hlater).1 d hd
      · rintro ⟨hstored, -⟩
        cases hstored

end Stores

/-! ### The version control -/

/-- **Looking at the working tree** remarks on a head that is not known and on a version control
that does not return. Whether the file could be read at the head is not remarked on. -/
theorem remarks_of_workingTree (k : Conditions) (c : Circumstances) (root path : String) :
    (Snapshot.ofWorkingTree k c root path).remarks = [] ↔
      (c.versionControl .cache).Answers (.resolve "HEAD") ∧
        ∀ call ∈ (Sight.inquiry (c.versionControl .cache) c.files root path).calls,
          c.versionControl .cache call ≠ .stall := by
  rw [Snapshot.ofWorkingTree, Conditions.finish, Sight.inquiry, VersionControl.Answers]
  generalize c.versionControl .cache = v
  -- Each call answers, fails or stalls, and the second is made only after an answer.
  rcases hresolve : v (.resolve "HEAD") with hash | e | _
  · rw [Inquiry.attempt_bind_of_answer hresolve]
    dsimp only
    rcases hshow : v (.showFile hash path) with text | e | _
    · rw [Inquiry.attempt_bind_of_answer hshow]
      simp [Sight.remarks, hresolve, hshow, Pure.pure, Inquiry.pure]
    · rw [Inquiry.attempt_bind_of_failure hshow]
      simp [Sight.remarks, hresolve, hshow, Pure.pure, Inquiry.pure]
    · rw [Inquiry.attempt_bind_of_stall hshow]
      simp [Sight.remarks, Sight.ofError, hshow]
  · rw [Inquiry.attempt_bind_of_failure hresolve]
    simp [Sight.remarks, Pure.pure, Inquiry.pure]
  · rw [Inquiry.attempt_bind_of_stall hresolve]
    simp [Sight.remarks, Sight.ofError]

namespace Occasion

variable {o : Occasion σ τ} {s : Stores σ τ} {r : Record}

/-- The history of the function, as the request finds it. -/
def history (k : Conditions) (o : Occasion σ τ) : Except AnalysisError (List Commit) :=
  historyStage k o.circumstances o.file o.request.function (o.snapshot k).revision

/-- **The calls of the version control that a request makes** at each stage, when the store has no
answer for it. -/
def calls (k : Conditions) (o : Occasion σ τ) : Stage → List VcsCall
  | .cache =>
    match o.request.commit with
    | some commit =>
      (Inquiry.ask (o.circumstances.versionControl .cache) (.resolve commit)).calls
    | none =>
      (Sight.inquiry (o.circumstances.versionControl .cache) o.circumstances.files
        o.request.root o.file).calls
  | .history =>
    (History.collect (o.circumstances.versionControl .history) o.file o.request.function
      (o.snapshot k).revision).calls
  | .structure =>
    (Structure.analyze (o.snapshot k).tree k.filter o.file o.request.function).calls
  | .synthesis | .persist => []

/-- The name of the revision that the request is about. -/
def revisionName (o : Occasion σ τ) : String :=
  o.request.commit.getD "HEAD"

/-- **A snapshot** remarks on a revision that is not known and on a version control that does not
return, and on nothing else. -/
theorem snapshot_remarks_eq_nil_iff :
    (o.snapshot k).remarks = [] ↔
      (o.circumstances.versionControl .cache).Answers (.resolve o.revisionName) ∧
        ∀ call ∈ o.calls k .cache, o.circumstances.versionControl .cache call ≠ .stall := by
  rcases hc : o.request.commit with _ | commit
  · rw [snapshot_of_workingTree hc, remarks_of_workingTree, calls, revisionName, hc]
    rfl
  · rw [snapshot_of_commit hc, Snapshot.ofCommit, Conditions.finish, calls, revisionName, hc]
    simp only [Inquiry.ask, Option.getD_some, List.mem_singleton, forall_eq,
      VersionControl.Answers]
    rcases o.circumstances.versionControl .cache (.resolve commit) with hash | e | _ <;> simp

/-- A snapshot remarks on the history. -/
theorem stage_of_mem_snapshot : ∀ d ∈ (o.snapshot k).remarks, d.stage = .history := by
  rcases hc : o.request.commit with _ | commit
  · rw [snapshot_of_workingTree hc, Snapshot.ofWorkingTree]
    intro d hd
    unfold Sight.remarks at hd
    dsimp only at hd
    split at hd
    · exact absurd hd List.not_mem_nil
    · rw [List.mem_singleton.mp hd]
  · rw [snapshot_of_commit hc, Snapshot.ofCommit]
    intro d hd
    dsimp only at hd
    split at hd
    · exact absurd hd List.not_mem_nil
    · rw [List.mem_singleton.mp hd]

/-- **A history** is remarked on exactly if one of its calls is not answered. -/
theorem historyRemarks_eq_nil_iff :
    historyRemarks (o.history k) = [] ↔
      ∀ call ∈ o.calls k .history, (o.circumstances.versionControl .history).Answers call := by
  refine Iff.trans ?_ History.conclusive_collect
  rw [history, historyStage, Conditions.finish]
  rcases (History.collect (o.circumstances.versionControl .history) o.file o.request.function
    (o.snapshot k).revision).reply with commits | e | _ <;> simp [historyRemarks]

theorem stage_of_mem_historyRemarks :
    ∀ d ∈ historyRemarks (o.history k), d.stage = .history := by
  rcases o.history k with e | commits
  · exact fun d hd => by rw [List.mem_singleton.mp hd]
  · exact fun d hd => absurd hd List.not_mem_nil

/-- Commits that are known are in order, and none are known when the history is not. -/
theorem pairwise_commitsOf : (commitsOf (o.history k)).Pairwise fun a b => a.notAfter b := by
  rw [history, historyStage, Conditions.finish]
  rcases hreply : (History.collect (o.circumstances.versionControl .history) o.file
    o.request.function (o.snapshot k).revision).reply with commits | e | _
  · exact History.pairwise_collect hreply
  · exact .nil
  · exact .nil

/-! ### The record that is made -/

/-- A request that misses remarks on a store that cannot be read, and on nothing else. -/
theorem remarks_of_miss {remarks : List Degradation} (hl : o.lookUp k s = .miss remarks) :
    (∀ d ∈ remarks, d.stage = .cache) ∧
      (remarks = [] ↔ ∃ found, o.recordStore.get s.records (o.key k) = .answer found) :=
  @remarks_of_lookUp σ k o.recordStore o.circumstances.lookedUpAt s.records (o.subject k) remarks hl

/-- **What a request finds**, with the remarks of the stages before in their order. -/
theorem findings_spec {remarks : List Degradation} {f : Findings}
    (h : o.findings k remarks = .ok f) :
    o.structural k = .ok f.structural ∧ f.function = o.subject k ∧
      f.commits = commitsOf (o.history k) ∧
      f.remarks = (o.snapshot k).remarks ++ remarks ++
        f.structural.notes.map (fun note => ⟨.structure, note⟩) ++
          historyRemarks (o.history k) := by
  have hstructural := (structural_of_findings h).1
  unfold findings investigate at h
  split at h
  · cases h
  · obtain rfl := Except.ok.inj h
    exact ⟨hstructural, rfl, rfl, rfl⟩

/-- **The record that a request makes** is what it has found and what the model made of it, with
remarks on the artifacts that could not be stored. -/
theorem exists_of_made (h : o.made? k s = some r) :
    ∃ remarks f stored, o.lookUp k s = .miss remarks ∧ o.findings k remarks = .ok f ∧
      (@putArtifacts τ o.artifactStore f.function f.artifacts s.artifacts).2 = some stored ∧
      r = withRemarks (f.record k (o.circumstances.asked k)
        o.circumstances.createdAt) stored := by
  obtain ⟨-, remarks, f, hl, hf, hr⟩ := made?_eq_some_iff.mp h
  obtain ⟨stored, hstored, rfl⟩ := @exists_of_draft? τ o.artifactStore _ _ _ _ _ hr
  exact ⟨remarks, f, stored, hl, hf, hstored, rfl⟩

end Occasion

end Dossier.Analysis
