import Dossier.Proofs.Analysis.Failure
import Dossier.Proofs.Analysis.WorkingTree

/-!
# What an answer about the working tree does not hang on

Two requests for the same function of the same working tree, neither of which is answered from a
store, may meet quite different people: one finds everything in order, the other a version control
that fails, stores that cannot be written and no model. What they find out about the code is the
same (`Dossier.Analysis.figures_agree`). Either both fail, for one cause, or their answers have
the same figures.

The working tree is read without the version control, so there are only two things to see: the
structural stage hangs on nothing but the files, and nothing that happens later reaches the
figures. An answer that does not come is all that somebody else can bring about: neither a call of
the model nor a write to a store has a limit to its time, and a request that waits for one which
does not return is never answered (`Dossier.Analysis.one_unanswered`).
-/

namespace Dossier.Analysis

variable {σ σ' τ τ' : Type} {k : Conditions}

namespace Occasion

/-- **Whether two requests look at the same working tree**: all files below its root say the same,
and the same files are listed. -/
structure SameWorkingTree (k : Conditions) (o : Occasion σ τ) (o' : Occasion σ' τ') : Prop where
  readText : ∀ path, o.circumstances.files.readText (Path.join o.request.root path) =
    o'.circumstances.files.readText (Path.join o'.request.root path)
  listing : Listing.ofPlace k.filter o.circumstances.files o.request.root =
    Listing.ofPlace k.filter o'.circumstances.files o'.request.root

variable {o : Occasion σ τ} {o' : Occasion σ' τ'}

/-- **Requests about one working tree find the same structure**, or none for the same cause. -/
theorem structural_eq_of_sameWorkingTree (hrequest : o'.request = o.request)
    (hc : o.request.commit = none) (hsame : SameWorkingTree k o o') :
    o.structural k = o'.structural k := by
  have hc' : o'.request.commit = none := by rw [hrequest, hc]
  have hfile : Path.normalize o.file = Path.normalize o'.file := by
    rw [file, file, hrequest]
  rw [structural, structural, tree_of_workingTree hc, tree_of_workingTree hc', hrequest]
  refine structureStage_congr (Structure.analyze_congr ?_ ?_ hfile _)
  · intro path
    have hread := hsame.readText path
    rw [hrequest] at hread
    simp only [SourceTree.read, hread]
  · have hlisting := hsame.listing
    rw [hrequest] at hlisting
    simp only [SourceTree.sourceFiles, hlisting]

end Occasion

/-- **Nobody but the working tree has a say in the figures.** Two uncancelled runs of one request
about one working tree, of which neither is answered from its store, either both fail, for the
same cause of the structural stage, or answer with the same figures. The version control, the
model and the stores may behave in any way, and differently in each run; those that do not return
can keep the answer back, but not change it. -/
theorem figures_agree {o : Occasion σ τ} {o' : Occasion σ' τ'} {s : Stores σ τ}
    {s' : Stores σ' τ'} (hrequest : o'.request = o.request) (hc : o.request.commit = none)
    (hsame : Occasion.SameWorkingTree k o o') (hu : o.Uncancelled) (hu' : o'.Uncancelled)
    (hm : o.Misses k s) (hm' : o'.Misses k s') :
    (∃ cause, cause.IsStructural ∧ (o.outcome k s).reply = .failure (.unavailable cause) ∧
        (o'.outcome k s').reply = .failure (.unavailable cause)) ∨
      ∃ figures, o.AnswersWith k s figures ∧ o'.AnswersWith k s' figures := by
  -- Both runs find one structure or none, and all that follows is a matter of each run.
  have hstructural := Occasion.structural_eq_of_sameWorkingTree hrequest hc hsame
  rcases hs : o.structural k with cause | a
  · left
    have hs' : o'.structural k = .error cause := hstructural ▸ hs
    refine ⟨cause, Occasion.isStructural_of_structural hs, ?_, ?_⟩
    · rw [Occasion.outcome_of_structural_error hu.before hm hs]
    · rw [Occasion.outcome_of_structural_error hu'.before hm' hs']
  · right
    have hs' : o'.structural k = .ok a := hstructural ▸ hs
    exact ⟨.of a, Occasion.answersWith_of_structural hu hm hs,
      Occasion.answersWith_of_structural hu' hm' hs'⟩

/-- A request that is on its own is answered with the figures of one for which all goes well. -/
theorem figures_agree_alone :
    ∃ r r', ((sampleClean 0).outcome sampleConditions sampleStores).reply = .answer r ∧
      ((sampleAlone [("a.go", sampleSource)]).outcome sampleConditions sampleStores).reply =
        .answer r' ∧
      figuresOf r = figuresOf r' := by
  have hu : (sampleClean 0).Undisturbed := undisturbed_sampleVisit _ _ _ _
  have hu' := undisturbed_sampleAlone [("a.go", sampleSource)]
  have hm : (sampleClean 0).Misses sampleConditions sampleStores :=
    Occasion.exists_miss MemoryStore.faithful (fun _ => rfl) hu
  have hm' := misses_sampleAlone [("a.go", sampleSource)] sampleStores
  have hsame : Occasion.SameWorkingTree sampleConditions (sampleClean 0)
      (sampleAlone [("a.go", sampleSource)]) := ⟨fun _ => rfl, rfl⟩
  have hrequest : (sampleAlone [("a.go", sampleSource)]).request = (sampleClean 0).request := rfl
  have hc : (sampleClean 0).request.commit = none := rfl
  obtain ⟨a, hs⟩ := exists_structural_sampleAlone
  generalize sampleClean 0 = o, sampleAlone [("a.go", sampleSource)] = o' at *
  have hne := (Occasion.answersWith_of_structural hu'.uncancelled hm' hs).reply_ne_failure
  rcases figures_agree hrequest hc hsame hu.uncancelled hu'.uncancelled hm hm' with
    ⟨cause, -, -, hfailure⟩ | ⟨figures, hanswers, hanswers'⟩
  · exact absurd hfailure (hne _)
  · obtain ⟨r, hr, rfl⟩ := hanswers.exists_answer hu
    obtain ⟨r', hr', heq⟩ := hanswers'.exists_answer hu'
    exact ⟨r, r', hr, hr', heq.symm⟩

/-! ### A request that is never answered -/

/-- **Whether only one of two requests is answered**, though they are the same request about the
same working tree and none of them is answered from the store. -/
structure OneAnswered (k : Conditions) (o o' : Occasion σ τ) (s : Stores σ τ)
    (reply : Reply AnalysisError Record) : Prop where
  request : o'.request = o.request
  commit : o.request.commit = none
  sameWorkingTree : Occasion.SameWorkingTree k o o'
  misses : o.Misses k s
  misses_other : o'.Misses k s
  answered : ∃ r, (o.outcome k s).reply = .answer r
  reply : (o'.outcome k s).reply = reply

/-- A request about a clean working tree that meets the model, the store of records and the
store of artifacts in some circumstances. -/
def sampleMeeting (c : Circumstances → Circumstances) (i : RecordStore MemoryStore)
    (j : ArtifactStore MemoryArtifacts) : Occasion MemoryStore MemoryArtifacts where
  request := (sampleClean 0).request
  circumstances := c (sampleClean 0).circumstances
  recordStore := i
  artifactStore := j

/-- A model that does not return. -/
def sampleMuteModel (c : Circumstances) : Circumstances :=
  { c with modelStalls := fun _ => true }

/-- A store of records that is written without end. -/
@[reducible] def sampleStuckRecords : RecordStore MemoryStore where
  get s key := .answer (s.get? key)
  put s _ := (s, .stall)
  history s repositoryId function := .answer (s.history repositoryId function)

/-- A store of artifacts that is written without end. -/
@[reducible] def sampleStuckArtifacts : ArtifactStore MemoryArtifacts where
  get s key := .answer (s.get? key)
  put s _ _ := (s, .stall)

/-- Somebody who cancels the request while the model is asked. -/
def sampleInterrupted (c : Circumstances) : Circumstances :=
  { c with cancelledDuring := fun _ => true }

/-- Requests that look at the same working tree as one that is answered. -/
theorem oneAnswered_sampleMeeting {c : Circumstances → Circumstances}
    {i : RecordStore MemoryStore} {j : ArtifactStore MemoryArtifacts}
    {reply : Reply AnalysisError Record}
    (hfiles : (c (sampleClean 0).circumstances).files = (sampleClean 0).circumstances.files)
    (hm : (sampleMeeting c i j).Misses sampleConditions sampleStores)
    (hreply : ((sampleMeeting c i j).outcome sampleConditions sampleStores).reply = reply) :
    OneAnswered sampleConditions (sampleClean 0) (sampleMeeting c i j) sampleStores reply where
  request := rfl
  commit := rfl
  sameWorkingTree := by
    constructor
    · intro path
      rw [sampleMeeting, hfiles]
    · rw [sampleMeeting, hfiles]
  misses := ⟨[], rfl⟩
  misses_other := hm
  answered := by
    obtain ⟨made, hmade⟩ := exists_made_sampleClean
    exact ⟨made, Occasion.outcome_reply_of_made hmade⟩
  reply := hreply

/-- **A request may be left without an answer** that another one about the same working tree gets.
If a call of the model, or a write to one of the stores, does not return, it is never answered, and
if it is cancelled, it fails for that. -/
theorem one_unanswered :
    OneAnswered sampleConditions (sampleClean 0)
        (sampleMeeting sampleMuteModel MemoryStore.instRecordStore
          MemoryArtifacts.instArtifactStore)
        sampleStores .stall ∧
      OneAnswered sampleConditions (sampleClean 0)
        (sampleMeeting id sampleStuckRecords MemoryArtifacts.instArtifactStore)
        sampleStores .stall ∧
      OneAnswered sampleConditions (sampleClean 0)
        (sampleMeeting id MemoryStore.instRecordStore sampleStuckArtifacts)
        sampleStores .stall ∧
      OneAnswered sampleConditions (sampleClean 0)
        (sampleMeeting sampleInterrupted MemoryStore.instRecordStore
          MemoryArtifacts.instArtifactStore)
        sampleStores (.failure .cancelled) := by
  obtain ⟨a, ha⟩ : ∃ a, (sampleClean 0).structural sampleConditions = .ok a := by
    obtain ⟨made, hmade⟩ := exists_made_sampleClean
    obtain ⟨-, -, -, -, a, ha, -⟩ := Occasion.made?_eq_some hmade
    exact ⟨a, ha⟩
  refine ⟨?model, ?records, ?artifacts, ?cancelled⟩
  case model =>
    have hm : (sampleMeeting sampleMuteModel MemoryStore.instRecordStore
        MemoryArtifacts.instArtifactStore).Misses sampleConditions sampleStores := ⟨[], rfl⟩
    refine oneAnswered_sampleMeeting rfl hm ?_
    rw [Occasion.reply_of_interruption rfl hm ha rfl]
    rfl
  case records =>
    have hm : (sampleMeeting id sampleStuckRecords
        MemoryArtifacts.instArtifactStore).Misses sampleConditions sampleStores := ⟨[], rfl⟩
    refine oneAnswered_sampleMeeting rfl hm ?_
    exact Occasion.reply_eq_stall ⟨rfl, fun _ => rfl⟩ hm ha fun _ _ => rfl
  case artifacts =>
    have hm : (sampleMeeting id MemoryStore.instRecordStore
        sampleStuckArtifacts).Misses sampleConditions sampleStores := ⟨[], rfl⟩
    refine oneAnswered_sampleMeeting rfl hm ?_
    refine Occasion.reply_eq_stall ⟨rfl, fun _ => rfl⟩ hm ha fun r hr => ?_
    -- The call graph is stored in any case, so no record is ever made.
    obtain ⟨-, remarks, f, -, -, hd⟩ := Occasion.made?_eq_some_iff.mp hr
    obtain ⟨stored, hstored, -⟩ := @exists_of_draft? _ sampleStuckArtifacts _ _ _ _ _ hd
    obtain ⟨⟨kind, content⟩, rest, hcons⟩ := List.exists_cons_of_ne_nil f.artifacts_ne_nil
    rw [hcons] at hstored
    cases hstored
  case cancelled =>
    have hm : (sampleMeeting sampleInterrupted MemoryStore.instRecordStore
        MemoryArtifacts.instArtifactStore).Misses sampleConditions sampleStores := ⟨[], rfl⟩
    refine oneAnswered_sampleMeeting rfl hm ?_
    rw [Occasion.reply_of_interruption rfl hm ha rfl]
    rfl

end Dossier.Analysis
