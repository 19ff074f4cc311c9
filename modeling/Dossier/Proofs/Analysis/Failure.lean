import Dossier.Proofs.Analysis.Commits
import Dossier.Proofs.Structure.Causes

/-!
# When a request fails

Five stages may go wrong, and the version control, the model and two stores may fail or not
return at each of them. A request that is not cancelled fails for one reason all the same:
nothing in the store answers it, and it finds no structure
(`Dossier.Analysis.fails_iff_no_structure`). The failure then names the cause of the structural
stage and wraps it once, the model has not been called, and both stores are as they were.

Whoever does not return is another matter. A version control that does not return makes a stage
take too long, which is a failure like any other. For the model and the stores there is no such
limit, and a request that waits for one of them comes back with nothing at all, neither an answer
nor a failure.
-/

namespace Dossier.Analysis

variable {σ τ : Type} {k : Conditions}

namespace Occasion

/-- Whether nobody cancels a request. -/
structure Uncancelled (o : Occasion σ τ) : Prop where
  before : o.circumstances.cancelled = false
  during : ∀ call, o.circumstances.cancelledDuring call = false

/-- **Whether a request misses**: it has looked for a record, and found none that answers it. -/
def Misses (k : Conditions) (o : Occasion σ τ) (s : Stores σ τ) : Prop :=
  ∃ remarks, o.lookUp k s = .miss remarks

variable {o : Occasion σ τ} {s : Stores σ τ}

theorem Undisturbed.uncancelled (hu : o.Undisturbed) : o.Uncancelled :=
  ⟨hu.notCancelled, hu.notInterrupted⟩

/-- **When a request misses**: its store of records returns, and the request is not answered from
it. -/
theorem misses_iff (hc : o.circumstances.cancelled = false) :
    o.Misses k s ↔
      o.recordStore.get s.records (o.key k) ≠ .stall ∧ ∀ r, ¬o.Hits k s r := by
  constructor
  · rintro ⟨remarks, hl⟩
    refine ⟨fun hstall => ?_, fun r hr => ?_⟩
    · unfold lookUp Analysis.lookUp at hl
      unfold key at hstall
      rw [hstall] at hl
      cases hl
    · cases hl.symm.trans hr.lookUp
  · rintro ⟨hget, hhits⟩
    rcases hl : o.lookUp k s with r | remarks | _
    · exact absurd ⟨hc, hl⟩ (hhits r)
    · exact ⟨remarks, hl⟩
    · exact absurd (@get_eq_stall_of_lookUp σ o.recordStore _ _ _ _ hl) hget

/-! ### Without a structure -/

/-- A request finds no structure for a cause of the structural stage. -/
theorem isStructural_of_structural {cause : AnalysisError} (h : o.structural k = .error cause) :
    cause.IsStructural := by
  unfold structural structureStage Conditions.finish at h
  split at h
  · next result hresult =>
    obtain rfl := h
    -- The analysis comes back, or the time that the stage may take is over.
    split at hresult
    · next found hreply =>
      obtain rfl := Except.ok.inj hresult
      exact Structure.isStructural_of_analyze hreply
    · cases hresult
    · cases hresult
  · next e hresult =>
    obtain rfl := Except.error.inj h
    split at hresult
    · cases hresult
    · next failure hreply => exact absurd hreply (Structure.neverFails_analyze failure)
    · obtain rfl := Except.error.inj hresult
      rfl

/-- A request that misses and finds no structure fails for that cause, and has done nothing. -/
theorem outcome_of_structural_error {cause : AnalysisError}
    (hc : o.circumstances.cancelled = false) (hm : o.Misses k s)
    (hs : o.structural k = .error cause) :
    o.outcome k s =
      ⟨s, .failure (.unavailable cause), 0, none, [.cache, .history, .structure]⟩ := by
  obtain ⟨remarks, hl⟩ := hm
  rw [outcome_of_refused hc hl (findings_of_structural_error hs remarks),
    (isStructural_of_structural hs).asUnavailable]

/-! ### With a structure -/

/-- The store of artifacts after some of those that a request has found, if it has returned for all
of them. -/
def storedArtifacts? (o : Occasion σ τ) (s : Stores σ τ) (f : Findings)
    (before : List (ArtifactKind × List UInt8)) : Option τ :=
  let stored := @putArtifacts τ o.artifactStore f.function before s.artifacts
  stored.2.map fun _ => stored.1

/-- **Whether somebody keeps a request waiting** that is not the version control: a call of the
model does not return that the request comes to, or a store does not that it writes to. -/
inductive KeptWaiting (k : Conditions) (o : Occasion σ τ) (s : Stores σ τ) : Prop
  | model (call : Nat) (made : call < (o.circumstances.asked k).attempts)
      (stalls : o.circumstances.modelStalls call = true)
  | artifacts (remarks : List Degradation) (f : Findings) (kind : ArtifactKind)
      (content : List UInt8) (before after : List (ArtifactKind × List UInt8)) (t : τ)
      (misses : o.lookUp k s = .miss remarks) (finds : o.findings k remarks = .ok f)
      (narrated : ∀ call < (o.circumstances.asked k).attempts,
        o.circumstances.modelStalls call = false)
      (keeps : f.artifacts = before ++ (kind, content) :: after)
      (stored : o.storedArtifacts? s f before = some t)
      (stalls : (o.artifactStore.put t
        (.ofContent f.function.repositoryId kind f.function.key content) content).2 = .stall)
  | records (r : Record) (made : o.made? k s = some r)
      (stalls : (o.recordStore.put s.records r).2 = .stall)

theorem Undisturbed.not_keptWaiting (hu : o.Undisturbed) : ¬o.KeptWaiting k s
  | .model call _ h => Bool.false_ne_true ((hu.model call).symm.trans h)
  | .artifacts _ _ _ _ _ _ _ _ _ _ _ _ h => hu.putArtifact _ _ _ h
  | .records r _ h => hu.put s.records r h

/-- **Whether a request answers with some figures**, unless it is kept waiting. -/
def AnswersWith (k : Conditions) (o : Occasion σ τ) (s : Stores σ τ) (figures : Figures) : Prop :=
  (∃ r, (o.outcome k s).reply = .answer r ∧ figuresOf r = figures) ∨
    ((o.outcome k s).reply = .stall ∧ o.KeptWaiting k s)

theorem AnswersWith.reply_ne_failure {figures : Figures} (h : o.AnswersWith k s figures)
    (e : AnalysisError) : (o.outcome k s).reply ≠ .failure e := by
  rcases h with ⟨r, hr, -⟩ | ⟨hstall, -⟩
  · rw [hr]
    exact nofun
  · rw [hstall]
    exact nofun

theorem AnswersWith.exists_answer {figures : Figures} (h : o.AnswersWith k s figures)
    (hu : o.Undisturbed) : ∃ r, (o.outcome k s).reply = .answer r ∧ figuresOf r = figures :=
  h.resolve_right fun ⟨_, hwait⟩ => hu.not_keptWaiting hwait

/-- **A request that finds a structure answers with it**, whatever everyone else does, unless it
is cancelled or kept waiting. -/
theorem answersWith_of_structural {a : Structure.Analysis} (hu : o.Uncancelled)
    (hm : o.Misses k s) (hs : o.structural k = .ok a) : o.AnswersWith k s (.of a) := by
  obtain ⟨remarks, hl⟩ := hm
  obtain ⟨f, hf, rfl⟩ := exists_findings hs remarks
  rcases hi : interruption? k o.circumstances with _ | call
  · -- It gets past the model, and there is a record to store unless the artifacts take for ever.
    rcases hd : @Findings.draft? τ o.artifactStore k o.circumstances f s.artifacts with _ | d
    · right
      rw [outcome_of_findings hu.before hl hf, @conclude_reply σ τ o.recordStore o.artifactStore,
        hi, hd]
      refine ⟨rfl, ?_⟩
      obtain ⟨before, kind, content, after, hartifacts, hsome, hstalls⟩ :=
        @exists_stalled_of_putArtifacts τ o.artifactStore _ _ _
          (@putArtifacts_of_draft?_eq_none τ o.artifactStore _ _ hi _ _ hd)
      obtain ⟨_, hstored⟩ := Option.isSome_iff_exists.mp hsome
      refine .artifacts remarks f kind content before after _ hl hf (fun call hcall => ?_)
        hartifacts (congrArg (Option.map _) hstored) hstalls
      have hends := List.find?_eq_none.mp hi call (List.mem_range.mpr hcall)
      rw [Circumstances.endsDuring, hu.during call, Bool.false_or] at hends
      exact Bool.eq_false_of_not_eq_true hends
    · have hmade := made?_eq_some_iff.mpr ⟨hu.before, remarks, f, hl, hf, hd⟩
      obtain ⟨-, -, hfigures⟩ := @draft?_eq_some τ o.artifactStore _ _ _ _ _ hd
      unfold AnswersWith
      rw [outcome_reply_of_made hmade]
      rcases hput : (o.recordStore.put s.records d).2 with _ | e | _
      · exact Or.inl ⟨d, rfl, hfigures⟩
      · exact Or.inl ⟨withRemarks d [⟨.persist, e.text⟩], rfl, hfigures⟩
      · exact Or.inr ⟨rfl, .records d hmade hput⟩
  · -- A call of the model does not return, since nobody cancels the request.
    right
    have hends := List.find?_some hi
    rw [Circumstances.endsDuring, hu.during call, Bool.false_or] at hends
    rw [outcome_of_findings hu.before hl hf,
      @conclude_eq_of_interruption σ τ o.recordStore o.artifactStore k o.circumstances call hi]
    refine ⟨?_, .model call (List.mem_range.mp (List.mem_of_find?_eq_some hi)) hends⟩
    rw [Circumstances.replyDuring, hu.during call]
    rfl

/-- A request that finds a structure waits for ever if the store never takes a record from it. -/
theorem reply_eq_stall {a : Structure.Analysis} (hu : o.Uncancelled) (hm : o.Misses k s)
    (hs : o.structural k = .ok a)
    (hput : ∀ r, o.made? k s = some r → (o.recordStore.put s.records r).2 = .stall) :
    (o.outcome k s).reply = .stall := by
  rcases answersWith_of_structural hu hm hs with ⟨r, hr, -⟩ | ⟨hstall, -⟩
  · obtain ⟨remarks, hl⟩ := hm
    obtain ⟨made, hmade, hback⟩ := exists_made_of_answer hu.before hl hr
    rw [hput made hmade] at hback
    cases hback
  · exact hstall

/-- A request that gets no further than a call of the model comes back as the call leaves it. -/
theorem reply_of_interruption {a : Structure.Analysis} {call : Nat}
    (hc : o.circumstances.cancelled = false) (hm : o.Misses k s) (hs : o.structural k = .ok a)
    (hi : interruption? k o.circumstances = some call) :
    (o.outcome k s).reply = o.circumstances.replyDuring call := by
  obtain ⟨remarks, hl⟩ := hm
  obtain ⟨f, hf, -⟩ := exists_findings hs remarks
  rw [outcome_of_findings hc hl hf,
    @conclude_eq_of_interruption σ τ o.recordStore o.artifactStore k o.circumstances call hi]

end Occasion

/-- **A request fails for want of a structure, and for nothing else.** Unless it is cancelled, it
fails exactly if it misses and the structural stage fails. It then fails with the cause of that
stage, wrapped once, has not called the model, and leaves both stores as they were. And as long as
nobody keeps it waiting, it answers exactly if it is answered from the store or finds a structure,
whatever else fails. -/
theorem fails_iff_no_structure (k : Conditions) {o : Occasion σ τ} (s : Stores σ τ)
    (hu : o.Uncancelled) :
    ((∃ e, (o.outcome k s).reply = .failure e) ↔
        o.Misses k s ∧ ∃ cause, o.structural k = .error cause) ∧
      (∀ e, (o.outcome k s).reply = .failure e →
        ∃ cause, o.structural k = .error cause ∧ e = .unavailable cause ∧ cause.IsStructural ∧
          (o.outcome k s).modelCalls = 0 ∧ (o.outcome k s).stores = s) ∧
      (o.Undisturbed →
        ((∃ r, (o.outcome k s).reply = .answer r) ↔
          (∃ r, o.Hits k s r) ∨ ∃ a, o.structural k = .ok a)) := by
  rcases hl : o.lookUp k s with found | remarks | _
  · -- The request is answered from the store.
    have hits : o.Hits k s found := ⟨hu.before, hl⟩
    rw [Occasion.outcome_of_hits hits]
    refine ⟨⟨nofun, ?_⟩, nofun, fun _ => ⟨fun _ => Or.inl ⟨found, hits⟩, fun _ => ⟨found, rfl⟩⟩⟩
    rintro ⟨⟨remarks, hm⟩, -⟩
    cases hm.symm.trans hl
  · have hm : o.Misses k s := ⟨remarks, hl⟩
    have hnone : ¬∃ r, o.Hits k s r := fun ⟨r, hr⟩ => ((Occasion.misses_iff hu.before).mp hm).2 r hr
    rcases hs : o.structural k with cause | a
    · -- It finds no structure.
      rw [Occasion.outcome_of_structural_error hu.before hm hs]
      refine ⟨⟨fun _ => ⟨hm, cause, rfl⟩, fun _ => ⟨_, rfl⟩⟩, ?_, fun _ => ⟨nofun, ?_⟩⟩
      · intro e he
        obtain rfl := Reply.failure.inj he
        exact ⟨cause, rfl, rfl, Occasion.isStructural_of_structural hs, rfl, rfl⟩
      · rintro (hit | ⟨a, ha⟩)
        · exact absurd hit hnone
        · cases ha
    · -- It finds one.
      have hanswers := Occasion.answersWith_of_structural hu hm hs
      have hne := hanswers.reply_ne_failure
      refine ⟨⟨fun ⟨e, he⟩ => absurd he (hne e), ?_⟩, fun e he => absurd he (hne e), fun hu' => ?_⟩
      · rintro ⟨-, cause, hcause⟩
        cases hcause
      · obtain ⟨r, hr, -⟩ := hanswers.exists_answer hu'
        exact ⟨fun _ => Or.inr ⟨a, rfl⟩, fun _ => ⟨r, hr⟩⟩
  · -- It does not come back.
    rw [Occasion.outcome_of_stuck hu.before hl]
    refine ⟨⟨nofun, ?_⟩, nofun, fun hu' => ?_⟩
    · rintro ⟨⟨remarks, hm⟩, -⟩
      cases hm.symm.trans hl
    · exact absurd (@get_eq_stall_of_lookUp σ o.recordStore _ _ _ _ hl) (hu'.get _ _)

/-! ### A request that is on its own

Everyone fails who can be asked: the version control, the model and both stores. Only the working
tree is there. -/

/-- Why a store refuses everything. -/
def sampleRefusal : StoreError :=
  .unavailable "connection refused"

/-- A store of records that can neither be read nor written. -/
@[reducible] def sampleShutRecords : RecordStore MemoryStore where
  get _ _ := .failure sampleRefusal
  put s _ := (s, .failure sampleRefusal)
  history _ _ _ := .failure sampleRefusal

/-- A store of artifacts that can neither be read nor written. -/
@[reducible] def sampleShutArtifacts : ArtifactStore MemoryArtifacts where
  get _ _ := .failure sampleRefusal
  put s _ _ := (s, .failure sampleRefusal)

/-- A request about a working tree that everyone leaves alone. -/
def sampleAlone (files : List (String × String)) : Occasion MemoryStore MemoryArtifacts :=
  { sampleVisit (fun _ => .failure (.command "log" "no git")) files none 0 with
    recordStore := sampleShutRecords
    artifactStore := sampleShutArtifacts }

theorem undisturbed_sampleAlone (files : List (String × String)) :
    (sampleAlone files).Undisturbed where
  notCancelled := rfl
  notInterrupted _ := rfl
  model _ := rfl
  get _ _ h := by cases h
  put _ _ h := by cases h
  putArtifact _ _ _ h := by cases h

theorem misses_sampleAlone (files : List (String × String))
    (s : Stores MemoryStore MemoryArtifacts) :
    (sampleAlone files).Misses sampleConditions s :=
  ⟨_, rfl⟩

theorem exists_error_sampleAlone :
    ∃ cause, (sampleAlone []).structural sampleConditions = .error cause := by
  have h : ((sampleAlone []).structural sampleConditions).toOption.isSome = false := by
    decide +kernel
  rcases hs : (sampleAlone []).structural sampleConditions with cause | a
  · exact ⟨cause, rfl⟩
  · rw [hs] at h
    cases h

theorem exists_structural_sampleAlone :
    ∃ a, (sampleAlone [("a.go", sampleSource)]).structural sampleConditions = .ok a := by
  have h : ((sampleAlone [("a.go", sampleSource)]).structural
      sampleConditions).toOption.isSome = true := by
    decide +kernel
  rcases hs : (sampleAlone [("a.go", sampleSource)]).structural sampleConditions with cause | a
  · rw [hs] at h
    cases h
  · exact ⟨a, rfl⟩

/-- On its own a request fails without its file, and answers with it. -/
theorem fails_iff_no_structure_alone :
    (∃ cause, ((sampleAlone []).outcome sampleConditions sampleStores).reply =
        .failure (.unavailable cause) ∧
      ((sampleAlone []).outcome sampleConditions sampleStores).stores = sampleStores) ∧
    ∃ r, ((sampleAlone [("a.go", sampleSource)]).outcome sampleConditions sampleStores).reply =
      .answer r := by
  constructor
  · have hu := (undisturbed_sampleAlone []).uncancelled
    have hm := misses_sampleAlone [] sampleStores
    obtain ⟨cause, hs⟩ := exists_error_sampleAlone
    generalize sampleAlone [] = o at *
    obtain ⟨hiff, hcause, -⟩ := fails_iff_no_structure sampleConditions sampleStores hu
    obtain ⟨e, he⟩ := hiff.mpr ⟨hm, cause, hs⟩
    obtain ⟨cause, -, rfl, -, -, hstores⟩ := hcause e he
    exact ⟨cause, he, hstores⟩
  · have hu := undisturbed_sampleAlone [("a.go", sampleSource)]
    obtain ⟨a, hs⟩ := exists_structural_sampleAlone
    generalize sampleAlone [("a.go", sampleSource)] = o at *
    obtain ⟨-, -, hanswer⟩ := fails_iff_no_structure sampleConditions sampleStores hu.uncancelled
    exact (hanswer hu).mpr (Or.inr ⟨a, hs⟩)

end Dossier.Analysis
