import Dossier.Proofs.Analysis.Stages
import Dossier.Proofs.Store.Faithful

/-!
# One request among others

An `Occasion` is a request together with everyone it meets: how the version control, the
model and the clock behave while it is answered, and how the two stores do. The stores
themselves are handed on from one occasion to the next, but how they *behave* belongs to
the occasion, so a store that cannot be read today and can be read tomorrow is the same
store on two occasions.

What a request does to the store of records comes down to one record, or none:
`Dossier.Analysis.Occasion.made?` is the record that is handed to the store, and
`Dossier.Analysis.Occasion.outcome_records` says that nothing else is ever done to it. All
that is known about records in a store is known through
`Dossier.Analysis.Occasion.made?_eq_some`: who made a record looked for one first, did not
find it, and found the structure around the function out for itself.
-/

namespace Dossier.Analysis

/-- **A request and everyone it meets.** -/
structure Occasion (σ τ : Type) where
  request : Request
  circumstances : Circumstances
  /-- How the store of records behaves. -/
  recordStore : RecordStore σ
  /-- How the store of artifacts behaves. -/
  artifactStore : ArtifactStore τ

/-! ### What a request does -/

namespace Occasion

variable {σ τ : Type} (k : Conditions) (o : Occasion σ τ) (s : Stores σ τ)

/-- The file of the request. -/
def file : String :=
  Path.normalize o.request.file

/-- What the request looks at. -/
def snapshot : Snapshot :=
  Snapshot.take k o.circumstances o.request o.file

/-- The function that the request is about. -/
def subject : FunctionRef :=
  functionOf o.circumstances o.request o.file (o.snapshot k)

/-- The key under which the answer is looked for, and under which a new one is stored. -/
def key : RecordKey :=
  (o.subject k).recordKey

/-- What is found in the store. -/
def lookUp : Lookup :=
  @Analysis.lookUp σ o.recordStore k o.circumstances.lookedUpAt s.records (o.subject k)

/-- The structure around the function, as the request finds it. -/
def structural : Except AnalysisError Structure.Analysis :=
  structureStage k (o.snapshot k).tree o.file o.request.function

/-- What the request finds when the store has no answer for it. -/
def findings (remarks : List Degradation) : Except AnalysisError Findings :=
  investigate k o.circumstances (o.snapshot k) (o.subject k) o.file
    ((o.snapshot k).remarks ++ remarks)

/-- **What comes of the request.** -/
def outcome : Outcome σ τ :=
  @analyze σ τ o.recordStore o.artifactStore k o.circumstances o.request s

/-- **The record that the request makes** and hands to the store, if it gets that far. -/
def made? : Option Record :=
  if o.circumstances.cancelled then none
  else
    match o.lookUp k s with
    | .miss remarks =>
      match o.findings k remarks with
      | .error _ => none
      | .ok f => @Findings.draft? τ o.artifactStore k o.circumstances f s.artifacts
    | _ => none

/-- Whether the request is answered from the store, with this record. -/
structure Hits (r : Record) : Prop where
  notCancelled : o.circumstances.cancelled = false
  lookUp : o.lookUp k s = .hit r

theorem subject_functionName : (o.subject k).functionName = o.request.function :=
  rfl

variable {k o s} {r : Record}

/-- **When a request is answered from the store**: a record is read under its key that bears
its fingerprint and is young enough. -/
theorem hits_iff :
    o.Hits k s r ↔
      o.circumstances.cancelled = false ∧
        o.recordStore.get s.records (o.key k) = .answer (some r) ∧
          r.function.fingerprint = (o.snapshot k).fingerprint ∧
            o.circumstances.lookedUpAt.since r.createdAt < k.lifetime := by
  refine ⟨fun ⟨hc, hl⟩ => ⟨hc, ?_⟩, fun ⟨hc, hl⟩ => ⟨hc, ?_⟩⟩
  · exact (@lookUp_eq_hit σ o.recordStore _ _ _ _ _).mp hl
  · exact (@lookUp_eq_hit σ o.recordStore _ _ _ _ _).mpr hl

/-- The record that answers a request is under the key of the request. -/
theorem Hits.held (h : o.Hits k s r) {held : σ → RecordKey → Option Record}
    (hf : Faithful o.recordStore held) : held s.records (o.key k) = some r :=
  (hf.get_eq (hits_iff.mp h).2.1).symm

theorem outcome_of_cancelled (hc : o.circumstances.cancelled = true) :
    o.outcome k s = ⟨s, .failure .cancelled, 0, none, []⟩ := by
  unfold outcome analyze
  rw [if_pos hc]

/-- A request whose store does not return does not return either. -/
theorem outcome_of_stuck (hc : o.circumstances.cancelled = false) (hl : o.lookUp k s = .stuck) :
    o.outcome k s = ⟨s, .stall, 0, none, [.cache]⟩ := by
  unfold lookUp subject snapshot file at hl
  unfold outcome
  simp only [analyze, hc, Bool.false_eq_true, if_false, hl]

/-- **A request that is answered from the store** is answered with the record that is there.
It looks for the record and does nothing else. -/
theorem outcome_of_hits (h : o.Hits k s r) : o.outcome k s = ⟨s, .answer r, 0, none, [.cache]⟩ := by
  obtain ⟨hc, hl⟩ := h
  unfold lookUp subject snapshot file at hl
  unfold outcome
  simp only [analyze, hc, Bool.false_eq_true, if_false, hl]

/-- A request that finds no structure is refused. -/
theorem outcome_of_refused {remarks : List Degradation} {e : AnalysisError}
    (hc : o.circumstances.cancelled = false) (hl : o.lookUp k s = .miss remarks)
    (hf : o.findings k remarks = .error e) :
    o.outcome k s = ⟨s, .failure e, 0, none, [.cache, .history, .structure]⟩ := by
  unfold lookUp at hl
  unfold findings at hf
  unfold subject snapshot file at hl hf
  unfold outcome
  simp only [analyze, hc, Bool.false_eq_true, if_false, hl, hf]

/-- A request that finds a structure goes on to make a record of it. -/
theorem outcome_of_findings {remarks : List Degradation} {f : Findings}
    (hc : o.circumstances.cancelled = false) (hl : o.lookUp k s = .miss remarks)
    (hf : o.findings k remarks = .ok f) :
    o.outcome k s = @conclude σ τ o.recordStore o.artifactStore k o.circumstances f s := by
  unfold lookUp at hl
  unfold findings at hf
  unfold subject snapshot file at hl hf
  unfold outcome
  simp only [analyze, hc, Bool.false_eq_true, if_false, hl, hf]

/-- What a request finds about a function has the structure it finds around it. -/
theorem structural_of_findings {remarks : List Degradation} {f : Findings}
    (h : o.findings k remarks = .ok f) :
    o.structural k = .ok f.structural ∧ f.function = o.subject k := by
  unfold findings at h
  obtain ⟨hs, hf⟩ := structureStage_of_investigate h
  rw [subject_functionName] at hs
  exact ⟨hs, hf⟩

/-- Without a structure nothing is found, and the request is refused. -/
theorem findings_of_structural_error {e : AnalysisError} (h : o.structural k = .error e)
    (remarks : List Degradation) : o.findings k remarks = .error e.asUnavailable := by
  unfold findings
  refine investigate_of_error ?_ _
  rw [subject_functionName]
  exact h

theorem exists_findings {a : Structure.Analysis} (h : o.structural k = .ok a)
    (remarks : List Degradation) : ∃ f, o.findings k remarks = .ok f ∧ f.structural = a := by
  unfold findings
  refine exists_investigate ?_ _
  rw [subject_functionName]
  exact h

/-- What it takes to make a record. -/
theorem made?_eq_some_iff :
    o.made? k s = some r ↔
      o.circumstances.cancelled = false ∧
        ∃ remarks f, o.lookUp k s = .miss remarks ∧ o.findings k remarks = .ok f ∧
          @Findings.draft? τ o.artifactStore k o.circumstances f s.artifacts = some r := by
  rw [made?]
  constructor
  · intro h
    split at h
    · cases h
    · next hc =>
      split at h
      · next remarks hl =>
        split at h
        · cases h
        · next f hf => exact ⟨by simpa using hc, remarks, f, hl, hf, h⟩
      · cases h
  · rintro ⟨hc, remarks, f, hl, hf, hr⟩
    rw [if_neg (by simp [hc]), hl]
    simp only [hf, hr]

/-- **Who makes a record.** It was not cancelled, it did not find an answer in the store, and
what the record says about the code is the structure that it found for itself. -/
theorem made?_eq_some (h : o.made? k s = some r) :
    o.circumstances.cancelled = false ∧ (∃ remarks, o.lookUp k s = .miss remarks) ∧
      r.function = o.subject k ∧ r.createdAt = o.circumstances.createdAt ∧
      ∃ a, o.structural k = .ok a ∧ figuresOf r = Figures.of a := by
  obtain ⟨hc, remarks, f, hl, hf, hr⟩ := made?_eq_some_iff.mp h
  obtain ⟨hs, hfun⟩ := structural_of_findings hf
  obtain ⟨h1, h2, h3⟩ := @draft?_eq_some τ o.artifactStore _ _ _ _ _ hr
  exact ⟨hc, ⟨remarks, hl⟩, h1.trans hfun, h2, f.structural, hs, h3⟩

/-- The record that a request makes is stored under the key of the request. -/
theorem key_of_made (h : o.made? k s = some r) : r.key = o.key k := by
  rw [Record.key, (made?_eq_some h).2.2.1, key]

/-- **A request changes the store of records by the record it makes**, and by nothing else. -/
theorem outcome_records (k : Conditions) (o : Occasion σ τ) (s : Stores σ τ) :
    (o.outcome k s).stores.records =
      (o.made? k s).elim s.records fun r => (o.recordStore.put s.records r).1 := by
  rcases hc : o.circumstances.cancelled
  · rcases hl : o.lookUp k s with d | remarks | _
    · rw [outcome_of_hits ⟨hc, hl⟩, made?, if_neg (by simp [hc]), hl]
      rfl
    · rcases hf : o.findings k remarks with e | f
      · rw [outcome_of_refused hc hl hf, made?, if_neg (by simp [hc]), hl]
        simp only [hf, Option.elim_none]
      · rw [outcome_of_findings hc hl hf, made?, if_neg (by simp [hc]), hl]
        simp only [hf]
        exact @conclude_records σ τ o.recordStore o.artifactStore k o.circumstances f s
    · rw [outcome_of_stuck hc hl, made?, if_neg (by simp [hc]), hl]
      rfl
  · rw [outcome_of_cancelled hc, made?, if_pos hc]
    rfl

/-- A request that makes a record hands it back, with what became of it in the store. -/
theorem outcome_reply_of_made (h : o.made? k s = some r) :
    (o.outcome k s).reply = handedBack r (o.recordStore.put s.records r).2 := by
  obtain ⟨hc, remarks, f, hl, hf, hr⟩ := made?_eq_some_iff.mp h
  have hint := @interruption?_of_draft? τ o.artifactStore _ _ _ _ _ hr
  rw [outcome_of_findings hc hl hf, @conclude_reply σ τ o.recordStore o.artifactStore, hint, hr]
  rfl

/-- A request that makes a record has called the model until a call was the last. -/
theorem outcome_modelCalls_of_made (h : o.made? k s = some r) :
    (o.outcome k s).modelCalls = (o.circumstances.asked k).attempts := by
  obtain ⟨hc, remarks, f, hl, hf, hr⟩ := made?_eq_some_iff.mp h
  rw [outcome_of_findings hc hl hf, @conclude_eq σ τ o.recordStore o.artifactStore _ _
    (@interruption?_of_draft? τ o.artifactStore _ _ _ _ _ hr)]

/-- A request that does not find an answer in the store, and answers nevertheless, has made a
record and hands it back. -/
theorem exists_made_of_answer {remarks : List Degradation}
    (hc : o.circumstances.cancelled = false) (hl : o.lookUp k s = .miss remarks)
    (hr : (o.outcome k s).reply = .answer r) :
    ∃ made, o.made? k s = some made ∧
      handedBack made (o.recordStore.put s.records made).2 = .answer r := by
  rcases hf : o.findings k remarks with e | f
  · rw [outcome_of_refused hc hl hf] at hr
    cases hr
  · -- Without a record only an interruption ends the request, and it does not answer.
    rcases hm : o.made? k s with _ | made
    · have hnone : @Findings.draft? τ o.artifactStore k o.circumstances f s.artifacts = none := by
        by_contra hd
        obtain ⟨d, hd⟩ := Option.ne_none_iff_exists'.mp hd
        rw [made?_eq_some_iff.mpr ⟨hc, remarks, f, hl, hf, hd⟩] at hm
        cases hm
      rw [outcome_of_findings hc hl hf, @conclude_reply σ τ o.recordStore o.artifactStore,
        hnone] at hr
      rcases hi : interruption? k o.circumstances with _ | call <;> rw [hi] at hr
      · cases hr
      · rw [Option.elim_some] at hr
        rcases replyDuring_eq o.circumstances call with h | h <;> rw [h] at hr <;> cases hr
    · exact ⟨made, rfl, (outcome_reply_of_made hm).symm.trans hr⟩

/-! ### Requests that nothing is in the way of -/

/-- **Whether nothing keeps a request from its answer**: nobody cancels it, and the model and the
stores return, if only to fail. -/
structure Undisturbed (o : Occasion σ τ) : Prop where
  notCancelled : o.circumstances.cancelled = false
  notInterrupted : ∀ call, o.circumstances.cancelledDuring call = false
  model : ∀ call, o.circumstances.modelStalls call = false
  get : ∀ s key, o.recordStore.get s key ≠ .stall
  put : ∀ s r, (o.recordStore.put s r).2 ≠ .stall
  putArtifact : ∀ t key content, (o.artifactStore.put t key content).2 ≠ .stall

/-- Stores without records have no answer to a request whose store returns. -/
theorem exists_miss {held : σ → RecordKey → Option Record} (hf : Faithful o.recordStore held)
    (hs : ∀ key, held s.records key = none) (hu : o.Undisturbed) :
    ∃ remarks, o.lookUp k s = .miss remarks := by
  rcases hl : o.lookUp k s with found | remarks | _
  · have hheld := Hits.held ⟨hu.notCancelled, hl⟩ hf
    rw [hs] at hheld
    cases hheld
  · exact ⟨remarks, rfl⟩
  · exact absurd (@get_eq_stall_of_lookUp σ o.recordStore _ _ _ _ hl) (hu.get _ _)

/-- An undisturbed request gets past the model. -/
theorem Undisturbed.interruption?_eq_none (hu : o.Undisturbed) :
    interruption? k o.circumstances = none := by
  rw [interruption?, List.find?_eq_none]
  intro call _
  simp [Circumstances.endsDuring, hu.notInterrupted call, hu.model call]

/-- **An undisturbed request makes a record** when the store has no answer for it and it finds a
structure. -/
theorem exists_made_of_structural {remarks : List Degradation} {a : Structure.Analysis}
    (hu : o.Undisturbed) (hl : o.lookUp k s = .miss remarks) (hs : o.structural k = .ok a) :
    ∃ r, o.made? k s = some r := by
  obtain ⟨f, hf, -⟩ := exists_findings hs remarks
  obtain ⟨d, hd⟩ := @exists_draft? τ o.artifactStore hu.putArtifact k o.circumstances
    hu.interruption?_eq_none f s.artifacts
  exact ⟨d, made?_eq_some_iff.mpr ⟨hu.notCancelled, remarks, f, hl, hf, hd⟩⟩

end Occasion

end Dossier.Analysis
