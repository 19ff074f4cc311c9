import Dossier.Analysis.Run
import Dossier.Proofs.Time.Instant

/-!
# What the stages of a request come to

One statement for each step of a request, so that nobody has to look into a step again. A
record is found in the store when it is there and fresh. A structure is found, or the request
is refused. What is found becomes a *draft*, the record as it is handed to the store, unless
the request is cancelled on the way, or the model or a store of artifacts does not return; and
the store of records changes by the draft and by nothing else.

The draft says about the code what the structure said. These are its `Figures`: everything in
a record that hangs on the source alone, and on nobody else.
-/

namespace Dossier

/-- **When an analysis is fresh.** -/
theorem Freshness.of_eq_hit {created now : Instant} {stored current : String} {lifetime : Int} :
    Freshness.of created now stored current lifetime = .hit ↔
      stored = current ∧ now.since created < lifetime := by
  rw [Freshness.of]
  split
  · next hne => exact ⟨fun h => absurd h (by simp), fun h => absurd h.1 hne⟩
  · next heq =>
    rw [not_not] at heq
    split
    · next hlt => exact ⟨fun _ => ⟨heq, hlt⟩, fun _ => rfl⟩
    · next hge => exact ⟨fun h => absurd h (by simp), fun h => absurd h.2 hge⟩

end Dossier

namespace Dossier.Analysis

/-! ### What a record says about the code -/

/-- What an analysis reads off the source alone: the neighbours of the function in the call
graph, and the figures that no history enters. -/
structure Figures where
  dependencies : Dependencies
  complexity : Nat
  codeLines : Nat
  parameters : Nat
  callSites : Nat
deriving DecidableEq

/-- The figures of what the structural stage has found. -/
def Figures.of (a : Structure.Analysis) : Figures where
  dependencies := ⟨a.upstream, a.downstream, a.impact.length⟩
  complexity := Metrics.saturate a.target.complexity
  codeLines := Metrics.saturate a.target.codeLines
  parameters := Metrics.saturate a.target.parameters
  callSites := Metrics.saturate a.upstream.length

/-- The figures that a record holds. -/
def figuresOf (r : Record) : Figures where
  dependencies := r.dependencies
  complexity := r.metrics.complexity
  codeLines := r.metrics.codeLines
  parameters := r.metrics.parameters
  callSites := r.metrics.callSites

/-- Remarks say nothing about the code. -/
@[simp] theorem figuresOf_withRemarks (r : Record) (remarks : List Degradation) :
    figuresOf (withRemarks r remarks) = figuresOf r :=
  rfl

/-! ### What is found in the store -/

/-- A record answers a request when it is read under its key, bears its fingerprint and is
young enough. -/
theorem lookUp_eq_hit {σ : Type} [RecordStore σ] {k : Conditions} {now : Instant} {records : σ}
    {f : FunctionRef} {r : Record} :
    lookUp k now records f = .hit r ↔
      RecordStore.get records f.recordKey = .answer (some r) ∧
        r.function.fingerprint = f.fingerprint ∧ now.since r.createdAt < k.lifetime := by
  unfold lookUp
  constructor
  · intro h
    split at h
    · cases h
    · cases h
    · cases h
    · next found hget =>
      split at h
      · next hfresh =>
        obtain rfl := Lookup.hit.inj h
        exact ⟨hget, Freshness.of_eq_hit.mp hfresh⟩
      · cases h
  · rintro ⟨hget, hfresh⟩
    rw [hget]
    simp only [Freshness.of_eq_hit.mpr hfresh]

/-- A store that returns leaves a request with an answer or without one. -/
theorem get_eq_stall_of_lookUp {σ : Type} [RecordStore σ] {k : Conditions} {now : Instant}
    {records : σ} {f : FunctionRef} (h : lookUp k now records f = .stuck) :
    RecordStore.get records f.recordKey = .stall := by
  unfold lookUp at h
  split at h
  · assumption
  · cases h
  · cases h
  · split at h <;> cases h

/-! ### What is found about a function -/

/-- A structure that the stage has found is what the analysis of the tree has come to. -/
theorem reply_of_structureStage {k : Conditions} {tree : SourceTree} {file function : String}
    {a : Structure.Analysis} (h : structureStage k tree file function = .ok a) :
    (Structure.analyze tree k.filter file function).reply = .answer (.ok a) := by
  unfold structureStage Conditions.finish at h
  split at h
  · next result hresult =>
    split at hresult
    · next hreply =>
      obtain rfl := Except.ok.inj hresult
      rw [hreply, h]
    · cases hresult
    · cases hresult
  · cases h

/-- The stage finds what the analysis of the tree comes to. -/
theorem structureStage_congr {k : Conditions} {tree tree' : SourceTree}
    {file file' function : String}
    (h : Structure.analyze tree k.filter file function =
      Structure.analyze tree' k.filter file' function) :
    structureStage k tree file function = structureStage k tree' file' function := by
  unfold structureStage
  rw [h]

/-- What is found has the structure that the stage has found. -/
theorem structureStage_of_investigate {k : Conditions} {c : Circumstances} {s : Snapshot}
    {f : FunctionRef} {file : String} {remarks : List Degradation} {g : Findings}
    (h : investigate k c s f file remarks = .ok g) :
    structureStage k s.tree file f.functionName = .ok g.structural ∧ g.function = f := by
  unfold investigate at h
  split at h
  · cases h
  · next hs =>
    obtain rfl := Except.ok.inj h
    exact ⟨hs, rfl⟩

/-- A failure that is passed on is the failure of the whole analysis. -/
theorem exists_asUnavailable (e : AnalysisError) :
    ∃ cause, e.asUnavailable = .unavailable cause := by
  cases e <;> exact ⟨_, rfl⟩

/-- Without a structure nothing is found. -/
theorem investigate_of_error {k : Conditions} {c : Circumstances} {s : Snapshot}
    {f : FunctionRef} {file : String} {e : AnalysisError}
    (h : structureStage k s.tree file f.functionName = .error e) (remarks : List Degradation) :
    investigate k c s f file remarks = .error e.asUnavailable := by
  unfold investigate
  rw [h]

/-- With a structure, nothing else can keep something from being found. -/
theorem exists_investigate {k : Conditions} {c : Circumstances} {s : Snapshot}
    {f : FunctionRef} {file : String} {a : Structure.Analysis}
    (h : structureStage k s.tree file f.functionName = .ok a) (remarks : List Degradation) :
    ∃ g, investigate k c s f file remarks = .ok g ∧ g.structural = a := by
  unfold investigate
  rw [h]
  exact ⟨_, rfl, rfl⟩

/-! ### What is done with findings -/

section Findings

variable {σ τ : Type} [RecordStore σ] [ArtifactStore τ]

/-- A record as it is handed to the store: with remarks on the artifacts that could not be
stored, unless their store does not return. -/
def draft? (artifacts : List (ArtifactKind × List UInt8)) (r : Record) (t : τ) : Option Record :=
  (putArtifacts r.function artifacts t).2.map (withRemarks r)

/-- What comes back with a record that was handed to the store. -/
def handedBack (r : Record) : Reply StoreError Unit → Reply AnalysisError Record
  | .answer () => .answer r
  | .failure e => .answer (withRemarks r [⟨.persist, e.text⟩])
  | .stall => .stall

/-- What comes back is the record, with a remark if it could not be stored. -/
theorem handedBack_eq_answer {d r : Record} {stored : Reply StoreError Unit} :
    handedBack d stored = .answer r ↔
      (stored = .answer () ∧ r = d) ∨
        ∃ e, stored = .failure e ∧ r = withRemarks d [⟨.persist, e.text⟩] := by
  rcases stored with _ | e | _
  · constructor
    · exact fun h => Or.inl ⟨rfl, (Reply.answer.inj h).symm⟩
    · rintro (⟨-, rfl⟩ | ⟨e, h, -⟩)
      · rfl
      · cases h
  · constructor
    · exact fun h => Or.inr ⟨e, rfl, (Reply.answer.inj h).symm⟩
    · rintro (⟨h, -⟩ | ⟨e', h, rfl⟩)
      · cases h
      · obtain rfl := Reply.failure.inj h
        rfl
  · constructor
    · exact nofun
    · rintro (⟨h, -⟩ | ⟨e, h, -⟩) <;> cases h

/-- **Storing** changes the store of records by the record that is handed to it and by nothing
else, and gives that record back. -/
theorem persist_spec (artifacts : List (ArtifactKind × List UInt8)) (r : Record)
    (s : Stores σ τ) :
    (persist artifacts r s).1.records =
        (draft? artifacts r s.artifacts).elim s.records (fun d => (RecordStore.put s.records d).1) ∧
      (persist artifacts r s).2 =
        (draft? artifacts r s.artifacts).elim .stall fun d =>
          handedBack d (RecordStore.put s.records d).2 := by
  rw [persist, draft?]
  rcases putArtifacts r.function artifacts s.artifacts with ⟨t, _ | remarks⟩
  · exact ⟨rfl, rfl⟩
  · simp only [Option.map_some, Option.elim_some]
    rcases RecordStore.put s.records (withRemarks r remarks) with ⟨records, _ | _ | _⟩ <;>
      exact ⟨rfl, rfl⟩

/-- The call of the model that a request does not get past, if there is one. -/
def interruption? (k : Conditions) (c : Circumstances) : Option Nat :=
  (List.range (c.asked k).attempts).find? c.endsDuring

/-- The record of what was found, as it is handed to the store. -/
def Findings.draft? (k : Conditions) (c : Circumstances) (f : Findings) (t : τ) : Option Record :=
  if (interruption? k c).isSome then none
  else Analysis.draft? f.artifacts (f.record k (c.asked k) c.createdAt) t

theorem conclude_eq_of_interruption {k : Conditions} {c : Circumstances} {call : Nat}
    (h : interruption? k c = some call) (f : Findings) (s : Stores σ τ) :
    conclude k c f s =
      ⟨s, c.replyDuring call, call + 1, some (f.prompt k),
        [.cache, .history, .structure, .synthesis]⟩ := by
  rw [interruption?] at h
  rw [conclude, h]

theorem conclude_eq {k : Conditions} {c : Circumstances} (h : interruption? k c = none)
    (f : Findings) (s : Stores σ τ) :
    conclude k c f s =
      let asked := c.asked k
      let stored := persist f.artifacts (f.record k asked c.createdAt) s
      ⟨stored.1, stored.2, asked.attempts, some (f.prompt k),
        [.cache, .history, .structure, .synthesis, .persist]⟩ := by
  rw [interruption?] at h
  rw [conclude, h]
  rfl

theorem conclude_records (k : Conditions) (c : Circumstances) (f : Findings) (s : Stores σ τ) :
    (conclude k c f s).stores.records =
      (f.draft? k c s.artifacts).elim s.records fun d => (RecordStore.put s.records d).1 := by
  rcases h : interruption? k c with _ | call
  · rw [conclude_eq h, Findings.draft?, h]
    exact (persist_spec _ _ s).1
  · rw [conclude_eq_of_interruption h, Findings.draft?, h]
    rfl

theorem conclude_reply (k : Conditions) (c : Circumstances) (f : Findings) (s : Stores σ τ) :
    (conclude k c f s).reply =
      (interruption? k c).elim
        ((f.draft? k c s.artifacts).elim .stall fun d =>
          handedBack d (RecordStore.put s.records d).2)
        c.replyDuring := by
  rcases h : interruption? k c with _ | call
  · rw [conclude_eq h, Findings.draft?, h]
    exact (persist_spec _ _ s).2
  · rw [conclude_eq_of_interruption h]
    rfl

/-- What comes back from a request that does not get past a call of the model. -/
theorem replyDuring_eq (c : Circumstances) (call : Nat) :
    c.replyDuring call = .failure .cancelled ∨ c.replyDuring call = .stall := by
  unfold Circumstances.replyDuring
  split
  · exact Or.inl rfl
  · exact Or.inr rfl

/-- A request that finds a structure is not refused, whatever comes of it. -/
theorem conclude_ne_unavailable (k : Conditions)
    (c : Circumstances) (f : Findings) (s : Stores σ τ) (cause : AnalysisError) :
    (conclude k c f s).reply ≠ .failure (.unavailable cause) := by
  rw [conclude_reply]
  rcases interruption? k c with _ | call
  · rcases f.draft? k c s.artifacts with _ | d
    · simp
    · rw [Option.elim_none, Option.elim_some]
      rcases (RecordStore.put s.records d).2 with _ | _ | _ <;> simp [handedBack]
  · rcases replyDuring_eq c call with h | h <;> simp [h]

/-- No record is handed to the store by a request that does not get past the model. -/
theorem interruption?_of_draft? {k : Conditions} {c : Circumstances} {f : Findings} {t : τ}
    {r : Record} (h : f.draft? k c t = some r) : interruption? k c = none := by
  rw [Findings.draft?] at h
  split at h
  · cases h
  · next hn => simpa using hn

/-- **A record that is handed to the store** is what was found and what the model made of it, with
remarks on the artifacts that could not be stored. -/
theorem exists_of_draft? {k : Conditions} {c : Circumstances} {f : Findings} {t : τ} {r : Record}
    (h : f.draft? k c t = some r) :
    ∃ stored, (putArtifacts f.function f.artifacts t).2 = some stored ∧
      r = withRemarks (f.record k (c.asked k) c.createdAt) stored := by
  rw [Findings.draft?] at h
  split at h
  · exact absurd h (by simp)
  · obtain ⟨stored, hstored, rfl⟩ := Option.map_eq_some_iff.mp h
    exact ⟨stored, hstored, rfl⟩

/-- A record that is handed to the store is about the function that was looked into, bears
the time at which it was made, and holds the figures that were found. -/
theorem draft?_eq_some {k : Conditions} {c : Circumstances} {f : Findings} {t : τ} {r : Record}
    (h : f.draft? k c t = some r) :
    r.function = f.function ∧ r.createdAt = c.createdAt ∧
      figuresOf r = Figures.of f.structural := by
  obtain ⟨stored, -, rfl⟩ := exists_of_draft? h
  exact ⟨rfl, rfl, rfl⟩

/-- **Artifacts are given up at one whose store does not return.** All before it have been put, with
or without success. -/
theorem exists_stalled_of_putArtifacts {f : FunctionRef}
    {artifacts : List (ArtifactKind × List UInt8)} {t : τ}
    (h : (putArtifacts f artifacts t).2 = none) :
    ∃ before kind content after, artifacts = before ++ (kind, content) :: after ∧
      (putArtifacts f before t).2.isSome ∧
      (ArtifactStore.put (putArtifacts f before t).1
        (.ofContent f.repositoryId kind f.key content) content).2 = .stall := by
  induction artifacts generalizing t with
  | nil => cases h
  | cons artifact rest ih =>
    obtain ⟨kind, content⟩ := artifact
    rcases hput : ArtifactStore.put t (.ofContent f.repositoryId kind f.key content) content with
      ⟨t', _ | e | _⟩
    · -- The store has taken the artifact, so it is a later one.
      have hstep (artifacts : List (ArtifactKind × List UInt8)) :
          putArtifacts f ((kind, content) :: artifacts) t = putArtifacts f artifacts t' := by
        rw [putArtifacts, hput]
      rw [hstep] at h
      obtain ⟨before, kind', content', after, rfl, hsome, hstalls⟩ := ih h
      exact ⟨(kind, content) :: before, kind', content', after, rfl, by rwa [hstep],
        by rwa [hstep]⟩
    · -- The store has refused it, which leaves a remark and no more.
      have hstep (artifacts : List (ArtifactKind × List UInt8)) :
          (putArtifacts f ((kind, content) :: artifacts) t).1 = (putArtifacts f artifacts t').1 ∧
            (putArtifacts f ((kind, content) :: artifacts) t).2.isSome =
              (putArtifacts f artifacts t').2.isSome := by
        simp only [putArtifacts, hput, Option.isSome_map, and_self]
      have hnone : (putArtifacts f rest t').2 = none := by
        rw [← Option.not_isSome_iff_eq_none, ← (hstep rest).2, h]
        decide
      obtain ⟨before, kind', content', after, rfl, hsome, hstalls⟩ := ih hnone
      exact ⟨(kind, content) :: before, kind', content', after, rfl, by rwa [(hstep before).2],
        by rwa [(hstep before).1]⟩
    · exact ⟨[], kind, content, rest, rfl, rfl, congrArg Prod.snd hput⟩

/-- A request that gets past the model hands a record to the store, or one of its artifacts is not
put in the end. -/
theorem putArtifacts_of_draft?_eq_none {k : Conditions} {c : Circumstances}
    (h : interruption? k c = none) {f : Findings} {t : τ} (hd : f.draft? k c t = none) :
    (putArtifacts f.function f.artifacts t).2 = none := by
  rw [Findings.draft?, h, if_neg (by simp), Analysis.draft?] at hd
  exact Option.map_eq_none_iff.mp hd

/-- A request that gets past the model, and whose artifacts are stored or not, hands a record to
the store. -/
theorem exists_draft?
    (hput : ∀ (t : τ) key content, (ArtifactStore.put t key content).2 ≠ .stall) {k : Conditions}
    {c : Circumstances} (h : interruption? k c = none) (f : Findings) (t : τ) :
    ∃ r, f.draft? k c t = some r := by
  rw [← Option.ne_none_iff_exists']
  intro hd
  obtain ⟨_, _, _, _, -, -, hstalls⟩ :=
    exists_stalled_of_putArtifacts (putArtifacts_of_draft?_eq_none h hd)
  exact hput _ _ _ hstalls

end Findings

end Dossier.Analysis
