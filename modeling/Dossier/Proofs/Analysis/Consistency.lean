import Dossier.Proofs.Analysis.Failure
import Dossier.Proofs.Analysis.Remarks
import Dossier.Proofs.Store.Agreement

/-!
# Records that agree with themselves

A record is put together from what four stages have found, and two of its parts are changed
once more before it is stored. Its parts agree all the same (`Dossier.Record.Consistent`): the
figures count what the lists hold, the score is that of the figures, the neighbours are in order
and among those that a change can reach, and there is a remark on the narrative exactly if a
placeholder stands in its place.

This holds of every record that a request makes, whatever everyone else does
(`Dossier.Analysis.consistent_of_answer`), and also of the record that is stored, which is the one
that is answered unless the store refuses it.
-/

namespace Dossier

/-- The remarks of a record on a stage. -/
def Record.remarksOn (r : Record) (stage : Stage) : List Degradation :=
  r.degradations.filter fun d => d.stage = stage

/-- **Whether the parts of a record agree**, given the ranges of the score and the identifier of
the function. -/
structure Record.Consistent (ranges : Ranges Float) (target : String) (r : Record) : Prop where
  /-- Commits are in the order of their times, and of their hashes at one time. -/
  commits : r.commits.Pairwise fun a b =>
    a.timestamp < b.timestamp ∨ (a.timestamp = b.timestamp ∧ a.hash ≤ b.hash)
  modifications : r.metrics.modifications = min r.commits.length Metrics.limit
  callSites : r.metrics.callSites = min r.dependencies.upstream.length Metrics.limit
  upstream : r.dependencies.upstream.Pairwise (· < ·)
  downstream : r.dependencies.downstream.Pairwise (· < ·)
  /-- The neighbours are counted once each, and the function itself is left out. -/
  impact : ((r.dependencies.upstream ++ r.dependencies.downstream).toFinset.erase target).card ≤
    r.dependencies.impactSize
  score : r.score = Stability.score ranges r.metrics
  risk : r.risk = Stability.risk r.score
  /-- Without a narrative, the reason stands in the place of every text and in one remark. -/
  incomplete : ∀ reason, r.synthesis = .incomplete reason ↔
    let marker := "synthesis unavailable: " ++ reason
    r.narrative = ⟨marker, marker, marker⟩ ∧ r.recommendations = [marker] ∧
      r.remarksOn .synthesis = [⟨.synthesis, reason⟩]
  complete : r.synthesis = .complete → r.remarksOn .synthesis = []

namespace Analysis

variable {σ τ : Type} {k : Conditions}

/-! ### Remarks -/

theorem remarksOn_withRemarks_of_ne {r : Record} {remarks : List Degradation} {stage : Stage}
    (h : ∀ d ∈ remarks, d.stage ≠ stage) :
    (withRemarks r remarks).remarksOn stage = r.remarksOn stage := by
  have hnone : remarks.filter (fun d => d.stage = stage) = [] :=
    List.filter_eq_nil_iff.mpr fun d hd => by simpa using h d hd
  rw [Record.remarksOn, withRemarks, List.filter_append, hnone, List.append_nil, Record.remarksOn]

/-- Remarks on other stages than the narrative leave a record as consistent as it is. -/
theorem consistent_withRemarks {ranges : Ranges Float} {target : String} {r : Record}
    (h : r.Consistent ranges target) {remarks : List Degradation}
    (hremarks : ∀ d ∈ remarks, d.stage ≠ .synthesis) :
    (withRemarks r remarks).Consistent ranges target where
  commits := h.commits
  modifications := h.modifications
  callSites := h.callSites
  upstream := h.upstream
  downstream := h.downstream
  impact := h.impact
  score := h.score
  risk := h.risk
  incomplete reason := by
    rw [remarksOn_withRemarks_of_ne hremarks]
    exact h.incomplete reason
  complete hc := by
    rw [remarksOn_withRemarks_of_ne hremarks]
    exact h.complete hc

/-! ### The record of what was found -/

namespace Occasion

variable {o : Occasion σ τ} {s : Stores σ τ} {r : Record}

/-- Nobody but the model is remarked on under the narrative. -/
theorem stage_ne_synthesis {remarks : List Degradation} {f : Findings}
    (hl : o.lookUp k s = .miss remarks) (hf : o.findings k remarks = .ok f) :
    ∀ d ∈ f.remarks, d.stage ≠ .synthesis := by
  obtain ⟨-, -, -, hremarks⟩ := findings_spec hf
  intro d hd hstage
  rw [hremarks] at hd
  simp only [List.mem_append, List.mem_map] at hd
  rcases hd with ((hd | hd) | ⟨note, -, rfl⟩) | hd
  · cases (stage_of_mem_snapshot d hd).symm.trans hstage
  · cases ((remarks_of_miss hl).1 d hd).symm.trans hstage
  · cases hstage
  · cases (stage_of_mem_historyRemarks d hd).symm.trans hstage

/-- The remarks of what was found do not mention the narrative, so the model is remarked on once
or not at all. -/
theorem remarksOn_record {f : Findings} (h : ∀ d ∈ f.remarks, d.stage ≠ .synthesis)
    (k : Conditions) (asked : Synthesis.Asked) (createdAt : Instant) :
    (f.record k asked createdAt).remarksOn .synthesis =
      match asked.status with
      | .complete => []
      | .incomplete reason => [⟨.synthesis, reason⟩] := by
  have hnone : f.remarks.filter (fun d => d.stage = .synthesis) = [] :=
    List.filter_eq_nil_iff.mpr fun d hd => by simpa using h d hd
  rw [Record.remarksOn, Findings.record, List.filter_append, hnone, List.nil_append]
  rcases asked.status with _ | reason <;> rfl

/-- **The record of what was found is consistent.** -/
theorem consistent_record {remarks : List Degradation} {f : Findings}
    (hl : o.lookUp k s = .miss remarks) (hf : o.findings k remarks = .ok f) :
    (f.record k (o.circumstances.asked k) o.circumstances.createdAt).Consistent
      k.ranges f.structural.targetId := by
  obtain ⟨hstructural, -, hcommits, -⟩ := findings_spec hf
  obtain ⟨m⟩ := Structure.nonempty_assembly (reply_of_structureStage hstructural)
  have hreason : (o.circumstances.asked k).GivesReason := Synthesis.givesReason_ask _ _ _
  have hremarks := remarksOn_record (stage_ne_synthesis hl hf) k
  -- Whatever the model says, what is left out comes with its reason.
  generalize o.circumstances.asked k = asked at hreason ⊢
  constructor
  case commits =>
    refine List.pairwise_map.mpr ?_
    rw [hcommits]
    exact pairwise_commitsOf.imp Commit.notAfter_iff.mp
  case modifications =>
    show Metrics.saturate f.commits.length = min (f.commits.map Commit.digest).length _
    rw [List.length_map, Metrics.saturate]
  case callSites => rfl
  case upstream => exact m.pairwise_upstream
  case downstream => exact m.pairwise_downstream
  case impact => exact m.card_neighbours_le
  case score => rfl
  case risk => rfl
  case incomplete =>
    intro reason
    rw [hremarks]
    show asked.status = .incomplete reason ↔ asked.narrative = _ ∧ asked.recommendations = _ ∧ _
    constructor
    · intro hstatus
      obtain ⟨hnarrative, hrecommendations⟩ := hreason reason hstatus
      rw [hstatus]
      exact ⟨hnarrative, hrecommendations, rfl⟩
    · -- The remark alone tells the reason.
      rintro ⟨-, -, hremark⟩
      rcases hstatus : asked.status with _ | reason' <;> rw [hstatus] at hremark
      · cases hremark
      · cases hremark
        rfl
  case complete =>
    intro hstatus
    have hcomplete : asked.status = .complete := hstatus
    rw [hremarks, hcomplete]

/-- **The record that a request makes is consistent**, also after the remarks on its artifacts. -/
theorem consistent_of_made (h : o.made? k s = some r) :
    ∃ a, o.structural k = .ok a ∧ r.Consistent k.ranges a.targetId := by
  obtain ⟨remarks, f, stored, hl, hf, hstored, rfl⟩ := exists_of_made h
  obtain ⟨hstage, -⟩ := @remarks_of_putArtifacts τ o.artifactStore _ _ _ _ hstored
  refine ⟨f.structural, (findings_spec hf).1, ?_⟩
  refine consistent_withRemarks (consistent_record hl hf) fun d hd => ?_
  rw [hstage d hd]
  exact nofun

/-- A request that is answered has not been cancelled. -/
theorem notCancelled_of_answer (hr : (o.outcome k s).reply = .answer r) :
    o.circumstances.cancelled = false := by
  by_contra hc
  rw [outcome_of_cancelled (by simpa using hc)] at hr
  cases hr

end Occasion

/-- **A record that is answered is consistent, and is the one that is stored.** Whatever everyone
else does: if a request misses and answers, the parts of its record agree. Either the store
has acknowledged this very record, and then it is what a faithful store holds under its key, and
what the stores that there are hold there if it can be kept at all. Or the store has refused it, and
then the answer has one more remark, which says so; nothing else was written, and the stores that
there are, in memory or in a database with any trouble, are as they were. -/
theorem consistent_of_answer {o : Occasion σ τ} {s : Stores σ τ} {r : Record}
    (hm : o.Misses k s) (hr : (o.outcome k s).reply = .answer r) :
    ∃ a, o.structural k = .ok a ∧ r.Consistent k.ranges a.targetId ∧
      ((o.recordStore.put s.records r).2 = .answer () ∧
          (o.outcome k s).stores.records = (o.recordStore.put s.records r).1 ∧
          (∀ held, Faithful o.recordStore held →
            held (o.outcome k s).stores.records r.key = some r) ∧
          (∀ held, KeepsRecords o.recordStore held → r.Representable →
            held (o.outcome k s).stores.records r.key = some r) ∨
        ∃ made e, (o.recordStore.put s.records made).2 = .failure e ∧
          r = withRemarks made [⟨.persist, e.text⟩] ∧
          (o.outcome k s).stores.records = (o.recordStore.put s.records made).1 ∧
          (∀ held, KeepsRecords o.recordStore held →
            (o.outcome k s).stores.records = s.records)) := by
  obtain ⟨remarks, hl⟩ := hm
  obtain ⟨made, hmade, hback⟩ :=
    Occasion.exists_made_of_answer (Occasion.notCancelled_of_answer hr) hl hr
  obtain ⟨a, ha, hconsistent⟩ := Occasion.consistent_of_made hmade
  have hrecords := o.outcome_records k s
  rw [hmade, Option.elim_some] at hrecords
  refine ⟨a, ha, ?_⟩
  -- The answer is the record that was made, or that record with a remark that it was refused.
  rcases handedBack_eq_answer.mp hback with ⟨hput, rfl⟩ | ⟨e, hput, rfl⟩
  · rw [hrecords]
    exact ⟨hconsistent, Or.inl ⟨hput, rfl, fun held hf => hf.put_acknowledged hput,
      fun held hkeeps hrepresentable => hkeeps.held_put hrepresentable hput⟩⟩
  · refine ⟨consistent_withRemarks hconsistent fun d hd => ?_,
      Or.inr ⟨made, e, hput, rfl, hrecords, fun held hkeeps => ?_⟩⟩
    · rw [List.mem_singleton.mp hd]
      exact nofun
    · rw [hrecords]
      exact hkeeps.put_of_failure hput

/-- What befalls a database that has no room left. -/
def sampleTroubles : Troubles where
  put _ _ := some (.refused "database or disk is full")

/-- A request about a clean working tree whose record finds no room in the database. -/
def sampleCramped : Occasion Table MemoryArtifacts where
  request := (sampleClean 0).request
  circumstances := (sampleClean 0).circumstances
  recordStore := Table.troubled sampleTroubles
  artifactStore := MemoryArtifacts.instArtifactStore

theorem undisturbed_sampleCramped : sampleCramped.Undisturbed where
  notCancelled := rfl
  notInterrupted _ := rfl
  model _ := rfl
  get t key h := by
    have hreply : Table.reply (t.get key) = .stall := h
    rcases hget : t.get key with _ | _ <;> rw [hget] at hreply <;> cases hreply
  put _ _ h := by cases h
  putArtifact _ _ _ h := by cases h

theorem exists_structural_sampleCramped :
    ∃ a, sampleCramped.structural sampleConditions = .ok a := by
  obtain ⟨made, hmade⟩ := exists_made_sampleClean
  obtain ⟨-, -, -, -, a, ha, -⟩ := Occasion.made?_eq_some hmade
  exact ⟨a, ha⟩

/-- One record is stored as it is answered. Another is refused, and the table stays empty. -/
theorem consistent_of_answer_twice :
    (∃ r target, ((sampleClean 0).outcome sampleConditions sampleStores).reply = .answer r ∧
      r.Consistent sampleConditions.ranges target ∧
      ((sampleClean 0).outcome sampleConditions sampleStores).stores.records.get? r.key =
        some r) ∧
    ∃ r target, (sampleCramped.outcome sampleConditions ⟨.empty, .empty⟩).reply = .answer r ∧
      r.Consistent sampleConditions.ranges target ∧
      (sampleCramped.outcome sampleConditions ⟨.empty, .empty⟩).stores.records = .empty ∧
      ⟨.persist, "sqlite error: database or disk is full"⟩ ∈ r.degradations := by
  constructor
  · -- This store takes the record.
    obtain ⟨made, hmade⟩ := exists_made_sampleClean
    have hu : (sampleClean 0).Undisturbed := undisturbed_sampleVisit _ _ _ _
    have hstore : (sampleClean 0).recordStore = MemoryStore.instRecordStore := rfl
    generalize sampleClean 0 = o at *
    have hm : o.Misses sampleConditions sampleStores :=
      Occasion.exists_miss (hstore ▸ MemoryStore.faithful) (fun _ => rfl) hu
    have hr := Occasion.outcome_reply_of_made hmade
    rw [hstore] at hr
    obtain ⟨a, -, hconsistent, hkept⟩ := consistent_of_answer hm hr
    refine ⟨made, a.targetId, hr, hconsistent, ?_⟩
    rcases hkept with ⟨-, -, hheld, -⟩ | ⟨_, e, hput, -⟩
    · exact hheld _ (hstore ▸ MemoryStore.faithful)
    · rw [hstore] at hput
      cases hput
  · -- And this one refuses it.
    have hu := undisturbed_sampleCramped
    have hm : sampleCramped.Misses sampleConditions ⟨.empty, .empty⟩ := ⟨[], rfl⟩
    have hstore : sampleCramped.recordStore = Table.troubled sampleTroubles := rfl
    obtain ⟨a, ha⟩ := exists_structural_sampleCramped
    generalize sampleCramped = o at *
    obtain ⟨r, hr, -⟩ :=
      (Occasion.answersWith_of_structural hu.uncancelled hm ha).exists_answer hu
    obtain ⟨a, -, hconsistent, hkept⟩ := consistent_of_answer hm hr
    refine ⟨r, a.targetId, hr, hconsistent, ?_⟩
    rcases hkept with ⟨hput, -⟩ | ⟨_, e, hput, rfl, -, hunchanged⟩
    · rw [hstore] at hput
      cases hput
    · rw [hstore] at hput
      obtain rfl := Reply.failure.inj hput
      have hkeeps : KeepsRecords o.recordStore Table.get? := by
        rw [hstore]
        exact .table sampleTroubles
      have htext : (StoreError.database "database or disk is full").text =
          "sqlite error: database or disk is full" := by decide
      rw [← htext]
      exact ⟨hunchanged _ hkeeps, List.mem_append_right _ (List.mem_singleton.mpr rfl)⟩

end Analysis

end Dossier
