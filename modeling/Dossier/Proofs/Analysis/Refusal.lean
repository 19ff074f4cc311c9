import Dossier.Proofs.Analysis.Commits

/-!
# Commits that are not known

A commit that the version control does not know goes by the name under which it was asked for.
That name is the fingerprint, and it is also the revision at which files are read. A request is
not refused because the hash is missing. It is refused when no structure is found at the name,
and nothing in the store answers for it before that
(`Dossier.Analysis.commit_stored_and_refused`). A version control that fails to tell the hash but
can show the files gets a record stored under the name, and such a record answers later requests.
-/

namespace Dossier.Analysis

variable {σ τ : Type} {k : Conditions}

namespace Occasion

variable {o : Occasion σ τ} {s : Stores σ τ}

/-- **When a request is refused** and leaves no trace: nothing in the store answers it, and it
finds no structure. -/
theorem refused_iff :
    ((∃ cause, (o.outcome k s).reply = .failure (.unavailable cause)) ∧
        (o.outcome k s).stores = s) ↔
      o.circumstances.cancelled = false ∧ (∃ remarks, o.lookUp k s = .miss remarks) ∧
        ∃ e, o.structural k = .error e := by
  constructor
  · rintro ⟨⟨cause, hr⟩, -⟩
    -- Every other way through a request ends in an answer, or in no reply at all.
    rcases hc : o.circumstances.cancelled
    · rcases hl : o.lookUp k s with found | remarks | _
      · rw [outcome_of_hits ⟨hc, hl⟩] at hr
        cases hr
      · rcases hs : o.structural k with e | a
        · exact ⟨rfl, ⟨remarks, rfl⟩, e, rfl⟩
        · obtain ⟨f, hf, -⟩ := exists_findings hs remarks
          rw [outcome_of_findings hc hl hf] at hr
          exact absurd hr
            (@conclude_ne_unavailable σ τ o.recordStore o.artifactStore k o.circumstances f s cause)
      · rw [outcome_of_stuck hc hl] at hr
        cases hr
    · rw [outcome_of_cancelled hc] at hr
      cases hr
  · rintro ⟨hc, ⟨remarks, hl⟩, e, hs⟩
    obtain ⟨cause, hcause⟩ := exists_asUnavailable e
    rw [outcome_of_refused hc hl (findings_of_structural_error hs remarks)]
    exact ⟨⟨cause, by rw [hcause]⟩, rfl⟩

end Occasion

/-- **What a request for a commit stores, and when an unknown commit is refused.** In every run,
the request does nothing to the store of records but put the record it makes, if it makes one.
That record bears the hash of the commit exactly if the version control has told the hash, and
otherwise the name under which the commit was asked for. And an unknown commit is refused without
a trace exactly if nothing in the store answers for its name and no structure is found at it. -/
theorem commit_stored_and_refused {q : Occasion σ τ} {commit : String}
    (hc : q.request.commit = some commit) (k : Conditions) (os : List (Occasion σ τ))
    (s : Stores σ τ) :
    (q.outcome k (run k os s)).stores.records =
        ((q.made? k (run k os s)).elim (run k os s).records fun r =>
          (q.recordStore.put (run k os s).records r).1) ∧
      (∀ r, q.made? k (run k os s) = some r →
        (q.resolved? commit = some r.function.fingerprint ↔ q.resolved? commit ≠ none) ∧
          (q.resolved? commit = none → r.function.fingerprint = commit)) ∧
      (q.resolved? commit = none →
        (((∃ cause, (q.outcome k (run k os s)).reply = .failure (.unavailable cause)) ∧
            (q.outcome k (run k os s)).stores = run k os s) ↔
          q.circumstances.cancelled = false ∧
            (∃ remarks, q.lookUp k (run k os s) = .miss remarks) ∧
              ∃ e, q.structural k = .error e)) := by
  refine ⟨q.outcome_records k _, fun r hr => ?_, fun _ => Occasion.refused_iff⟩
  have hfingerprint : r.function.fingerprint = (q.resolved? commit).getD commit := by
    rw [← Occasion.fingerprint_of_commit (k := k) hc]
    exact congrArg RecordKey.fingerprint (Occasion.key_of_made hr)
  rw [hfingerprint]
  rcases q.resolved? commit with _ | hash
  · exact ⟨⟨nofun, fun h => absurd rfl h⟩, fun _ => rfl⟩
  · exact ⟨⟨fun _ => nofun, fun _ => rfl⟩, nofun⟩

/-- A request for a commit under a name, when the version control knows no hash but the head, and
only has files at the full hash. -/
def sampleUnknown (commit : String) : Occasion MemoryStore MemoryArtifacts :=
  sampleVisit (sampleVersionControl [("HEAD", sampleHead)] [("a.go", sampleSource)])
    [("a.go", sampleSource)] (some commit) 0

theorem exists_made_sampleUnknown :
    ∃ r, (sampleUnknown sampleHead).made? sampleConditions sampleStores = some r :=
  Option.isSome_iff_exists.mp (by decide +kernel)

theorem exists_error_sampleUnknown :
    ∃ e, (sampleUnknown "main").structural sampleConditions = .error e := by
  have h : ((sampleUnknown "main").structural sampleConditions).toOption.isSome = false := by
    decide +kernel
  rcases hs : (sampleUnknown "main").structural sampleConditions with e | a
  · exact ⟨e, rfl⟩
  · rw [hs] at h
    cases h

/-- One name is refused, and under another a record is stored that bears this name. -/
theorem commit_stored_and_refused_unknown :
    (∃ r, (sampleUnknown sampleHead).made? sampleConditions sampleStores = some r ∧
      r.function.fingerprint = sampleHead) ∧
    ((∃ cause, ((sampleUnknown "main").outcome sampleConditions sampleStores).reply =
        .failure (.unavailable cause)) ∧
      ((sampleUnknown "main").outcome sampleConditions sampleStores).stores = sampleStores) := by
  constructor
  · obtain ⟨r, hr⟩ := exists_made_sampleUnknown
    have hc : (sampleUnknown sampleHead).request.commit = some sampleHead := rfl
    obtain ⟨-, hfingerprint, -⟩ := commit_stored_and_refused hc sampleConditions [] sampleStores
    exact ⟨r, hr, (hfingerprint r hr).2 rfl⟩
  · have hc : (sampleUnknown "main").request.commit = some "main" := rfl
    obtain ⟨-, -, hrefused⟩ := commit_stored_and_refused hc sampleConditions [] sampleStores
    refine (hrefused rfl).mpr ⟨rfl, ?_, exists_error_sampleUnknown⟩
    exact Occasion.exists_miss MemoryStore.faithful (fun _ => rfl) (undisturbed_sampleVisit _ _ _ _)

/-- **An unknown commit is answered for and leaves a record.** The version control tells no hash,
and yet the request is not refused: it gets an answer, and the answer is in the store. -/
theorem unknown_commit_stored :
    (sampleUnknown sampleHead).resolved? sampleHead = none ∧
    ∃ r, ((sampleUnknown sampleHead).outcome sampleConditions sampleStores).reply = .answer r ∧
      ((sampleUnknown sampleHead).outcome sampleConditions sampleStores).stores.records.get? r.key =
        some r := by
  obtain ⟨r, hr⟩ := exists_made_sampleUnknown
  have hstored : (sampleUnknown sampleHead).Stored sampleConditions sampleStores r := ⟨hr, rfl⟩
  refine ⟨rfl, r, hstored.reply, ?_⟩
  rw [Occasion.key_of_made hr]
  exact hstored.is_held MemoryStore.faithful

end Dossier.Analysis
