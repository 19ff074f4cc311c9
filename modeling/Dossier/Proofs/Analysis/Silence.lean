import Dossier.Proofs.Analysis.Consistency
import Dossier.Proofs.Synthesis.Retry
import Dossier.Proofs.Synthesis.Sections

/-!
# What a record without remarks is evidence of

A record that remarks on nothing is meant to be a record of a function that was fully analyzed.
`Dossier.Analysis.no_remarks_iff` says what it is evidence of, and that this is all: the stores
could be read and written, the revision is known, the version control answered the calls of the
history and of the structure, the tree was seen as a whole, and the model wrote a narrative.

Two things may have gone wrong all the same. Whether the file could be read at the head is of no
account for the snapshot: if it could not, the working tree passes for one that differs. And a file
that has a syntax error at the revision of the history is not remarked on either, although the
commits are then not those of the lines of the function
(`Dossier.Analysis.no_remarks_of_syntax_error`).
-/

namespace Dossier.Analysis

variable {σ τ : Type} {k : Conditions}

namespace Occasion

/-- **Whether nothing goes wrong** up to the artifacts that would be remarked on. -/
structure Untroubled (k : Conditions) (o : Occasion σ τ) (s : Stores σ τ) : Prop where
  /-- The store of records could be read. -/
  read : ∃ found, o.recordStore.get s.records (o.key k) = .answer found
  resolved : (o.circumstances.versionControl .cache).Answers (.resolve o.revisionName)
  /-- The version control returned for the snapshot; that the file could be read at the head is
  not said. -/
  inTime : ∀ call ∈ o.calls k .cache, o.circumstances.versionControl .cache call ≠ .stall
  history : ∀ call ∈ o.calls k .history, (o.circumstances.versionControl .history).Answers call
  structural : ∀ call ∈ o.calls k .structure,
    (o.circumstances.versionControl .structure).Answers call
  seenWhole : (o.snapshot k).tree.SeenWhole k.filter (Path.normalize o.file)
  artifacts : ∀ f, o.findings k [] = .ok f →
    @AllStored τ o.artifactStore f.function f.artifacts s.artifacts

variable {o : Occasion σ τ} {s : Stores σ τ} {r : Record}

/-- The structural stage asks nobody but the version control that it finds. -/
theorem asks_tree :
    (o.snapshot k).tree.Asks (o.circumstances.versionControl .structure) := by
  rcases hc : o.request.commit with _ | commit
  · rw [tree_of_workingTree hc]
    trivial
  · rw [tree_of_commit hc]
    rfl

/-- A record remarks on nothing exactly if no stage has a remark. -/
theorem degradations_eq_nil_iff {remarks stored : List Degradation} {f : Findings}
    (hf : o.findings k remarks = .ok f) (asked : Synthesis.Asked) (createdAt : Instant) :
    (withRemarks (f.record k asked createdAt) stored).degradations = [] ↔
      (o.snapshot k).remarks = [] ∧ remarks = [] ∧ f.structural.notes = [] ∧
        historyRemarks (o.history k) = [] ∧ asked.status = .complete ∧ stored = [] := by
  obtain ⟨-, -, -, hremarks⟩ := findings_spec hf
  rw [withRemarks, Findings.record, hremarks]
  simp only [List.append_eq_nil_iff, List.map_eq_nil_iff, and_assoc]
  rcases asked.status with _ | reason <;> simp

/-- **When the record that a request makes has no remarks**: nothing goes wrong, and the model
writes a narrative. -/
theorem degradations_of_made (hmade : o.made? k s = some r) :
    r.degradations = [] ↔ o.Untroubled k s ∧ r.synthesis = .complete := by
  obtain ⟨remarks, f, stored, hl, hf, hstored, hrecord⟩ := exists_of_made hmade
  obtain ⟨hstructural, -⟩ := structural_of_findings hf
  obtain ⟨m⟩ := Structure.nonempty_assembly (reply_of_structureStage hstructural)
  obtain ⟨-, hmissed⟩ := remarks_of_miss hl
  obtain ⟨-, hkept⟩ := @remarks_of_putArtifacts τ o.artifactStore _ _ _ _ hstored
  have hstatus : r.synthesis =
      (o.circumstances.asked k).status := by rw [hrecord]; rfl
  rw [hrecord, degradations_eq_nil_iff hf, ← hrecord, hstatus]
  constructor
  · -- Without a remark on the store, what was found is what is found without remarks.
    rintro ⟨hsnapshot, rfl, hnotes, hhistory, hcomplete, rfl⟩
    obtain ⟨hresolved, hinTime⟩ := snapshot_remarks_eq_nil_iff.mp hsnapshot
    refine ⟨?_, hcomplete⟩
    exact {
      read := hmissed.mp rfl
      resolved := hresolved
      inTime := hinTime
      history := historyRemarks_eq_nil_iff.mp hhistory
      structural := m.answers_of_notes asks_tree hnotes
      seenWhole := m.notes_eq_nil_iff.mp hnotes
      artifacts := fun f' hf' => by
        obtain rfl := Except.ok.inj (hf.symm.trans hf')
        exact hkept.mp rfl }
  · rintro ⟨hu, hcomplete⟩
    obtain rfl := hmissed.mpr hu.read
    exact ⟨snapshot_remarks_eq_nil_iff.mpr ⟨hu.resolved, hu.inTime⟩, rfl,
      m.notes_eq_nil_iff.mpr hu.seenWhole, historyRemarks_eq_nil_iff.mpr hu.history, hcomplete,
      hkept.mpr (hu.artifacts f hf)⟩

end Occasion

/-- **When a record has no remarks.** If a request misses and answers, its record remarks on
nothing exactly if nothing went wrong on the way, the model wrote a narrative, and the record is
the one that was made and has been stored. -/
theorem no_remarks_iff {o : Occasion σ τ} {s : Stores σ τ} {r : Record} (hm : o.Misses k s)
    (hr : (o.outcome k s).reply = .answer r) :
    r.degradations = [] ↔
      o.Untroubled k s ∧ r.synthesis = .complete ∧ o.made? k s = some r ∧
        (o.recordStore.put s.records r).2 = .answer () := by
  obtain ⟨remarks, hl⟩ := hm
  obtain ⟨made, hmade, hback⟩ :=
    Occasion.exists_made_of_answer (Occasion.notCancelled_of_answer hr) hl hr
  constructor
  · intro hnone
    rcases handedBack_eq_answer.mp hback with ⟨hput, rfl⟩ | ⟨e, -, rfl⟩
    · obtain ⟨hu, hcomplete⟩ := (Occasion.degradations_of_made hmade).mp hnone
      exact ⟨hu, hcomplete, hmade, hput⟩
    · -- A record that was refused has a remark of its own.
      exact absurd (List.append_eq_nil_iff.mp hnone).2 (List.cons_ne_nil _ _)
  · rintro ⟨hu, hcomplete, hr, -⟩
    exact (Occasion.degradations_of_made hr).mpr ⟨hu, hcomplete⟩

/-! ### A model that writes a narrative -/

/-- A reply of the model with all four sections. -/
def sampleReply : String :=
  "\x7b\"intent_summary\": \"a\", \"dependency_overview\": \"b\", \"risk_assessment\": \"c\", " ++
    "\"refactoring_recommendations\": [\"d\"]\x7d"

theorem brackets_sampleReply : sampleReply.toList =
    '\x7b' :: ((sampleReply.toList.drop 1).dropLast ++ ['\x7d']) := by
  -- Taken apart into its characters first, the text need not be decoded from its bytes.
  unfold sampleReply
  rw [String.toList_append, String.toList_ofList, String.toList_ofList]
  decide +kernel

theorem parse?_sampleReply :
    (Json.parse? sampleReply).map (fun v => (v.phrase, Synthesis.sectionsOf default v)) =
      some (.object, .ok ⟨⟨"a", "b", "c"⟩, ["d"]⟩) := by
  unfold Json.parse? sampleReply
  rw [String.toList_append, String.toList_ofList, String.toList_ofList]
  decide +kernel

theorem readReply_sampleReply :
    Synthesis.readReply default sampleReply = .ok ⟨⟨"a", "b", "c"⟩, ["d"]⟩ := by
  obtain ⟨v, hparse, hread⟩ := Option.map_eq_some_iff.mp parse?_sampleReply
  obtain ⟨hphrase, hsections⟩ := Prod.mk.inj hread
  have hforms := hphrase ▸ Json.forms_of_parse?_brackets brackets_sampleReply hparse
  have hobject := Synthesis.firstObject?_of_forms (show '\x7b' ∉ "".toList by decide) hforms ""
  rw [String.empty_append, String.append_empty] at hobject
  rw [Synthesis.readReply_of_parse? hobject hparse, hsections]

/-- A request about the working tree, with a model that writes a narrative. -/
def sampleNarrated (v : VersionControl) : Occasion MemoryStore MemoryArtifacts :=
  let visit := sampleVisit v [("a.go", sampleSource)] none 0
  { visit with circumstances := { visit.circumstances with model := fun _ => .ok sampleReply } }

theorem undisturbed_sampleNarrated (v : VersionControl) : (sampleNarrated v).Undisturbed where
  notCancelled := rfl
  notInterrupted _ := rfl
  model _ := rfl
  get _ _ h := by cases h
  put _ _ h := by cases h
  putArtifact _ _ _ h := by cases h

theorem misses_sampleNarrated (v : VersionControl) :
    (sampleNarrated v).Misses sampleConditions sampleStores :=
  ⟨[], rfl⟩

/-- If there is nothing to remark on in what such a request finds, it is answered with a record
without remarks. -/
theorem exists_answer_sampleNarrated {v : VersionControl}
    (h : ((sampleNarrated v).findings sampleConditions []).toOption.map Findings.remarks =
      some []) :
    ∃ r, ((sampleNarrated v).outcome sampleConditions sampleStores).reply = .answer r ∧
      r.degradations = [] := by
  obtain ⟨f, hfound, hremarks⟩ := Option.map_eq_some_iff.mp h
  have hf : (sampleNarrated v).findings sampleConditions [] = .ok f := by
    rcases hx : (sampleNarrated v).findings sampleConditions [] with e | g <;> rw [hx] at hfound
    · cases hfound
    · exact congrArg _ (Option.some.inj hfound)
  have hl : (sampleNarrated v).lookUp sampleConditions sampleStores = .miss [] := rfl
  obtain ⟨r, hmade⟩ := Occasion.exists_made_of_structural (undisturbed_sampleNarrated v) hl
    (Occasion.structural_of_findings hf).1
  refine ⟨r, (Occasion.outcome_reply_of_made hmade).trans rfl, ?_⟩
  obtain ⟨remarks, g, stored, hl', hg, hstored, rfl⟩ := Occasion.exists_of_made hmade
  obtain rfl := Lookup.miss.inj (hl.symm.trans hl')
  obtain rfl := Except.ok.inj (hf.symm.trans hg)
  -- The model and the store of artifacts leave nothing to remark on either.
  have hstatus : ((sampleNarrated v).circumstances.asked sampleConditions).status = .complete :=
    Synthesis.complete_of_readReply rfl readReply_sampleReply _
  obtain rfl : stored = [] := (remarks_of_putArtifacts hstored).2.mpr (allStored_memory _ _ _)
  rw [withRemarks, Findings.record, hremarks, hstatus]
  rfl

/-- Where all goes well there is nothing to remark on. -/
theorem no_remarks_iff_known :
    ∃ r, ((sampleNarrated sampleKnown).outcome sampleConditions sampleStores).reply = .answer r ∧
      r.degradations = [] ∧ (sampleNarrated sampleKnown).Untroubled sampleConditions sampleStores ∧
      r.synthesis = .complete := by
  obtain ⟨r, hr, hnone⟩ := exists_answer_sampleNarrated (v := sampleKnown) (by decide +kernel)
  obtain ⟨hu, hcomplete, -⟩ := (no_remarks_iff (misses_sampleNarrated sampleKnown) hr).mp hnone
  exact ⟨r, hr, hnone, hu, hcomplete⟩

/-! ### A file with a syntax error at the head

The file was committed with a syntax error, which has been mended in the working tree. So the
structural stage has nothing to remark on, and the history is that of a name. -/

/-- A text of the file with a syntax error. -/
def sampleBroken : String := "package p\nfunc f( \x7b\n"

/-- The version control of a repository in which the file has a syntax error. -/
def sampleBrokenHead : VersionControl :=
  sampleVersionControl [("HEAD", sampleHead)] [("a.go", sampleBroken)]

theorem snapshot_sampleBrokenHead :
    ((sampleNarrated sampleBrokenHead).snapshot sampleConditions).revision = sampleHead ∧
      (sampleNarrated sampleBrokenHead).file = "a.go" := by
  decide +kernel

theorem exists_parse_sampleBroken :
    ∃ e, Structure.outlineOf "a.go" sampleBroken = .error (.parse e) := by
  have h : (match Structure.outlineOf "a.go" sampleBroken with
      | .error (.parse _) => true
      | _ => false) = true := by
    decide +kernel
  split at h
  · next e he => exact ⟨e, he⟩
  · cases h

/-- **A syntax error is passed over in silence.** The file is there at the revision of the history
and has a syntax error, and the record remarks on nothing. -/
theorem no_remarks_of_syntax_error :
    (sampleNarrated sampleBrokenHead).Misses sampleConditions sampleStores ∧
    (∃ r, ((sampleNarrated sampleBrokenHead).outcome sampleConditions sampleStores).reply =
      .answer r ∧ r.degradations = []) ∧
    sampleBrokenHead (.showFile
        ((sampleNarrated sampleBrokenHead).snapshot sampleConditions).revision
        (sampleNarrated sampleBrokenHead).file) =
      .answer (some sampleBroken) ∧
    ∃ e, Structure.outlineOf (sampleNarrated sampleBrokenHead).file sampleBroken =
      .error (.parse e) := by
  obtain ⟨hrevision, hfile⟩ := snapshot_sampleBrokenHead
  refine ⟨misses_sampleNarrated _, exists_answer_sampleNarrated (by decide +kernel), ?_, ?_⟩
  · rw [hrevision, hfile]
    decide +kernel
  · rw [hfile]
    exact exists_parse_sampleBroken

end Dossier.Analysis
