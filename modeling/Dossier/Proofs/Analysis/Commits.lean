import Dossier.Proofs.Analysis.Reuse
import Dossier.Proofs.Structure.Assembly

/-!
# Answers about commits

A request for a commit reads the files of the commit and nothing of the working tree. What it
is answered with may still come from the working tree, because a working tree in which the file
of the function is as it was committed has the fingerprint of the head, and so its records are
stored where the records of the head are. They tell of the other files as they were on disk.
`Dossier.Analysis.isolated_iff` says that this is the only way: records that other requests for
commits have left make no difference.
-/

namespace Dossier.Analysis

variable {σ τ : Type} {k : Conditions}

namespace Occasion

/-- The hash of a commit, as far as the version control has told it before anything else. -/
def resolved? (o : Occasion σ τ) (commit : String) : Option String :=
  match o.circumstances.versionControl .cache (.resolve commit) with
  | .answer hash => some hash
  | _ => none

/-- The figures that the request finds. -/
def figures? (k : Conditions) (o : Occasion σ τ) : Option Figures :=
  (o.structural k).toOption.map .of

/-- **Whether a revision says the same on two occasions** to those who look for structure. -/
structure SameRevision (revision : String) (o o' : Occasion σ τ) : Prop where
  showFile : ∀ path, o.circumstances.versionControl .structure (.showFile revision path) =
    o'.circumstances.versionControl .structure (.showFile revision path)
  listFiles : o.circumstances.versionControl .structure (.listFiles revision) =
    o'.circumstances.versionControl .structure (.listFiles revision)

/-- Whether two requests are about the same function of the same file, in whatever way the path
is written. -/
structure SameFunction (o o' : Occasion σ τ) : Prop where
  file : Path.normalize o.file = Path.normalize o'.file
  function : o.request.function = o'.request.function

variable {o : Occasion σ τ} {s : Stores σ τ} {r : Record} {commit : String}

/-! ### What a commit looks like -/

theorem snapshot_of_commit (hc : o.request.commit = some commit) :
    o.snapshot k = Snapshot.ofCommit k o.circumstances commit := by
  unfold snapshot Snapshot.take
  rw [hc]

/-- **The fingerprint of a commit** is its hash, or its name when the hash is not known. -/
theorem fingerprint_of_commit (hc : o.request.commit = some commit) :
    (o.snapshot k).fingerprint = (o.resolved? commit).getD commit := by
  rw [snapshot_of_commit hc, resolved?, Snapshot.ofCommit]
  simp only [Conditions.finish, Inquiry.ask]
  rcases o.circumstances.versionControl .cache (.resolve commit) with _ | _ | _ <;> rfl

/-- A commit is read under its fingerprint. -/
theorem tree_of_commit (hc : o.request.commit = some commit) :
    (o.snapshot k).tree =
      .revision (o.circumstances.versionControl .structure) (o.snapshot k).fingerprint := by
  rw [snapshot_of_commit hc, Snapshot.ofCommit]
  simp only [Conditions.finish, Inquiry.ask]
  rcases o.circumstances.versionControl .cache (.resolve commit) with _ | _ | _ <;> rfl

/-- **Requests for one commit find the same structure**, if the commit says the same to both. -/
theorem structural_congr {o' : Occasion σ τ} {commit' : String}
    (hc : o.request.commit = some commit) (hc' : o'.request.commit = some commit')
    (hfingerprint : (o.snapshot k).fingerprint = (o'.snapshot k).fingerprint)
    (hsame : SameRevision (o'.snapshot k).fingerprint o o') (hfun : SameFunction o o') :
    o.structural k = o'.structural k := by
  rw [structural, structural, tree_of_commit hc, tree_of_commit hc', hfingerprint, hfun.function]
  refine structureStage_congr (Structure.analyze_congr ?_ ?_ hfun.file _)
  · intro path
    simp only [SourceTree.read, Inquiry.ask, hsame.showFile path]
  · simp only [SourceTree.sourceFiles, Inquiry.ask, hsame.listFiles]

/-! ### What a request that misses answers -/

theorem figures?_of_made (h : o.made? k s = some r) : o.figures? k = some (figuresOf r) := by
  obtain ⟨-, -, -, -, a, ha, hfigures⟩ := made?_eq_some h
  rw [figures?, ha, hfigures]
  rfl

/-- A request that does not find an answer in the store, but answers, answers with the figures
that it finds. -/
theorem figures?_of_answer {remarks : List Degradation} (hl : o.lookUp k s = .miss remarks)
    (hc : o.circumstances.cancelled = false) (hr : (o.outcome k s).reply = .answer r) :
    o.figures? k = some (figuresOf r) := by
  obtain ⟨made, hm, hback⟩ := exists_made_of_answer hc hl hr
  rw [figures?_of_made hm]
  rcases handedBack_eq_answer.mp hback with ⟨-, rfl⟩ | ⟨e, -, rfl⟩
  · rfl
  · rw [figuresOf_withRemarks]

/-- **An undisturbed request answers with the figures that it finds**, when the store has no
answer for it. -/
theorem exists_answer {remarks : List Degradation} {figures : Figures} (hu : o.Undisturbed)
    (hl : o.lookUp k s = .miss remarks) (hfigures : o.figures? k = some figures) :
    ∃ r, (o.outcome k s).reply = .answer r ∧ figuresOf r = figures := by
  rcases hs : o.structural k with e | a
  · rw [figures?, hs] at hfigures
    cases hfigures
  · obtain ⟨d, hm⟩ := exists_made_of_structural hu hl hs
    have hd := (figures?_of_made hm).symm.trans hfigures
    rw [outcome_reply_of_made hm]
    rcases hput : (o.recordStore.put s.records d).2 with _ | e | _
    · exact ⟨d, rfl, Option.some.inj hd⟩
    · exact ⟨withRemarks d [⟨.persist, e.text⟩], rfl, Option.some.inj hd⟩
    · exact absurd hput (hu.put _ _)

end Occasion

/-! ### Where the answer for a commit comes from -/

/-- **When a request for a commit is answered as if it were the first one.** A run begins
without records, and a commit says the same to all who ask for it under one key. Then the
answer has the figures that the request would get with the stores of the beginning exactly if
the same figures were found by everyone who made the record of the answer from a working tree,
or for another function. -/
theorem isolated_iff {held : σ → RecordKey → Option Record} {os : List (Occasion σ τ)}
    {q : Occasion σ τ} {s : Stores σ τ} {r : Record} {commit : String}
    (hf : ∀ o ∈ os ++ [q], Faithful o.recordStore held) (hs : ∀ key, held s.records key = none)
    (hc : q.request.commit = some commit) (hu : q.Undisturbed)
    (hsame : ∀ e ∈ os, e.request.commit ≠ none → e.key k = q.key k →
      Occasion.SameRevision (q.snapshot k).fingerprint e q)
    (hr : (q.outcome k (run k os s)).reply = .answer r) :
    (∃ first, (q.outcome k s).reply = .answer first ∧ figuresOf first = figuresOf r) ↔
      ∀ e, Maker k os s e r → (e.request.commit = none ∨ ¬Occasion.SameFunction e q) →
        e.figures? k = q.figures? k := by
  obtain ⟨remarks, hmiss⟩ := Occasion.exists_miss (k := k) (hf q (by simp)) hs hu
  constructor
  · -- The answer of the beginning has the figures of the request, and the record those of its
    -- maker.
    rintro ⟨first, hfirst, heq⟩ e he -
    obtain ⟨before, hmade⟩ := he.exists_made
    rw [Occasion.figures?_of_made hmade, Occasion.figures?_of_answer hmiss hu.notCancelled hfirst,
      heq]
  · intro hall
    refine Occasion.exists_answer hu hmiss ?_
    rcases hl : q.lookUp k (run k os s) with found | remarks' | _
    · have hits : q.Hits k (run k os s) found := ⟨hu.notCancelled, hl⟩
      rw [Occasion.outcome_of_hits hits] at hr
      obtain rfl := Reply.answer.inj hr
      obtain ⟨hkey, e, he⟩ := exists_maker_of_hits hf hs hits
      obtain ⟨before, hmade⟩ := he.exists_made
      rw [← Occasion.figures?_of_made hmade]
      -- The record comes from a request for this very function at the commit, or `hall` applies.
      by_cases hother : e.request.commit = none ∨ ¬Occasion.SameFunction e q
      · exact (hall e he hother).symm
      · rw [not_or, not_not] at hother
        obtain ⟨hcommit, hfun⟩ := hother
        obtain ⟨commit', hcommit'⟩ := Option.ne_none_iff_exists'.mp hcommit
        have hekey : e.key k = q.key k := he.key_eq.symm.trans hkey
        have hfingerprint : (e.snapshot k).fingerprint = (q.snapshot k).fingerprint :=
          congrArg RecordKey.fingerprint hekey
        have hstructural := Occasion.structural_congr hcommit' hc hfingerprint
          (hsame e he.mem hcommit hekey) hfun
        rw [Occasion.figures?, Occasion.figures?, hstructural]
    · -- The request makes its record itself.
      exact Occasion.figures?_of_answer hl hu.notCancelled hr
    · rw [Occasion.outcome_of_stuck hu.notCancelled hl] at hr
      cases hr

/-! ### A file that is not committed

The working tree has a second file, which calls the function. The first file is as it was
committed, so the working tree has the fingerprint of the head. -/

/-- The files of a working tree in which another function calls the one that is asked for. -/
def sampleFiles : List (String × String) :=
  [("a.go", sampleSource), ("b.go", "package p\nfunc g() \x7b\n\tf()\n\x7d\n")]

/-- A request about the working tree with the file that is not committed. -/
def sampleDirty : Occasion MemoryStore MemoryArtifacts :=
  sampleVisit sampleKnown sampleFiles none 0

/-- A request for the only commit, in the same working tree. -/
def sampleCommit : Occasion MemoryStore MemoryArtifacts :=
  sampleVisit sampleKnown sampleFiles (some sampleHead) 1

/-- The commit and both working trees have one key. -/
theorem key_sampleCommit :
    sampleCommit.key sampleConditions = (sampleClean 0).key sampleConditions ∧
      sampleCommit.key sampleConditions = sampleDirty.key sampleConditions := by
  decide +kernel

theorem callers_sampleDirty :
    (sampleDirty.figures? sampleConditions).map (fun f => f.dependencies.upstream) =
      some ["b.go::g"] := by
  decide +kernel

theorem exists_made_sampleDirty :
    ∃ r, sampleDirty.made? sampleConditions sampleStores = some r := by
  have hcallers := callers_sampleDirty
  rcases hs : sampleDirty.structural sampleConditions with e | a
  · rw [Occasion.figures?, hs] at hcallers
    cases hcallers
  · exact Occasion.exists_made_of_structural (undisturbed_sampleVisit _ _ _ _) rfl hs

theorem figures?_sampleCommit :
    sampleCommit.figures? sampleConditions = some ⟨⟨[], [], 0⟩, 1, 2, 0, 0⟩ := by
  decide +kernel

/-- Where everything is committed, the working tree has the figures of the commit. -/
theorem figures?_sampleClean :
    (sampleClean 0).figures? sampleConditions = sampleCommit.figures? sampleConditions := by
  rw [figures?_sampleCommit]
  decide +kernel

/-- The record of a working tree in which everything is committed answers for the commit, and
answers rightly. -/
theorem isolated_iff_clean :
    ∃ r first,
      (sampleCommit.outcome sampleConditions
        (run sampleConditions [sampleClean 0] sampleStores)).reply = .answer r ∧
      (sampleCommit.outcome sampleConditions sampleStores).reply = .answer first ∧
      figuresOf first = figuresOf r := by
  obtain ⟨r, hr⟩ := exists_made_sampleClean
  have hf : ∀ o ∈ [sampleClean 0] ++ [sampleCommit], Faithful o.recordStore MemoryStore.get? := by
    simpa using ⟨MemoryStore.faithful, MemoryStore.faithful⟩
  have hu : sampleCommit.Undisturbed := undisturbed_sampleVisit _ _ _ _
  have hc : sampleCommit.request.commit = some sampleHead := rfl
  have hnone : (sampleClean 0).request.commit = none := rfl
  have hreply := Occasion.outcome_of_hits (hits_of_made_in_memory (o := sampleClean 0)
    (q := sampleCommit) rfl rfl hr key_sampleCommit.1 rfl (by decide))
  have hfigures := figures?_sampleClean
  -- Nothing else is known of the two occasions, so that nothing is computed from here on.
  generalize sampleClean 0 = e, sampleCommit = q at *
  have hanswer : (q.outcome sampleConditions (run sampleConditions [e] sampleStores)).reply =
      .answer r := by rw [hreply]
  have hsame : ∀ o ∈ [e], o.request.commit ≠ none →
      o.key sampleConditions = q.key sampleConditions →
        Occasion.SameRevision (q.snapshot sampleConditions).fingerprint o q := by
    intro o ho hne
    rw [List.mem_singleton.mp ho] at hne
    exact absurd hnone hne
  have hall : ∀ o, Maker sampleConditions [e] sampleStores o r →
      (o.request.commit = none ∨ ¬Occasion.SameFunction o q) →
        o.figures? sampleConditions = q.figures? sampleConditions := by
    intro o ho _
    rw [List.mem_singleton.mp ho.mem]
    exact hfigures
  obtain ⟨first, hfirst, heq⟩ := (isolated_iff hf (fun _ => rfl) hc hu hsame hanswer).mpr hall
  exact ⟨r, first, hanswer, hfirst, heq⟩

/-- **What is not committed reaches the answer for a commit.** After a request about the working
tree, the function has a caller at the commit; with the stores of the beginning it has none. -/
theorem callers_of_leak :
    ∃ r first,
      (sampleCommit.outcome sampleConditions
        (run sampleConditions [sampleDirty] sampleStores)).reply = .answer r ∧
      (sampleCommit.outcome sampleConditions sampleStores).reply = .answer first ∧
      r.dependencies.upstream = ["b.go::g"] ∧ first.dependencies.upstream = [] := by
  obtain ⟨r, hr⟩ := exists_made_sampleDirty
  have hreply := Occasion.outcome_of_hits (hits_of_made_in_memory (o := sampleDirty)
    (q := sampleCommit) rfl rfl hr key_sampleCommit.2 rfl (by decide))
  have hdirty := callers_sampleDirty
  rw [Occasion.figures?_of_made hr] at hdirty
  have hfigures := figures?_sampleCommit
  have hu : sampleCommit.Undisturbed := undisturbed_sampleVisit _ _ _ _
  have hf : sampleCommit.recordStore = MemoryStore.instRecordStore := rfl
  generalize sampleDirty = e, sampleCommit = q at *
  obtain ⟨remarks, hmiss⟩ := Occasion.exists_miss (k := sampleConditions) (s := sampleStores)
    (hf ▸ MemoryStore.faithful) (fun _ => rfl) hu
  obtain ⟨first, hfirst, hfirstFigures⟩ := Occasion.exists_answer hu hmiss hfigures
  exact ⟨r, first, by rw [hreply], hfirst, Option.some.inj hdirty,
    congrArg (fun f => f.dependencies.upstream) hfirstFigures⟩

end Dossier.Analysis
