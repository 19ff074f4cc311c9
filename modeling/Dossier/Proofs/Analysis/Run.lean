import Dossier.Proofs.Analysis.Occasion
import Mathlib.Data.List.Induction

/-!
# Requests one after another

A *run* answers the requests of a list of occasions in order, each with the stores that the
one before has left. Two things are known about the records that are there at its end.

`Dossier.Analysis.held_run` says where they come from: a record that was not there at the
beginning was made on one of the occasions of the run, by the request that
`Dossier.Analysis.Maker` names. `Dossier.Analysis.held_run_of_settled` says how long they
last: as long as everyone who asks for a record is answered with it, nobody puts another one
in its place.
-/

namespace Dossier.Analysis

variable {σ τ : Type}

/-- **A run**: the stores after the requests of some occasions, in order. -/
def run (k : Conditions) : List (Occasion σ τ) → Stores σ τ → Stores σ τ
  | [], s => s
  | o :: os, s => run k os (o.outcome k s).stores

@[simp] theorem run_nil (k : Conditions) (s : Stores σ τ) : run k [] s = s :=
  rfl

@[simp] theorem run_cons (k : Conditions) (o : Occasion σ τ) (os : List (Occasion σ τ))
    (s : Stores σ τ) : run k (o :: os) s = run k os (o.outcome k s).stores :=
  rfl

theorem run_append (k : Conditions) (os os' : List (Occasion σ τ)) (s : Stores σ τ) :
    run k (os ++ os') s = run k os' (run k os s) := by
  induction os generalizing s with
  | nil => rfl
  | cons o os ih => exact ih (o.outcome k s).stores

/-- **Who made a record**: an occasion of a run, with the stores as they were then. -/
def Maker (k : Conditions) (os : List (Occasion σ τ)) (s : Stores σ τ) (e : Occasion σ τ)
    (r : Record) : Prop :=
  ∃ before after, os = before ++ e :: after ∧ e.made? k (run k before s) = some r

namespace Maker

variable {k : Conditions} {os : List (Occasion σ τ)} {s : Stores σ τ} {e : Occasion σ τ}
  {r : Record}

theorem mem (h : Maker k os s e r) : e ∈ os := by
  obtain ⟨before, after, rfl, -⟩ := h
  simp

theorem exists_made (h : Maker k os s e r) : ∃ before, e.made? k (run k before s) = some r := by
  obtain ⟨before, -, -, hr⟩ := h
  exact ⟨before, hr⟩

/-- A record is under the key of the request that made it. -/
theorem key_eq (h : Maker k os s e r) : r.key = e.key k := by
  obtain ⟨before, hr⟩ := h.exists_made
  exact Occasion.key_of_made hr

/-- Who made a record has made it, however the run goes on. -/
theorem append (h : Maker k os s e r) (os' : List (Occasion σ τ)) : Maker k (os ++ os') s e r := by
  obtain ⟨before, after, rfl, hr⟩ := h
  exact ⟨before, after ++ os', by simp, hr⟩

end Maker

variable {k : Conditions} {held : σ → RecordKey → Option Record}

/-! ### Where records come from -/

/-- A record that is there after a request was there before it, or the request made it. -/
theorem held_outcome {o : Occasion σ τ} (hf : Faithful o.recordStore held) {s : Stores σ τ}
    {key : RecordKey} {r : Record} (h : held (o.outcome k s).stores.records key = some r) :
    held s.records key = some r ∨ (o.made? k s = some r ∧ r.key = key) := by
  rw [o.outcome_records] at h
  rcases hm : o.made? k s with _ | new
  · rw [hm] at h
    exact Or.inl h
  · rw [hm] at h
    rcases hf.held_put h with hs | ⟨rfl, hkey⟩
    · exact Or.inl hs
    · exact Or.inr ⟨rfl, hkey.symm⟩

/-- **Where a record comes from**: it was there at the beginning of the run, or one of its
requests made it, under the key of that request. -/
theorem held_run {os : List (Occasion σ τ)} (hf : ∀ o ∈ os, Faithful o.recordStore held)
    {s : Stores σ τ} {key : RecordKey} {r : Record} (h : held (run k os s).records key = some r) :
    held s.records key = some r ∨ (r.key = key ∧ ∃ e, Maker k os s e r) := by
  -- From the end of the run: the last request made the record, or it was there before.
  induction os using List.reverseRecOn with
  | nil => exact Or.inl h
  | append_singleton os o ih =>
    rw [run_append] at h
    rcases held_outcome (hf o (by simp)) h with hs | ⟨hm, hkey⟩
    · rcases ih (fun e he => hf e (by simp [he])) hs with hs | ⟨hkey, e, he⟩
      · exact Or.inl hs
      · exact Or.inr ⟨hkey, e, he.append [o]⟩
    · exact Or.inr ⟨hkey, o, os, [], rfl, hm⟩

/-- In a run that begins without records, a request that is answered from the store is
answered with a record that an earlier request made under the same key. -/
theorem exists_maker_of_hits {os : List (Occasion σ τ)} {q : Occasion σ τ}
    (hf : ∀ o ∈ os ++ [q], Faithful o.recordStore held) {s : Stores σ τ}
    (hs : ∀ key, held s.records key = none) {r : Record} (h : q.Hits k (run k os s) r) :
    r.key = q.key k ∧ ∃ e, Maker k os s e r := by
  have hr := h.held (hf q (by simp))
  rcases held_run (fun o ho => hf o (by simp [ho])) hr with hnone | hmade
  · rw [hs] at hnone
    exact absurd hnone (by simp)
  · exact hmade

/-! ### How long records last -/

/-- A request leaves a record where it is, unless it asks for that record and is not answered
with it. -/
theorem held_outcome_of_settled {o : Occasion σ τ} (hf : Faithful o.recordStore held)
    {s : Stores σ τ} {key : RecordKey} {r : Record} (h : held s.records key = some r)
    (hset : o.key k = key → o.circumstances.cancelled = true ∨ o.Hits k s r) :
    held (o.outcome k s).stores.records key = some r := by
  rcases eq_or_ne (o.key k) key with hkey | hkey
  · rcases hset hkey with hc | hh
    · rw [Occasion.outcome_of_cancelled hc]
      exact h
    · rw [Occasion.outcome_of_hits hh]
      exact h
  · rw [o.outcome_records]
    rcases hm : o.made? k s with _ | new
    · exact h
    · have hne : key ≠ new.key := by
        rw [Occasion.key_of_made hm]
        exact hkey.symm
      rw [Option.elim_some, hf.put_other _ _ _ hne]
      exact h

/-- **How long a record lasts**: as long as all who ask for it are answered with it. -/
theorem held_run_of_settled {os : List (Occasion σ τ)}
    (hf : ∀ o ∈ os, Faithful o.recordStore held) {s : Stores σ τ} {key : RecordKey} {r : Record}
    (h : held s.records key = some r)
    (hset : ∀ before e after, os = before ++ e :: after →
      held (run k before s).records key = some r → e.key k = key →
        e.circumstances.cancelled = true ∨ e.Hits k (run k before s) r) :
    held (run k os s).records key = some r := by
  induction os using List.reverseRecOn with
  | nil => exact h
  | append_singleton os o ih =>
    have hbefore := ih (fun e he => hf e (by simp [he])) fun before e after heq =>
      hset before e (after ++ [o]) (by simp [heq])
    rw [run_append]
    exact held_outcome_of_settled (hf o (by simp)) hbefore (hset os o [] rfl hbefore)

/-! ### A small repository

The requests that the statements about runs are tried on: they are about one function of a
repository with one commit, whose files and version control are given, and there is no model
to ask. -/

/-- Conditions under which no file is left out and a stored record lives for a day. -/
def sampleConditions : Conditions where
  ranges := Stability.defaultRanges
  lifetime := 86400 * Instant.nanosPerSecond
  stageTimeout := 120
  filter := ⟨none, []⟩
  tokenBudget := 4000
  retry := .standard

/-- The hash of the only commit. -/
def sampleHead : String := "1111111111111111111111111111111111111111"

/-- A function that does nothing. -/
def sampleSource : String := "package p\nfunc f() \x7b\n\x7d\n"

/-- The version control that knows some names for revisions and has some files at the only
commit. -/
def sampleVersionControl (refs files : List (String × String)) : VersionControl
  | .ensureRepository => .answer ()
  | .resolve revision =>
    match refs.lookup revision with
    | some hash => .answer hash
    | none => .failure (.command "rev-parse" "unknown revision")
  | .showFile revision path =>
    if revision = sampleHead then .answer (files.lookup path)
    else .failure (.command "show" "unknown revision")
  | .listFiles revision =>
    if revision = sampleHead then .answer (files.map Prod.fst)
    else .failure (.command "ls-tree" "unknown revision")
  | .listCommits .. => .answer []
  | .diff .. => .answer ""

/-- A request about `f` in `a.go`, so many seconds after midnight, while the working tree has
some files. -/
def sampleVisit (v : VersionControl) (files : List (String × String)) (commit : Option String)
    (second : Nat) : Occasion MemoryStore MemoryArtifacts where
  request := ⟨"/", "a.go", "f", commit⟩
  circumstances := {
    versionControl := fun _ => v
    files := .root (.directory (files.map fun f => (f.1, .file (some f.2))))
    model := Synthesis.absent "no model"
    decoder := default
    cancelled := false
    cancelledDuring := fun _ => false
    lookedUpAt := ⟨⟨2024, 1, 1⟩, second, 0⟩
    createdAt := ⟨⟨2024, 1, 1⟩, second, 0⟩ }
  recordStore := MemoryStore.instRecordStore
  artifactStore := MemoryArtifacts.instArtifactStore

theorem undisturbed_sampleVisit (v : VersionControl) (files : List (String × String))
    (commit : Option String) (second : Nat) :
    (sampleVisit v files commit second).Undisturbed where
  notCancelled := rfl
  notInterrupted _ := rfl
  model _ := rfl
  get _ _ h := by cases h
  put _ _ h := by cases h
  putArtifact _ _ _ h := by cases h

/-- Stores in memory without anything in them. -/
def sampleStores : Stores MemoryStore MemoryArtifacts :=
  ⟨.empty, .empty⟩

/-- The version control of a repository with one file, in which everything is committed. -/
def sampleKnown : VersionControl :=
  sampleVersionControl [("HEAD", sampleHead), (sampleHead, sampleHead)] [("a.go", sampleSource)]

/-- A request about a working tree that is as it was committed. -/
def sampleClean (second : Nat) : Occasion MemoryStore MemoryArtifacts :=
  sampleVisit sampleKnown [("a.go", sampleSource)] none second

theorem exists_made_sampleClean :
    ∃ r, (sampleClean 0).made? sampleConditions sampleStores = some r :=
  Option.isSome_iff_exists.mp (by decide +kernel)

end Dossier.Analysis
