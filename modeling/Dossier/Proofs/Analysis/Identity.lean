import Dossier.Proofs.Analysis.Consistency
import Dossier.Record.Function
import Mathlib.Data.List.Basic

/-!
# Whose record an answer is

The key of a function is the path of its file and its name with a number sign between them. Either
may hold number signs of its own, and nothing tells the sign between them from the others: `x#a.py`
with `f` and `x` with `a.py#f` have one key. So a key belongs to as many functions as it has number
signs, and it is the number of signs in the path (`Dossier.FunctionRef.signs`) that says which of
them is meant (`Dossier.FunctionRef.eq_iff_signs_eq`).

A request is answered with a record that is stored under its key, or with one that it makes. A
record that it makes is of the function that it names. One that is stored under its key is of a
function with this key. So the answer is about the function that was asked for
exactly if the path of its file has as many number signs as the path in the request
(`Dossier.Analysis.isAbout_iff`). Where no path has one, nobody is answered with the record of
another function, and no record takes the place of the record of another.

Nothing keeps a request from naming a file that is not there: its record is looked for before the
file is (`Dossier.Analysis.answered_with_another`).
-/

namespace Dossier

/-! ### Functions that share a key -/

/-- A list is cut in one way at an element, when it is known how many of that element come
before the cut. -/
theorem cut_unique {α : Type} [DecidableEq α] {c : α} {xs xs' ys ys' : List α}
    (h : xs ++ c :: ys = xs' ++ c :: ys') (hcount : xs.count c = xs'.count c) :
    xs = xs' ∧ ys = ys' := by
  induction xs generalizing xs' with
  | nil =>
    cases xs' with
    | nil => exact ⟨rfl, (List.cons.inj h).2⟩
    | cons x xs' =>
      -- The other list would begin with the element, which does not come before the cut.
      obtain ⟨rfl, -⟩ := List.cons.inj h
      simp at hcount
  | cons x xs ih =>
    cases xs' with
    | nil =>
      obtain ⟨rfl, -⟩ := List.cons.inj h
      simp at hcount
    | cons x' xs' =>
      obtain ⟨rfl, htail⟩ := List.cons.inj h
      have hrest : xs.count c = xs'.count c := by
        rw [List.count_cons, List.count_cons] at hcount
        exact Nat.add_right_cancel hcount
      obtain ⟨rfl, rfl⟩ := ih htail hrest
      exact ⟨rfl, rfl⟩

namespace FunctionRef

variable {f g : FunctionRef}

/-- The number of number signs in the path of the file. -/
def signs (f : FunctionRef) : Nat :=
  f.filePath.toList.count '#'

theorem toList_key (f : FunctionRef) :
    f.key.toList = f.filePath.toList ++ '#' :: f.functionName.toList := by
  simp [key]

/-- Functions that are stored under one key are of one repository and one fingerprint, and
their paths and names are the same when they are written with a number sign between them. -/
theorem recordKey_eq_iff :
    f.recordKey = g.recordKey ↔
      f.repositoryId = g.repositoryId ∧ f.key = g.key ∧ f.fingerprint = g.fingerprint := by
  simp [recordKey]

/-- **Which of the functions of a key is meant** is told by the number of signs in the path. -/
theorem eq_iff_signs_eq (h : f.recordKey = g.recordKey) : f = g ↔ f.signs = g.signs := by
  refine ⟨fun heq => heq ▸ rfl, fun hsigns => ?_⟩
  obtain ⟨hrepository, hkey, hfingerprint⟩ := recordKey_eq_iff.mp h
  have hcut : f.filePath.toList ++ '#' :: f.functionName.toList =
      g.filePath.toList ++ '#' :: g.functionName.toList := by
    rw [← toList_key, ← toList_key, hkey]
  obtain ⟨hpath, hname⟩ := cut_unique hcut hsigns
  cases f
  cases g
  simp_all [String.toList_inj]

end FunctionRef

namespace Analysis

variable {σ τ : Type} {k : Conditions} {held : σ → RecordKey → Option Record}

/-- **Whether a record is of the function that a request names**: of its repository, its file and
its name. -/
structure Occasion.IsAbout (o : Occasion σ τ) (r : Record) : Prop where
  repository : r.function.repositoryId = repositoryAt o.circumstances.files o.request.root
  file : r.function.filePath = Path.normalize o.file
  name : r.function.functionName = o.request.function

/-- Whether all records that are there are under the keys of their own functions. -/
def Keyed (held : σ → RecordKey → Option Record) (s : σ) : Prop :=
  ∀ key r, held s key = some r → r.key = key

/-- Requests leave records under the keys of their own functions. -/
theorem keyed_run {os : List (Occasion σ τ)} (hf : ∀ o ∈ os, Faithful o.recordStore held)
    {s : Stores σ τ} (hs : Keyed held s.records) : Keyed held (run k os s).records := by
  intro key r h
  rcases held_run hf h with hbefore | ⟨hkey, -⟩
  · exact hs key r hbefore
  · exact hkey

namespace Occasion

variable {o : Occasion σ τ} {s : Stores σ τ} {r : Record}

/-- A record under the key of a request is of the function that the request names exactly if it
bears the name that the request gives to the function. -/
theorem isAbout_iff_function_eq (h : r.key = o.key k) :
    o.IsAbout r ↔ r.function = o.subject k := by
  constructor
  · rintro ⟨hrepository, hfile, hname⟩
    have hfingerprint : r.function.fingerprint = (o.subject k).fingerprint :=
      congrArg RecordKey.fingerprint h
    rcases hrf : r.function with ⟨_, _, _, _⟩
    rw [hrf] at hrepository hfile hname hfingerprint
    subst hrepository hfile hname hfingerprint
    rfl
  · intro heq
    exact ⟨by rw [heq]; rfl, by rw [heq]; rfl, by rw [heq]; rfl⟩

/-- A request that does not find an answer answers with a record of the function it names. -/
theorem isAbout_of_miss {remarks : List Degradation} (hl : o.lookUp k s = .miss remarks)
    (hr : (o.outcome k s).reply = .answer r) : r.function = o.subject k := by
  obtain ⟨made, hmade, hback⟩ := exists_made_of_answer (notCancelled_of_answer hr) hl hr
  have hfunction := (made?_eq_some hmade).2.2.1
  rcases handedBack_eq_answer.mp hback with ⟨-, rfl⟩ | ⟨e, -, rfl⟩
  · exact hfunction
  · exact hfunction

/-- **What answers a request is under its key**, be it stored or new. -/
theorem key_of_answer (hf : Faithful o.recordStore held) (hs : Keyed held s.records)
    (hr : (o.outcome k s).reply = .answer r) : r.key = o.key k := by
  have hc := notCancelled_of_answer hr
  rcases hl : o.lookUp k s with found | remarks | _
  · have hits : o.Hits k s found := ⟨hc, hl⟩
    rw [outcome_of_hits hits] at hr
    obtain rfl := Reply.answer.inj hr
    exact hs _ _ (hits.held hf)
  · rw [Record.key, isAbout_of_miss hl hr, key]
  · rw [outcome_of_stuck hc hl] at hr
    cases hr

end Occasion

/-- A record leaves those of other functions where they are, if the paths have equally many number
signs. -/
theorem held_put_of_ne {i : RecordStore σ} (hf : Faithful i held) (s : σ) {new : Record}
    {f : FunctionRef} (hne : new.function ≠ f) (hsigns : new.function.signs = f.signs) :
    held (i.put s new).1 f.recordKey = held s f.recordKey := by
  refine hf.put_other s new _ fun hkey => hne ?_
  exact (FunctionRef.eq_iff_signs_eq hkey.symm).mpr hsigns

/-- **When a request is answered about the function that it names.** First, functions share a key
only if the numbers of number signs in their paths tell them apart, so that a record is never put
in the place of the record of a function whose path has as many. Second, in a run that begins with
records under their own keys, every answer is under the key of its request; a new record is of the
function that was asked for, and so is any record exactly if its path has as many number signs as
the path of the request. -/
theorem isAbout_iff (k : Conditions) (held : σ → RecordKey → Option Record) :
    (∀ f g : FunctionRef, f.recordKey = g.recordKey → (f = g ↔ f.signs = g.signs)) ∧
    (∀ (i : RecordStore σ) (s : σ) (new : Record) (f : FunctionRef), Faithful i held →
      new.function ≠ f → new.function.signs = f.signs →
      held (i.put s new).1 f.recordKey = held s f.recordKey) ∧
    (∀ (os : List (Occasion σ τ)) (q : Occasion σ τ) (s : Stores σ τ) (r : Record),
      (∀ o ∈ os ++ [q], Faithful o.recordStore held) → Keyed held s.records →
      (q.outcome k (run k os s)).reply = .answer r →
      r.key = q.key k ∧
        ((∃ remarks, q.lookUp k (run k os s) = .miss remarks) → q.IsAbout r) ∧
        (q.IsAbout r ↔ r.function.signs = (q.subject k).signs)) := by
  refine ⟨fun f g => FunctionRef.eq_iff_signs_eq, fun i s new f hf => held_put_of_ne hf s, ?_⟩
  intro os q s r hf hs hr
  have hkeyed : Keyed held (run k os s).records := keyed_run (fun o ho => hf o (by simp [ho])) hs
  have hkey := Occasion.key_of_answer (hf q (by simp)) hkeyed hr
  refine ⟨hkey, ?_, ?_⟩
  · rintro ⟨remarks, hl⟩
    exact (Occasion.isAbout_iff_function_eq hkey).mpr (Occasion.isAbout_of_miss hl hr)
  · rw [Occasion.isAbout_iff_function_eq hkey]
    exact FunctionRef.eq_iff_signs_eq hkey

/-! ### A file with a number sign in its name -/

theorem keyed_sampleStores : Keyed MemoryStore.get? sampleStores.records := by
  rintro key r h
  cases h

/-- A request about a file without number signs is answered about its function, also when it is
asked for again. -/
theorem isAbout_iff_clean :
    ∃ r, ((sampleClean 1).outcome sampleConditions
        (run sampleConditions [sampleClean 0] sampleStores)).reply = .answer r ∧
      (sampleClean 1).IsAbout r := by
  obtain ⟨r, hr⟩ := exists_made_sampleClean
  have hreply := Occasion.outcome_of_hits (hits_of_made_in_memory (o := sampleClean 0)
    (q := sampleClean 1) rfl rfl hr rfl rfl (by decide))
  have hf : ∀ o ∈ [sampleClean 0] ++ [sampleClean 1],
      Faithful o.recordStore MemoryStore.get? := by
    simpa using ⟨MemoryStore.faithful, MemoryStore.faithful⟩
  have hfunction := (Occasion.made?_eq_some hr).2.2.1
  have hsubject : (sampleClean 0).subject sampleConditions =
      (sampleClean 1).subject sampleConditions := rfl
  -- Nothing else is known of the two occasions, so that nothing is computed from here on.
  generalize sampleClean 0 = o, sampleClean 1 = q at *
  have hanswer : (q.outcome sampleConditions (run sampleConditions [o] sampleStores)).reply =
      .answer r := by rw [hreply]
  obtain ⟨-, -, habout⟩ := (isAbout_iff sampleConditions MemoryStore.get?).2.2 [o] q sampleStores r
    hf keyed_sampleStores hanswer
  exact ⟨r, hanswer, habout.mpr (by rw [hfunction, hsubject])⟩

/-- The version control of a repository whose only file has a number sign in its name. -/
def sampleSigned : VersionControl :=
  sampleVersionControl [("HEAD", sampleHead), (sampleHead, sampleHead)]
    [("x#a.go", sampleSource)]

/-- A request about a function of the repository with this file. -/
def sampleNamed (file function : String) : Occasion MemoryStore MemoryArtifacts :=
  { sampleVisit sampleSigned [("x#a.go", sampleSource)] none 0 with
    request := ⟨"/", file, function, none⟩ }

theorem exists_made_sampleNamed :
    ∃ r, (sampleNamed "x#a.go" "f").made? sampleConditions sampleStores = some r :=
  Option.isSome_iff_exists.mp (by decide +kernel)

/-- The function and one of a file that is not there have one key. -/
theorem key_sampleNamed :
    (sampleNamed "x" "a.go#f").key sampleConditions =
      (sampleNamed "x#a.go" "f").key sampleConditions := by
  decide +kernel

theorem subject_sampleNamed :
    (sampleNamed "x#a.go" "f").subject sampleConditions ≠
      (sampleNamed "x" "a.go#f").subject sampleConditions := by
  decide +kernel

/-- **A request is answered with the record of another function.** It names a file that is not
there, in no known language, and is answered all the same once the record of a function with its
key has been stored. -/
theorem answered_with_another :
    ∃ r, ((sampleNamed "x" "a.go#f").outcome sampleConditions
        (run sampleConditions [sampleNamed "x#a.go" "f"] sampleStores)).reply = .answer r ∧
      ¬(sampleNamed "x" "a.go#f").IsAbout r := by
  obtain ⟨r, hr⟩ := exists_made_sampleNamed
  have hreply := Occasion.outcome_of_hits (hits_of_made_in_memory (o := sampleNamed "x#a.go" "f")
    (q := sampleNamed "x" "a.go#f") rfl rfl hr key_sampleNamed rfl (by decide))
  refine ⟨r, by rw [hreply], fun habout => ?_⟩
  have hkey : r.key = (sampleNamed "x" "a.go#f").key sampleConditions :=
    (Occasion.key_of_made hr).trans key_sampleNamed.symm
  have heq := (Occasion.isAbout_iff_function_eq hkey).mp habout
  rw [(Occasion.made?_eq_some hr).2.2.1] at heq
  exact subject_sampleNamed heq

end Analysis

end Dossier
