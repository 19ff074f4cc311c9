import Dossier.Proofs.Analysis.Reuse
import Dossier.Proofs.Structure.Assembly

/-!
# Answers about the working tree

The fingerprint of a working tree is meant to say what the file of the function says, blanks
at its ends apart. It does so as long as there is something to say: two requests that see a
text in time have the same fingerprint only if the texts agree
(`Dossier.Analysis.Occasion.AtHead.trim_eq`). For this the head must not look like a
fingerprint that is made up, and the texts of the run need distinct digests. Digests are cut
off, so not all texts there are can have distinct ones.

There are two ways to have a fingerprint without a text, and each of them is also the
fingerprint of someone who had one. A file that cannot be read leaves the bare head, which
names the text that was committed. And when the version control does not answer in time, the
file is not looked at, and the fingerprint is a word that stands for every text. So a request
that was in time is answered from the store rightly if and only if its file can be read, which
is `Dossier.Analysis.current_of_hits`.
-/

namespace Dossier.Analysis

variable {σ τ : Type} {k : Conditions}

/-! ### Fingerprints -/

/-- The character before the digest in a fingerprint. -/
theorem append_plus_inj {base base' digest digest' : String} (hb : '+' ∉ base.toList)
    (hb' : '+' ∉ base'.toList) (h : base ++ "+" ++ digest = base' ++ "+" ++ digest') :
    digest = digest' := by
  have hlist : base.toList ++ '+' :: digest.toList = base'.toList ++ '+' :: digest'.toList := by
    simpa using congrArg String.toList h
  -- If one base were longer, the plus sign of the other fingerprint would be in it.
  rcases List.append_eq_append_iff.mp hlist with ⟨cs, hcs, hrest⟩ | ⟨cs, hcs, hrest⟩
  · rcases cs with _ | ⟨c, cs⟩
    · exact String.toList_inj.mp (List.cons.inj hrest).2
    · obtain ⟨rfl, -⟩ := List.cons.inj hrest
      exact absurd (by simp [hcs]) hb'
  · rcases cs with _ | ⟨c, cs⟩
    · exact (String.toList_inj.mp (List.cons.inj hrest).2).symm
    · obtain ⟨rfl, -⟩ := List.cons.inj hrest
      exact absurd (by simp [hcs]) hb

theorem plus_mem_fingerprint (base digest : String) :
    '+' ∈ (base ++ "+" ++ digest).toList := by
  simp

theorem plus_not_mem_noHead : '+' ∉ noHead.toList := by
  decide

/-- **The fingerprint of a text**: the head, if the text is as it was committed, and otherwise
one with the digest of the text. -/
theorem fingerprint_some (head committed : Option String) (text : String) :
    (∃ hash, head = some hash ∧ fingerprint head committed (some text) = hash ∧
        committed.map Text.trim = some (Text.trim text)) ∨
      fingerprint head committed (some text) =
        head.getD noHead ++ "+" ++ contentDigest text := by
  rw [fingerprint]
  split
  · next h =>
    rw [Bool.and_eq_true, beq_iff_eq] at h
    obtain ⟨hash, rfl⟩ := Option.isSome_iff_exists.mp h.1
    exact Or.inl ⟨hash, rfl, rfl, h.2⟩
  · exact Or.inr rfl

/-! ### What is seen of the working tree -/

/-- What is seen in time: the file as it is, and what the version control has answered. -/
theorem sight_of_inquiry {v : VersionControl} {files : Place} {root path : String} {sight : Sight}
    (h : (Sight.inquiry v files root path).reply = .answer sight) :
    sight.current = (files.readText (Path.join root path)).toOption ∧
      (sight.head.toOption = none ∨
        ∃ hash, v (.resolve "HEAD") = .answer hash ∧ sight.head.toOption = some hash ∧
          (sight.committed = none ∨ v (.showFile hash path) = .answer sight.committed)) := by
  simp only [Sight.inquiry] at h
  obtain ⟨head, hhead, h⟩ := Inquiry.reply_bind_eq_answer.mp h
  rcases Inquiry.attempt_ask_eq_answer hhead with ⟨e, rfl⟩ | ⟨hash, hresolve, rfl⟩
  · obtain rfl := Reply.answer.inj h
    exact ⟨rfl, Or.inl rfl⟩
  · obtain ⟨committed, hshow, h⟩ := Inquiry.reply_bind_eq_answer.mp h
    obtain rfl := Reply.answer.inj h
    refine ⟨rfl, Or.inr ⟨hash, hresolve, rfl, ?_⟩⟩
    rcases Inquiry.attempt_ask_eq_answer hshow with ⟨e, rfl⟩ | ⟨c, hc, rfl⟩
    · exact Or.inl rfl
    · right
      rcases c with _ | c
      · exact hc
      · exact hc

namespace Occasion

/-- What the file of the request says, if it can be read. -/
def text (o : Occasion σ τ) : Option String :=
  (o.circumstances.files.readText (Path.join o.request.root o.file)).toOption

/-- Whether the version control answers in time while the working tree is looked at. -/
def InTime (o : Occasion σ τ) : Prop :=
  ∃ sight, (Sight.inquiry (o.circumstances.versionControl .cache) o.circumstances.files
    o.request.root o.file).reply = .answer sight

/-- Whether the file says now what it said then, blanks at the ends apart. -/
def SaysAs (now before : Occasion σ τ) : Prop :=
  ∃ text old, now.text = some text ∧ before.text = some old ∧ Text.trim text = Text.trim old

/-- **An occasion at a fixed head**: the request is about some function of the file in the
working tree, and whenever the version control tells the head or the text that was committed,
it tells the same. What the file says, and whether the version control answers, is open. -/
structure AtHead (o : Occasion σ τ) (root path head : String) (committed : Option String) :
    Prop where
  noCommit : o.request.commit = none
  inRoot : o.request.root = root
  inFile : o.file = path
  /-- The path leads to the file also when it is put into its usual form once more. -/
  usual : o.circumstances.files.readText (Path.join root (Path.normalize path)) =
    o.circumstances.files.readText (Path.join root path)
  resolve : ∀ hash, o.circumstances.versionControl .cache (.resolve "HEAD") = .answer hash →
    hash = head
  showFile : ∀ c, o.circumstances.versionControl .cache (.showFile head path) = .answer c →
    c = committed

variable {o : Occasion σ τ}

theorem snapshot_of_workingTree (hc : o.request.commit = none) :
    o.snapshot k = Snapshot.ofWorkingTree k o.circumstances o.request.root o.file := by
  unfold snapshot Snapshot.take
  rw [hc]

theorem tree_of_workingTree (hc : o.request.commit = none) :
    (o.snapshot k).tree = .workingTree o.circumstances.files o.request.root := by
  rw [snapshot_of_workingTree hc]
  rfl

/-- **What is looked at too late has no fingerprint of its own.** -/
theorem fingerprint_of_late (hc : o.request.commit = none) (h : ¬o.InTime) :
    (o.snapshot k).fingerprint = noHead := by
  rw [snapshot_of_workingTree hc, Snapshot.ofWorkingTree, Conditions.finish]
  split
  · next sight hsight =>
    split at hsight
    · next seen hseen => exact absurd ⟨seen, hseen⟩ h
    · cases hsight
    · cases hsight
  · rfl

/-- A structure in the working tree is evidence of a text. -/
theorem exists_source_of_structural (hc : o.request.commit = none) {a : Structure.Analysis}
    (h : o.structural k = .ok a) :
    ∃ source, o.circumstances.files.readText
      (Path.join o.request.root (Path.normalize o.file)) = .ok source := by
  rw [structural, snapshot_of_workingTree hc] at h
  obtain ⟨source, hread⟩ := Structure.exists_read_of_analyze (reply_of_structureStage h)
  have hmap := Reply.answer.inj hread
  rcases htext : o.circumstances.files.readText
      (Path.join o.request.root (Path.normalize o.file)) with e | text
  · rw [htext] at hmap
    cases hmap
  · exact ⟨text, rfl⟩

namespace AtHead

variable {root path head : String} {committed : Option String}

/-- Who makes a record of the working tree has seen a text. -/
theorem exists_text (h : o.AtHead root path head committed) {a : Structure.Analysis}
    (ha : o.structural k = .ok a) : ∃ text, o.text = some text := by
  obtain ⟨source, hsource⟩ := exists_source_of_structural h.noCommit ha
  rw [h.inFile, h.inRoot, h.usual] at hsource
  refine ⟨source, ?_⟩
  rw [text, h.inFile, h.inRoot, hsource]
  rfl

/-- **The fingerprint of a text that is seen in time**: the head, when the text is as it was
committed, and otherwise the head or the word for none with the digest of the text. -/
theorem fingerprint_of_text (h : o.AtHead root path head committed) (hin : o.InTime)
    {text : String} (ht : o.text = some text) :
    ((o.snapshot k).fingerprint = head ∧ committed.map Text.trim = some (Text.trim text)) ∨
      ∃ base, (base = head ∨ base = noHead) ∧
        (o.snapshot k).fingerprint = base ++ "+" ++ contentDigest text := by
  obtain ⟨sight, hsight⟩ := hin
  have hfingerprint : (o.snapshot k).fingerprint =
      fingerprint sight.head.toOption sight.committed (some text) := by
    rw [snapshot_of_workingTree h.noCommit, Snapshot.ofWorkingTree, Conditions.finish, hsight]
    rw [← ht, Occasion.text, ← (sight_of_inquiry hsight).1]
  rw [hfingerprint]
  rcases (sight_of_inquiry hsight).2 with hnone | ⟨hash, hresolve, hhead, hshow⟩
  · -- No head was seen, so that there is nothing to compare the text with.
    rcases fingerprint_some sight.head.toOption sight.committed text with ⟨hash, hs, -⟩ | heq
    · rw [hnone] at hs
      cases hs
    · exact Or.inr ⟨noHead, Or.inr rfl, by rw [heq, hnone]; rfl⟩
  · -- The head was seen, and with it what is committed there.
    obtain rfl := h.resolve hash hresolve
    rcases fingerprint_some sight.head.toOption sight.committed text with
      ⟨hash', hs, heq, htrim⟩ | heq
    · rw [hhead] at hs
      obtain rfl := Option.some.inj hs
      refine Or.inl ⟨heq, ?_⟩
      rcases hshow with hshow | hshow
      · rw [hshow] at htrim
        cases htrim
      · rw [h.inFile] at hshow
        rw [← h.showFile _ hshow]
        exact htrim
    · exact Or.inr ⟨hash, Or.inl rfl, by rw [heq, hhead]; rfl⟩

/-- A text that is seen in time has a fingerprint that does not stand for every text. -/
theorem fingerprint_ne_noHead (h : o.AtHead root path head committed) (hname : head ≠ noHead)
    (hin : o.InTime) {text : String} (ht : o.text = some text) :
    (o.snapshot k).fingerprint ≠ noHead := by
  rcases h.fingerprint_of_text hin ht with ⟨heq, -⟩ | ⟨base, -, heq⟩
  · rw [heq]
    exact hname
  · intro hno
    have hplus := plus_mem_fingerprint base (contentDigest text)
    rw [← heq, hno] at hplus
    exact plus_not_mem_noHead hplus

/-- **Texts that are seen in time under one fingerprint agree**, blanks at their ends apart. -/
theorem trim_eq {o' : Occasion σ τ} (h : o.AtHead root path head committed)
    (h' : o'.AtHead root path head committed) (hplus : '+' ∉ head.toList) (hin : o.InTime)
    (hin' : o'.InTime) {text text' : String} (ht : o.text = some text)
    (ht' : o'.text = some text')
    (hdigest : contentDigest text = contentDigest text' → text = text')
    (heq : (o.snapshot k).fingerprint = (o'.snapshot k).fingerprint) :
    Text.trim text = Text.trim text' := by
  have hbase : ∀ base, base = head ∨ base = noHead → '+' ∉ base.toList := by
    rintro base (rfl | rfl)
    · exact hplus
    · exact plus_not_mem_noHead
  -- A fingerprint is the head alone or ends with a digest, on either side.
  rcases h.fingerprint_of_text hin ht with ⟨hf, hc⟩ | ⟨base, hb, hf⟩ <;>
    rcases h'.fingerprint_of_text hin' ht' with ⟨hf', hc'⟩ | ⟨base', hb', hf'⟩
  -- Both texts are as they were committed.
  · exact Option.some.inj (hc.symm.trans hc')
  -- The head has no plus sign, and a fingerprint with a digest has one.
  · rw [hf, hf'] at heq
    exact absurd (heq ▸ plus_mem_fingerprint base' (contentDigest text')) hplus
  · rw [hf, hf'] at heq
    exact absurd (heq ▸ plus_mem_fingerprint base (contentDigest text)) hplus
  -- The digests agree.
  · rw [hf, hf'] at heq
    rw [hdigest (append_plus_inj (hbase base hb) (hbase base' hb') heq)]

end AtHead

end Occasion

/-- Whether the texts that a file has along a run have distinct digests. -/
def DistinctDigests (os : List (Occasion σ τ)) : Prop :=
  ∀ o ∈ os, ∀ o' ∈ os, ∀ text text', o.text = some text → o'.text = some text' →
    contentDigest text = contentDigest text' → text = text'

/-- A file that says the same whenever it says anything has distinct digests. -/
theorem distinctDigests_of_forall {os : List (Occasion σ τ)} (source : String)
    (h : ∀ o ∈ os, ∀ text, o.text = some text → source = text) : DistinctDigests os := by
  rintro o ho o' ho' text text' ht ht' -
  rw [← h o ho text ht, ← h o' ho' text' ht']

/-- **When an answer from the store is about the file as it is.** In a run at a fixed head that
begins without records, a request that is answered from the store is answered with a record
that an earlier request made. If the request was in time, the file says what it said then, blanks
at its ends apart, exactly if the file can be read. If it was not, the other one was not either,
and both have the fingerprint that says nothing of the file. -/
theorem current_of_hits {held : σ → RecordKey → Option Record} {root path head : String}
    {committed : Option String} {os : List (Occasion σ τ)} {q : Occasion σ τ} {s : Stores σ τ}
    {r : Record} (hos : ∀ o ∈ os ++ [q], o.AtHead root path head committed)
    (hplus : '+' ∉ head.toList) (hname : head ≠ noHead) (hdigest : DistinctDigests (os ++ [q]))
    (hf : ∀ o ∈ os ++ [q], Faithful o.recordStore held) (hs : ∀ key, held s.records key = none)
    (hq : q.Hits k (run k os s) r) :
    (∃ e, Maker k os s e r) ∧
      ∀ e, Maker k os s e r →
        (q.InTime → (q.SaysAs e ↔ ∃ text, q.text = some text)) ∧
          (¬q.InTime → ¬e.InTime ∧ r.function.fingerprint = noHead) := by
  obtain ⟨hkey, hmaker⟩ := exists_maker_of_hits hf hs hq
  refine ⟨hmaker, fun e he => ?_⟩
  have hqq := hos q (by simp)
  have hee := hos e (by simp [he.mem])
  have hqfingerprint : r.function.fingerprint = (q.snapshot k).fingerprint :=
    congrArg RecordKey.fingerprint hkey
  obtain ⟨before, hmade⟩ := he.exists_made
  have hefingerprint : r.function.fingerprint = (e.snapshot k).fingerprint :=
    congrArg RecordKey.fingerprint he.key_eq
  obtain ⟨-, -, -, -, a, ha, -⟩ := Occasion.made?_eq_some hmade
  obtain ⟨old, hold⟩ := hee.exists_text ha
  constructor
  · intro hin
    constructor
    · rintro ⟨text, -, htext, -, -⟩
      exact ⟨text, htext⟩
    · rintro ⟨text, htext⟩
      -- A maker that was late has a fingerprint that says nothing of the file.
      have hein : e.InTime := by
        by_contra hlate
        refine hqq.fingerprint_ne_noHead (k := k) hname hin htext ?_
        rw [← hqfingerprint, hefingerprint, Occasion.fingerprint_of_late hee.noCommit hlate]
      refine ⟨text, old, htext, hold, ?_⟩
      exact hqq.trim_eq hee hplus hin hein htext hold
        (hdigest q (by simp) e (by simp [he.mem]) text old htext hold)
        (hqfingerprint.symm.trans hefingerprint)
  · intro hlate
    have hno := Occasion.fingerprint_of_late hqq.noCommit hlate (k := k)
    rw [← hqfingerprint] at hno
    refine ⟨fun hein => ?_, hno⟩
    exact hee.fingerprint_ne_noHead hname hein hold (hefingerprint.symm.trans hno)

/-! ### A file that is there, and one that is gone -/

theorem normalize_sample : Path.normalize "a.go" = "a.go" := by
  decide +kernel

theorem atHead_sampleVisit (files : List (String × String)) (second : Nat) :
    (sampleVisit sampleKnown files none second).AtHead "/" "a.go" sampleHead
      (some sampleSource) where
  noCommit := rfl
  inRoot := rfl
  inFile := normalize_sample
  usual := by rw [normalize_sample]
  resolve := fun _ h => (Reply.answer.inj h).symm
  showFile := fun _ h => (Reply.answer.inj h).symm

theorem inTime_sampleVisit (files : List (String × String)) (second : Nat) :
    (sampleVisit sampleKnown files none second).InTime :=
  ⟨_, rfl⟩

theorem text_sampleClean (second : Nat) : (sampleClean second).text = some sampleSource := by
  have h : (sampleClean 0).text = some sampleSource := by decide +kernel
  exact h

/-- A request about a file that has been deleted. -/
def sampleGone : Occasion MemoryStore MemoryArtifacts :=
  sampleVisit sampleKnown [] none 1

theorem text_sampleGone : sampleGone.text = none := by
  decide +kernel

/-- A deleted file has the fingerprint of the text that was committed. -/
theorem key_sampleGone :
    sampleGone.key sampleConditions = (sampleClean 0).key sampleConditions := by
  decide +kernel

/-- A request about an unchanged file is answered from the store, and the file still says what
it said. -/
theorem current_of_hits_unchanged :
    ∃ r, (sampleClean 1).Hits sampleConditions
        (run sampleConditions [sampleClean 0] sampleStores) r ∧
      (sampleClean 1).SaysAs (sampleClean 0) := by
  obtain ⟨r, hr⟩ := exists_made_sampleClean
  have hits := hits_of_made_in_memory (o := sampleClean 0) (q := sampleClean 1) rfl rfl hr rfl rfl
    (by decide)
  have hmaker : Maker sampleConditions [sampleClean 0] sampleStores (sampleClean 0) r :=
    ⟨[], [], rfl, hr⟩
  have hhead : ∀ o ∈ [sampleClean 0] ++ [sampleClean 1],
      o.AtHead "/" "a.go" sampleHead (some sampleSource) := by
    simpa using ⟨atHead_sampleVisit _ 0, atHead_sampleVisit _ 1⟩
  have hdigest : DistinctDigests ([sampleClean 0] ++ [sampleClean 1]) :=
    distinctDigests_of_forall sampleSource (by simp [text_sampleClean])
  have hf : ∀ o ∈ [sampleClean 0] ++ [sampleClean 1], Faithful o.recordStore MemoryStore.get? := by
    simpa using ⟨MemoryStore.faithful, MemoryStore.faithful⟩
  obtain ⟨-, hall⟩ :=
    current_of_hits hhead (by decide) (by decide) hdigest hf (fun _ => rfl) hits
  exact ⟨r, hits, ((hall _ hmaker).1 (inTime_sampleVisit _ _)).mpr ⟨_, text_sampleClean 1⟩⟩

/-- **A deleted file is answered for from the store.** The head is the same, the version control
answers, and the record of the file as it was is handed out although there is no file. -/
theorem hits_of_deleted :
    ∃ r, Maker sampleConditions [sampleClean 0] sampleStores (sampleClean 0) r ∧
      sampleGone.Hits sampleConditions (run sampleConditions [sampleClean 0] sampleStores) r ∧
      (∀ o ∈ [sampleClean 0, sampleGone], o.AtHead "/" "a.go" sampleHead (some sampleSource)) ∧
      DistinctDigests [sampleClean 0, sampleGone] ∧ sampleGone.InTime ∧
      sampleGone.text = none ∧ ¬sampleGone.SaysAs (sampleClean 0) := by
  obtain ⟨r, hr⟩ := exists_made_sampleClean
  have hits := hits_of_made_in_memory (o := sampleClean 0) (q := sampleGone) rfl rfl hr
    key_sampleGone rfl (by decide)
  refine ⟨r, ⟨[], [], rfl, hr⟩, hits, ?_, ?_, inTime_sampleVisit _ _, text_sampleGone, ?_⟩
  · simpa using ⟨atHead_sampleVisit _ 0, atHead_sampleVisit _ 1⟩
  · exact distinctDigests_of_forall sampleSource (by simp [text_sampleClean, text_sampleGone])
  · rintro ⟨text, -, ht, -, -⟩
    rw [text_sampleGone] at ht
    cases ht

/-! ### A version control that is silent -/

/-- The version control of the small repository, which does not tell the head in time. -/
def sampleSilent : VersionControl
  | .resolve _ => .stall
  | call => sampleKnown call

/-- A request about a file with a text, while the version control is silent. -/
def sampleLate (source : String) (second : Nat) : Occasion MemoryStore MemoryArtifacts :=
  sampleVisit sampleSilent [("a.go", source)] none second

theorem exists_made_sampleLate :
    ∃ r, (sampleLate sampleSource 0).made? sampleConditions sampleStores = some r :=
  Option.isSome_iff_exists.mp (by decide +kernel)

/-- When nobody is in time, even a file that says something else is answered for with the
record of what it said before. -/
theorem hits_of_late :
    ∃ r, Maker sampleConditions [sampleLate sampleSource 0] sampleStores
        (sampleLate sampleSource 0) r ∧
      (sampleLate "package q" 1).Hits sampleConditions
        (run sampleConditions [sampleLate sampleSource 0] sampleStores) r ∧
      ¬(sampleLate "package q" 1).SaysAs (sampleLate sampleSource 0) := by
  obtain ⟨r, hr⟩ := exists_made_sampleLate
  have hkey : (sampleLate "package q" 1).key sampleConditions =
      (sampleLate sampleSource 0).key sampleConditions := by decide +kernel
  have hits := hits_of_made_in_memory (o := sampleLate sampleSource 0)
    (q := sampleLate "package q" 1) rfl rfl hr hkey rfl (by decide)
  refine ⟨r, ⟨[], [], rfl, hr⟩, hits, ?_⟩
  rintro ⟨text, old, htext, hold, htrim⟩
  have hnow : (sampleLate "package q" 1).text = some "package q" := by decide +kernel
  have hthen : (sampleLate sampleSource 0).text = some sampleSource := by decide +kernel
  obtain rfl := Option.some.inj (htext.symm.trans hnow)
  obtain rfl := Option.some.inj (hold.symm.trans hthen)
  revert htrim
  decide +kernel

end Dossier.Analysis
