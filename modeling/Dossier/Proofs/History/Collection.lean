import Dossier.History.Collection
import Dossier.Proofs.VersionControl.Inquiry

/-!
# What a history is evidence of, and its order

The history of a function is looked into with calls that are all needed: the first one that
fails ends the search, so a history that is known is evidence that every call was answered
(`Dossier.History.conclusive_collect`). It says nothing about the text of the file. Whatever that
text is, and whether or not the function can be made out in it, there are lines or a name to ask
for.

A version control lists commits in an order of its own. The history is the list of the same commits
in the order of their times and hashes, each completed by itself: the changes that it came without
are asked for by its hash, and the issues are those that its message names. So commits that differ
in time or hash make up one history, in whichever order they are listed
(`Dossier.History.collect_determined_by_commits`).
-/

namespace Dossier

namespace History

/-! ### Which calls are needed -/

variable {v : VersionControl} {file function revision : String}

theorem conclusive_complete (range : LineRange) (c : Commit) :
    (complete v file range c).Conclusive v := by
  unfold complete
  split
  · exact (Inquiry.conclusive_ask _).bind fun _ => Inquiry.conclusive_pure _
  · exact (Inquiry.conclusive_pure _).bind fun _ => Inquiry.conclusive_pure _

/-- **A history is known exactly if every call is answered.** -/
theorem conclusive_collect : (collect v file function revision).Conclusive v :=
  (Inquiry.conclusive_ask _).bind fun _ => (Inquiry.conclusive_ask _).bind fun _ =>
    (Inquiry.conclusive_ask _).bind fun _ =>
      (Inquiry.conclusive_forAll (conclusive_complete _) _).bind fun _ =>
        Inquiry.conclusive_pure _

/-- All that completing a commit asks for is its changes. -/
theorem asksOnly_complete {kind : VcsCall → Prop} {range : LineRange} {c : Commit}
    (h : kind (.diff c.hash file range)) : (complete v file range c).AsksOnly kind := by
  unfold complete
  split
  · exact (Inquiry.asksOnly_ask h).bind fun _ => Inquiry.asksOnly_pure _
  · exact (Inquiry.asksOnly_pure _).bind fun _ => Inquiry.asksOnly_pure _

/-- **What a history asks for**: besides the repository, the text of the file, its commits and their
changes. -/
theorem asksOnly_collect {kind : VcsCall → Prop} (hrepository : kind .ensureRepository)
    (hshow : kind (.showFile revision file))
    (hlist : ∀ range, kind (.listCommits file range revision))
    (hdiff : ∀ hash range, kind (.diff hash file range)) :
    (collect v file function revision).AsksOnly kind :=
  (Inquiry.asksOnly_ask hrepository).bind fun _ => (Inquiry.asksOnly_ask hshow).bind fun _ =>
    (Inquiry.asksOnly_ask (hlist _)).bind fun _ =>
      (Inquiry.asksOnly_forAll (fun _ => asksOnly_complete (hdiff _ _)) _).bind fun _ =>
        Inquiry.asksOnly_pure _

/-- **A history is in order.** -/
theorem pairwise_collect {commits : List Commit}
    (h : (collect v file function revision).reply = .answer commits) :
    commits.Pairwise fun a b => a.notAfter b := by
  obtain ⟨-, -, h⟩ := Inquiry.reply_bind_eq_answer.mp h
  obtain ⟨source, -, h⟩ := Inquiry.reply_bind_eq_answer.mp h
  obtain ⟨listed, -, h⟩ := Inquiry.reply_bind_eq_answer.mp h
  obtain ⟨completed, -, h⟩ := Inquiry.reply_bind_eq_answer.mp h
  obtain rfl := Reply.answer.inj h
  exact Commit.pairwise_sort completed

end History

/-! ### The order of the commits -/

/-- A version control that lists these commits, whatever it is asked for, and otherwise answers like
another. -/
def VersionControl.listing (v : VersionControl) (commits : List Commit) : VersionControl
  | .listCommits _ _ _ => .answer commits
  | call => v call

namespace Commit

variable {a b c : Commit} {cs cs' : List Commit}

/-- **Whether a commit comes before another**: it is older, or as old and its hash comes first. -/
def Before (a b : Commit) : Prop :=
  a.timestamp < b.timestamp ∨ (a.timestamp = b.timestamp ∧ a.hash < b.hash)

/-- Whether two commits differ in time or hash. -/
def Apart (a b : Commit) : Prop :=
  (a.timestamp, a.hash) ≠ (b.timestamp, b.hash)

theorem Before.asymm (hab : a.Before b) (hba : b.Before a) : False := by
  rcases hab with hab | ⟨htime, hab⟩
  · rcases hba with hba | ⟨htime, -⟩
    · exact Int.lt_asymm hab hba
    · rw [htime] at hab
      exact Int.lt_irrefl _ hab
  · rcases hba with hba | ⟨-, hba⟩
    · rw [htime] at hba
      exact Int.lt_irrefl _ hba
    · exact String.lt_asymm hab hba

/-- Commits that differ in time or hash do not come beside each other. -/
theorem Apart.before (h : a.Apart b) (hab : a.notAfter b) : a.Before b := by
  rcases notAfter_iff.mp hab with htime | ⟨htime, hhash⟩
  · exact Or.inl htime
  · refine Or.inr ⟨htime, String.not_le.mp fun hba => h ?_⟩
    rw [htime, String.le_antisymm hhash hba]

/-- **Commits that differ in time or hash are sorted strictly.** -/
theorem pairwise_before_sort (h : cs.Pairwise Apart) : (sort cs).Pairwise Before := by
  have happart : (sort cs).Pairwise Apart :=
    (Order.sort_perm notAfter cs).symm.pairwise h fun hab => Ne.symm hab
  exact ((pairwise_sort cs).and happart).imp fun hab => hab.2.before hab.1

/-- Sorting such commits, it is no matter in which order they come. -/
theorem sort_eq_of_perm (h : cs.Pairwise Apart) (hperm : cs'.Perm cs) : sort cs' = sort cs := by
  have h' : cs'.Pairwise Apart := hperm.symm.pairwise h fun hab => Ne.symm hab
  have hsorted : (sort cs').Perm (sort cs) :=
    (Order.sort_perm notAfter cs').trans (hperm.trans (Order.sort_perm notAfter cs).symm)
  exact hsorted.eq_of_pairwise (fun _ _ _ _ hab hba => (hab.asymm hba).elim)
    (pairwise_before_sort h') (pairwise_before_sort h)

end Commit

namespace History

variable {v : VersionControl} {file function revision : String} {source : Option String}
  {patch : String → String} {range : LineRange}

/-- **A commit as a history tells it**, given the changes that are on record for each hash. -/
def completed (patch : String → String) (c : Commit) : Commit :=
  { c with
    diff := if c.diff.isEmpty then patch c.hash else c.diff
    issueIds := Issues.ofMessage c.message }

/-- A commit is completed by itself. -/
theorem reply_complete (hpatch : ∀ hash, v (.diff hash file range) = .answer (patch hash))
    (c : Commit) : (complete v file range c).reply = .answer (completed patch c) := by
  unfold complete completed
  split
  · exact Inquiry.reply_bind (show (Inquiry.ask v _).reply = _ from hpatch c.hash) _
  · rfl

/-- What a history comes to when its calls are answered. -/
theorem reply_collect {listed : List Commit} (hrepository : v .ensureRepository = .answer ())
    (hshow : v (.showFile revision file) = .answer source)
    (hlist : v (.listCommits file (rangeIn file function source) revision) = .answer listed)
    (hpatch : ∀ hash,
      v (.diff hash file (rangeIn file function source)) = .answer (patch hash)) :
    (collect v file function revision).reply =
      .answer (Commit.sort (listed.map (completed patch))) := by
  rw [collect, Inquiry.reply_bind (show (Inquiry.ask v _).reply = _ from hrepository),
    Inquiry.reply_bind (show (Inquiry.ask v _).reply = _ from hshow),
    Inquiry.reply_bind (show (Inquiry.ask v _).reply = _ from hlist),
    Inquiry.reply_bind (Inquiry.reply_forAll fun c _ => reply_complete hpatch c)]
  rfl

/-- **A history is determined by which commits are listed**, if they differ in time or hash: they
are all told once, in the order of time and hash and with nothing changed but that each is
completed, and in whatever order they are listed the history is the same. -/
theorem collect_determined_by_commits (file function revision : String) {listed : List Commit}
    (hv : ∀ call, v.Answers call) (happart : listed.Pairwise Commit.Apart) :
    ∃ source patch history, v (.showFile revision file) = .answer source ∧
      (∀ hash, v (.diff hash file (rangeIn file function source)) = .answer (patch hash)) ∧
      history.Perm (listed.map (completed patch)) ∧ history.Pairwise Commit.Before ∧
      ∀ listed' : List Commit, listed'.Perm listed →
        (collect (v.listing listed') file function revision).reply = .answer history := by
  obtain ⟨⟨⟩, hrepository⟩ := hv .ensureRepository
  obtain ⟨source, hshow⟩ := hv (.showFile revision file)
  choose patch hpatch using fun hash => hv (.diff hash file (rangeIn file function source))
  -- Completing a commit keeps its time and its hash.
  have hcompleted : (listed.map (completed patch)).Pairwise Commit.Apart :=
    List.pairwise_map.mpr happart
  refine ⟨source, patch, Commit.sort (listed.map (completed patch)), hshow, hpatch,
    Order.sort_perm _ _, Commit.pairwise_before_sort hcompleted, fun listed' hperm => ?_⟩
  have hsort : Commit.sort (listed'.map (completed patch)) =
      Commit.sort (listed.map (completed patch)) :=
    Commit.sort_eq_of_perm hcompleted (hperm.map _)
  rw [← hsort]
  exact reply_collect (v := v.listing listed') hrepository hshow rfl hpatch

/-- A version control that answers every call. -/
def sampleReader : VersionControl
  | .ensureRepository => .answer ()
  | .resolve revision => .answer revision
  | .showFile _ _ => .answer none
  | .listFiles _ => .answer []
  | .listCommits _ _ _ => .answer []
  | .diff hash _ _ => .answer ("patch of " ++ hash)

/-- Three commits, two of them of one time; the newest has its changes with it and bears an issue
that its message does not name. -/
def sampleListing : List Commit :=
  [⟨"c3", "Tune handle (#4)", "Ada", 300, ["#9"], "@@ patch"⟩,
    ⟨"b2", "Add handle", "Ada", 100, [], ""⟩, ⟨"a1", "Add handle", "Grace", 100, [], ""⟩]

theorem collect_determined_by_commits_sample : (∀ call, sampleReader.Answers call) ∧
    sampleListing.Pairwise Commit.Apart ∧
    ∃ history, history.Pairwise Commit.Before ∧ ∀ listed', listed'.Perm sampleListing →
      (collect (sampleReader.listing listed') "app.py" "handle" "HEAD").reply =
        .answer history := by
  have hv : ∀ call, sampleReader.Answers call := by
    intro call
    cases call <;> exact ⟨_, rfl⟩
  have happart : sampleListing.Pairwise Commit.Apart := by
    simp [sampleListing, Commit.Apart]
  obtain ⟨-, -, history, -, -, -, hordered, hlisted⟩ :=
    collect_determined_by_commits "app.py" "handle" "HEAD" hv happart
  exact ⟨hv, happart, history, hordered, hlisted⟩

end History

end Dossier
