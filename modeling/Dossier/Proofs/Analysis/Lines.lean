import Dossier.History.Collection
import Dossier.Proofs.Analysis.Remarks
import Dossier.Proofs.Source.Path
import Dossier.Proofs.VersionControl.Inquiry
import Dossier.Structure.Analysis

/-!
# The lines that a history is about

The history of a function and the structure around it are found at two stages that do not talk to
each other: each reads the file, outlines it and looks the function up for itself, and the history
makes do with the name of the function when it does not find it. For a request about a commit both
read the same text, as long as the version control says the same to both and the path of the file
means the same file to both. Then a structure that is known leaves the history no choice
(`Dossier.Analysis.Occasion.listed_history`).

The history asks once for the commits that touched the function (`Dossier.History.listed_collect`).
Where both stages have the same text they find the same definition, and then the history is that of
its lines (`Dossier.History.rangeIn_of_target`) and never that of a name.

The path is the one point where they differ: the structural stage takes the usual form of a path
that is in its usual form already. That only matters for a path that still begins with `./`.
-/

namespace Dossier

/-! ### What a history asks for -/

/-- The path, the range and the revision of a call that lists commits. -/
def VcsCall.listed? : VcsCall → Option (String × LineRange × String)
  | listCommits path range revision => some (path, range, revision)
  | _ => none

namespace History

variable {v : VersionControl} {file function revision : String}

/-- **A history is asked for once**, for the range that is found in the text of the file. -/
theorem listed_collect {source : Option String} (hrepository : v .ensureRepository = .answer ())
    (hshow : v (.showFile revision file) = .answer source) :
    (collect v file function revision).calls.filterMap VcsCall.listed? =
      [(file, rangeIn file function source, revision)] := by
  have hcalls : (collect v file function revision).calls = [.ensureRepository] ++
      ([.showFile revision file] ++
        (Inquiry.ask v (.listCommits file (rangeIn file function source) revision) >>=
          fun commits =>
            Inquiry.forAll (complete v file (rangeIn file function source)) commits >>=
              fun commits => pure (Commit.sort commits)).calls) := by
    rw [collect, Inquiry.calls_bind (show (Inquiry.ask v _).reply = _ from hrepository),
      Inquiry.calls_bind (show (Inquiry.ask v _).reply = _ from hshow)]
    rfl
  -- What follows the listing completes the commits that it came to.
  have hlisted : ∀ call : VcsCall, ∀ f : call.Answer → Inquiry (List Commit),
      (∀ a, (f a).AsksOnly fun c => c.listed? = none) →
        (Inquiry.ask v call >>= f).calls.filterMap VcsCall.listed? = call.listed?.toList := by
    intro call f hf
    change ((Inquiry.ask v call).bind f).calls.filterMap _ = _
    unfold Inquiry.bind
    have hrest : ∀ a, (f a).calls.filterMap VcsCall.listed? = [] := fun a =>
      List.filterMap_eq_nil_iff.mpr (hf a)
    split <;> simp only [Inquiry.ask, List.filterMap_append, hrest, List.append_nil] <;>
      rcases h : call.listed? with _ | listed <;> simp [h]
  rw [hcalls, List.filterMap_append, List.filterMap_append, hlisted]
  · rfl
  · intro commits
    refine Inquiry.AsksOnly.bind ?_ fun _ => Inquiry.asksOnly_pure _
    refine Inquiry.asksOnly_forAll (fun _ => asksOnly_complete ?_) commits
    -- Completing a commit does not list any.
    rfl

/-- **A function that the structural stage finds in a text** is asked for by its lines there. -/
theorem rangeIn_of_target {name source : String} {o : Outline} {d : Definition}
    (houtline : Structure.outlineOf file source = .ok o)
    (htarget : Structure.target file name o = .ok d) :
    rangeIn file name (some source) = .lines d.span.startLine d.span.stopLine := by
  have hfound : o.locate name = .found d := by
    unfold Structure.target at htarget
    split at htarget
    · next d' hd' => rw [hd', Except.ok.inj htarget]
    · cases htarget
    · cases htarget
  unfold Structure.outlineOf at houtline
  split at houtline
  · cases houtline
  · next language hlanguage =>
    rcases ho : Outline.ofSource language file source with e | o' <;> rw [ho] at houtline
    · cases houtline
    · obtain rfl := Except.ok.inj houtline
      simp only [rangeIn, hlanguage, ho, hfound]

end History

/-! ### The same text at both stages -/

/-- A text that is read at a revision is what the version control shows there. -/
theorem SourceTree.showFile_of_read {v : VersionControl} {rev path source : String}
    (h : ((revision v rev).read path).reply = .answer (.ok source)) :
    v (.showFile rev path) = .answer (some source) := by
  unfold read at h
  obtain ⟨found, hfound, h⟩ := Inquiry.reply_bind_eq_answer.mp h
  rcases Inquiry.attempt_ask_eq_answer hfound with ⟨e, rfl⟩ | ⟨text, htext, rfl⟩
  · cases Reply.answer.inj h
  · rcases text with _ | text
    · cases Reply.answer.inj h
    · rw [htext]
      obtain rfl := Except.ok.inj (Reply.answer.inj h)
      rfl

namespace Analysis

variable {σ τ : Type} {k : Conditions}

namespace Occasion

variable {o : Occasion σ τ} {commit : String} {a : Structure.Analysis}

/-- The history of a commit leads to the revision that its fingerprint names. -/
theorem revision_of_commit (hc : o.request.commit = some commit) :
    (o.snapshot k).revision = (o.snapshot k).fingerprint := by
  rw [snapshot_of_commit hc, Snapshot.ofCommit]
  rcases k.finish .history _ with e | hash <;> rfl

/-- **History and structure agree on the function.** When the structural stage has found a
function at a commit, the history is asked for once, for the lines of that very definition, at the
revision that the commit was resolved to. -/
theorem listed_history (hc : o.request.commit = some commit)
    (hsame : o.circumstances.versionControl .history = o.circumstances.versionControl .structure)
    (hrepository : o.circumstances.versionControl .history .ensureRepository = .answer ())
    (hfile : ¬['.', '/'] <+: o.file.toList) (hstructural : o.structural k = .ok a) :
    (o.calls k .history).filterMap VcsCall.listed? =
      [(o.file, .lines a.target.span.startLine a.target.span.stopLine,
        (o.resolved? commit).getD commit)] := by
  obtain ⟨m⟩ := Structure.nonempty_assembly (reply_of_structureStage hstructural)
  have hpath : Path.normalize o.file = o.file := Path.normalize_normalize hfile
  have hread := m.read
  have houtlined := m.outlined
  have hfound := m.found
  rw [hpath] at hread houtlined hfound
  -- Both stages are shown the same text of the file.
  have hshow : ∀ source, ((o.snapshot k).tree.read o.file).reply = .answer (.ok source) →
      o.circumstances.versionControl .history (.showFile (o.snapshot k).revision o.file) =
        .answer (some source) := by
    intro source hread
    rw [tree_of_commit hc] at hread
    rw [hsame, revision_of_commit hc]
    exact SourceTree.showFile_of_read hread
  rw [calls, History.listed_collect hrepository (hshow m.source hread),
    History.rangeIn_of_target houtlined hfound, m.target_eq, revision_of_commit hc,
    fingerprint_of_commit hc]

end Occasion

/-! ### A method at a tag

The commit is named by a tag, the path is written with backslashes and a leading `.\\`, and the
method is asked for without its receiver. -/

/-- A type with a method. -/
def sampleMethodSource : String :=
  "package p\n\ntype box struct\x7b\x7d\n\nfunc (b box) area() int \x7b\n\treturn 1\n\x7d\n"

/-- A request for the method at the tag. -/
def sampleTag : Occasion MemoryStore MemoryArtifacts :=
  { sampleVisit (sampleVersionControl [("v1", sampleHead)] [("pkg/util.go", sampleMethodSource)])
      [] (some "v1") 0 with
    request := ⟨"/", ".\\pkg\\util.go", "area", some "v1"⟩ }

/-- The method is found at the commit that the tag stands for. -/
theorem lines_sampleTag :
    (sampleTag.structural sampleConditions).toOption.map
      (fun a => (a.target.name, a.target.span.startLine, a.target.span.stopLine)) =
        some ("box.area", 5, 7) := by
  decide +kernel

/-- The history is asked for by the lines of the method. -/
theorem listed_history_tag :
    (sampleTag.calls sampleConditions .history).filterMap VcsCall.listed? =
      [("pkg/util.go", .lines 5 7, sampleHead)] := by
  obtain ⟨a, ha, hlines⟩ := Option.map_eq_some_iff.mp lines_sampleTag
  have hstructural : sampleTag.structural sampleConditions = .ok a := by
    rcases h : sampleTag.structural sampleConditions with e | a' <;> rw [h] at ha
    · cases ha
    · exact congrArg _ (Option.some.inj ha)
  have hcommit : sampleTag.request.commit = some "v1" := rfl
  have hlisted := Occasion.listed_history hcommit rfl rfl (by decide +kernel) hstructural
  obtain ⟨-, hlines⟩ := Prod.mk.inj hlines
  obtain ⟨hfirst, hlast⟩ := Prod.mk.inj hlines
  have hfile : sampleTag.file = "pkg/util.go" := by decide +kernel
  have hhash : (sampleTag.resolved? "v1").getD "v1" = sampleHead := rfl
  rw [hlisted, hfirst, hlast, hfile, hhash]

end Analysis

end Dossier
