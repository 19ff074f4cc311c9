import Dossier.Proofs.VersionControl.Inquiry
import Dossier.Structure.Analysis

/-!
# Why the structural stage fails

A failure of the version control is no failure of the structural stage: either it is the reason
why the file of the function cannot be read, or it is passed over. So the stage fails for causes
that are its own (`Dossier.AnalysisError.IsStructural`), and none of them is the failure of a
whole analysis, so that passing it on wraps it once and no more.
-/

namespace Dossier

/-- **Whether a failure is one of the structural stage**: something is wrong with the function or
its file, or the stage took too long. -/
def AnalysisError.IsStructural : AnalysisError → Prop
  | .parse _ | .unsupportedLanguage _ | .graphConstruction _ | .functionNotFound .. => True
  | .sourceUnreadable .. => True
  | .stageTimeout stage _ => stage = .structure
  | .repositoryAccess _ | .unavailable _ | .cache _ | .cancelled | .taskFailed .. => False

/-- A failure of the structural stage is passed on as the cause of an unavailable analysis. -/
theorem AnalysisError.IsStructural.asUnavailable {e : AnalysisError} (h : e.IsStructural) :
    e.asUnavailable = .unavailable e := by
  cases e with
  | unavailable cause => exact h.elim
  | _ => rfl

/-! ### Failures of the version control -/

namespace SourceTree

theorem neverFails_read (t : SourceTree) (path : String) : (t.read path).NeverFails := by
  cases t with
  | workingTree files root => exact Inquiry.neverFails_pure _
  | revision v rev =>
    refine (Inquiry.neverFails_attempt _).bind fun found => ?_
    rcases found with e | _ | text <;> exact Inquiry.neverFails_pure _

theorem neverFails_sourceFiles (t : SourceTree) (filter : PathFilter) :
    (t.sourceFiles filter).NeverFails := by
  cases t with
  | workingTree files root => exact Inquiry.neverFails_pure _
  | revision v rev =>
    refine (Inquiry.neverFails_attempt _).bind fun found => ?_
    rcases found with e | paths <;> exact Inquiry.neverFails_pure _

end SourceTree

namespace Structure

theorem neverFails_outlineOther (t : SourceTree) (path : String) :
    (outlineOther t path).NeverFails := by
  unfold outlineOther
  split
  · exact Inquiry.neverFails_pure _
  · refine (t.neverFails_read path).bind fun found => ?_
    rcases found with e | source <;> exact Inquiry.neverFails_pure _

theorem neverFails_listFiles (t : SourceTree) (filter : PathFilter) :
    (listFiles t filter).NeverFails := by
  refine (t.neverFails_sourceFiles filter).bind fun found => ?_
  rcases found with e | paths <;> exact Inquiry.neverFails_pure _

variable {t : SourceTree} {filter : PathFilter} {file name : String}

/-- No failure of the version control is a failure of the analysis. -/
theorem neverFails_analyze : (analyze t filter file name).NeverFails := by
  unfold analyze
  dsimp only
  split
  · exact Inquiry.neverFails_pure _
  refine (t.neverFails_read _).bind fun found => ?_
  rcases found with e | source
  · exact Inquiry.neverFails_pure _
  dsimp only
  split
  · exact Inquiry.neverFails_pure _
  split
  · exact Inquiry.neverFails_pure _
  refine (neverFails_listFiles t filter).bind fun listed => ?_
  exact (Inquiry.neverFails_forAll (neverFails_outlineOther t) _).bind fun _ =>
    Inquiry.neverFails_pure _

/-! ### Failures of the stage -/

theorem isStructural_of_outlineOf {source : String} {e : AnalysisError}
    (h : outlineOf file source = .error e) : e.IsStructural := by
  unfold outlineOf at h
  split at h
  · obtain rfl := Except.error.inj h
    trivial
  · next l _ =>
    rcases ho : Outline.ofSource l file source with cause | outline <;> rw [ho] at h
    · obtain rfl := Except.error.inj h
      trivial
    · cases h

theorem isStructural_of_target {outline : Outline} {e : AnalysisError}
    (h : target file name outline = .error e) : e.IsStructural := by
  unfold target at h
  split at h
  · cases h
  all_goals
    obtain rfl := Except.error.inj h
    trivial

/-- **What the analysis of a tree fails for** is a failure of the structural stage. -/
theorem isStructural_of_analyze {e : AnalysisError}
    (h : (analyze t filter file name).reply = .answer (.error e)) : e.IsStructural := by
  simp only [analyze] at h
  split at h
  · obtain rfl := Except.error.inj (Reply.answer.inj h)
    trivial
  obtain ⟨found, -, h⟩ := Inquiry.reply_bind_eq_answer.mp h
  rcases found with cause | source
  · obtain rfl := Except.error.inj (Reply.answer.inj h)
    trivial
  dsimp only at h
  split at h
  · next cause hcause =>
    obtain rfl := Except.error.inj (Reply.answer.inj h)
    exact isStructural_of_outlineOf hcause
  split at h
  · next cause hcause =>
    obtain rfl := Except.error.inj (Reply.answer.inj h)
    exact isStructural_of_target hcause
  -- From here on only the graph can fail.
  obtain ⟨listed, -, h⟩ := Inquiry.reply_bind_eq_answer.mp h
  obtain ⟨others, -, h⟩ := Inquiry.reply_bind_eq_answer.mp h
  have hassembled := Reply.answer.inj h
  rcases ha : assemble ⟨Path.normalize file, _⟩ _ listed.2 others with conflict | a <;>
    rw [ha] at hassembled
  · obtain rfl := Except.error.inj hassembled
    trivial
  · cases hassembled

end Structure

end Dossier
