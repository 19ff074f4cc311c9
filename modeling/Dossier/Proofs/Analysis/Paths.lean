import Dossier.Proofs.Analysis.Remarks
import Dossier.Proofs.Source.Path

/-!
# The path of a file on its way through an analysis

The path of the file is put into its usual form again and again: when a request is made, when it is
answered, in the name of the function that a record bears, and once more where the structure is
looked into. The snapshot and the history are in between and take the path as they are given it.

All of them go by one path exactly if the path that the request is made from does not begin with
`./` twice (`Dossier.Analysis.Occasion.exists_knownBy_iff`).
-/

namespace Dossier

/-- The path of the file that a call is about. -/
def VcsCall.path? : VcsCall → Option String
  | showFile _ path | listCommits path _ _ | diff _ path _ => some path
  | ensureRepository | resolve _ | listFiles _ => none

namespace Analysis

variable {σ τ : Type} {k : Conditions} {o : Occasion σ τ} {path : String} {call : VcsCall}

/-- What a look at the working tree asks for: the head, and the text of the file there. -/
theorem Sight.asksOnly_inquiry {kind : VcsCall → Prop} {v : VersionControl} {files : Place}
    {root file : String} (hresolve : kind (.resolve "HEAD"))
    (hshow : ∀ head, kind (.showFile head file)) : (inquiry v files root file).AsksOnly kind := by
  refine (Inquiry.asksOnly_ask hresolve).attempt.bind fun head => ?_
  rcases head with e | head
  · exact Inquiry.asksOnly_pure _
  · exact (Inquiry.asksOnly_ask (hshow head)).attempt.bind fun _ => Inquiry.asksOnly_pure _

namespace Occasion

/-- **Whether all of an analysis goes by one path** for the file of the function. -/
structure KnownBy (k : Conditions) (o : Occasion σ τ) (path : String) : Prop where
  /-- The request is made with this path. -/
  request : o.request.file = path
  /-- The stages are given this path. -/
  file : o.file = path
  /-- The version control is asked about this path, for the snapshot and for the history. -/
  asked : ∀ stage ∈ [Stage.cache, .history], ∀ call ∈ o.calls k stage, ∀ p ∈ call.path?, p = path
  /-- The structure is that of a function at this path. -/
  structural : ∀ a, o.structural k = .ok a → a.targetId = Structure.Located.idOf path a.target.name
  /-- Records are looked for and stored under this path. -/
  subject : (o.subject k).filePath = path

/-- The snapshot and the history ask about no other path than that of the file. -/
theorem path_of_mem_calls {stage : Stage} (hstage : stage ∈ [Stage.cache, .history])
    (h : call ∈ o.calls k stage) (hpath : path ∈ call.path?) : path = o.file := by
  have hasked : ∀ call ∈ o.calls k stage, ∀ p ∈ call.path?, p = o.file := by
    rcases List.mem_pair.mp hstage with rfl | rfl
    · rcases hc : o.request.commit with _ | commit <;> simp only [calls, hc]
      · exact Sight.asksOnly_inquiry (by simp [VcsCall.path?]) (by simp [VcsCall.path?])
      · exact Inquiry.asksOnly_ask (by simp [VcsCall.path?])
    · refine History.asksOnly_collect ?_ ?_ ?_ ?_ <;> simp [VcsCall.path?]
  exact hasked call h path hpath

/-- **All of an analysis goes by one path** exactly if the path that it is asked with is in its
usual form. -/
theorem knownBy_iff : o.KnownBy k path ↔ o.request.file = path ∧ Path.normalize path = path := by
  constructor
  · intro h
    refine ⟨h.request, ?_⟩
    conv_lhs => rw [← h.request]
    exact h.file
  · rintro ⟨hrequest, husual⟩
    have hfile : o.file = path := by rw [file, hrequest, husual]
    refine ⟨hrequest, hfile, fun stage hstage call hcall p hp => ?_, fun a ha => ?_, ?_⟩
    · rw [path_of_mem_calls hstage hcall hp, hfile]
    · obtain ⟨m⟩ := Structure.nonempty_assembly (reply_of_structureStage ha)
      have hstructure : Path.normalize o.file = path := by rw [hfile, husual]
      rw [m.targetId_eq, m.target_eq, hstructure]
    · rw [subject, functionOf, FunctionRef.of, hfile, husual]

/-- **How often a path is put into its usual form** does not matter if it begins with `./` once at
most, and it does otherwise: each time takes off one `./` until none is left. So all of an analysis
goes by one path exactly if the path that a request is made from does not begin with `./` twice. -/
theorem exists_knownBy_iff (k : Conditions) (o : Occasion σ τ) (root path function : String)
    (commit : Option String) :
    (Path.normalize (Path.normalize path) = Path.normalize path ↔ Path.leadingDots path ≤ 1) ∧
      (∀ m n, Path.normalize^[m + 1] path = Path.normalize^[n + 1] path ↔
        m = n ∨ (Path.leadingDots path ≤ m + 1 ∧ Path.leadingDots path ≤ n + 1)) ∧
      ((∃ p, { o with request := .of root path function commit }.KnownBy k p) ↔
        Path.leadingDots path ≤ 1) := by
  have htwice : Path.normalize (Path.normalize path) = Path.normalize path ↔
      Path.leadingDots path ≤ 1 := by
    refine (Path.iterate_normalize_eq_iff (m := 1) (n := 0)).trans ?_
    omega
  refine ⟨htwice, fun m n => Path.iterate_normalize_eq_iff, ?_⟩
  simp only [knownBy_iff, exists_eq_left']
  exact htwice

end Occasion

/-- A path that begins with `./` twice still begins with `./` in its usual form. -/
theorem normalize_twice : ¬∀ path, Path.normalize (Path.normalize path) = Path.normalize path :=
  fun h => absurd (h "././a.py") (by decide +kernel)

end Analysis

end Dossier
