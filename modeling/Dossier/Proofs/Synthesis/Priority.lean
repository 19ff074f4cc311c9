import Dossier.Proofs.Synthesis.Prompt

/-!
# What is left out first

Calls and commits stand in one prompt, and each list ends where its first line does not fit. The
room that a call leaves open is still there for the history, so a long call can be left out of a
prompt that goes on to tell a commit. This file says when this happens: the newest commit is told
exactly if the heading and its line fit after the calls
(`Dossier.Synthesis.commitsDropped_eq_length_iff`). What is told in place of a call is much shorter
than the call.
-/

namespace Dossier.Synthesis

variable {budget : Nat} {text : String} {f : FunctionRef} {s : Surroundings} {a : Assessment}
  {commits told left : List Commit} {newest : Commit} {edge : CallEdge} {history : String}

/-! ### When a commit is told -/

/-- **Whether a commit has room** as the first of a history after a text: the heading fits, and then
its line. -/
def HasRoom (budget : Nat) (text : String) (newest : Commit) : Prop :=
  fits budget text historyHeading ∧ fits budget (text ++ historyHeading) (commitLine newest)

theorem hasRoom_iff : HasRoom budget text newest ↔
    RoomFor budget text historyHeading ∧
      RoomFor budget (text ++ historyHeading) (recordLine newest) := by
  rw [HasRoom, commitLine_eq, fits_iff_roomFor, fits_iff_roomFor]

/-- The end of a prompt tells no commit exactly if the newest has no room. -/
theorem Closes.told_eq_nil_iff (h : Closes budget text historyHeading told left history) :
    told = [] ↔ ∀ newest ∈ (told ++ left).head?, ¬HasRoom budget text newest := by
  simp only [hasRoom_iff]
  cases h with
  | none => simp
  | noRoom _ hheading => exact iff_of_true rfl fun _ _ hroom => hheading hroom.1
  | lines _ hheading hfills =>
    constructor
    · rintro rfl newest hnewest ⟨-, hroom⟩
      have hfull := hfills.full (recordLine newest)
      rw [List.map_nil, String.join_nil, String.append_empty, List.head?_map] at hfull
      exact hfull (Option.mem_map_of_mem recordLine hnewest) hroom
    · intro hnone
      rcases told with _ | ⟨newest, told⟩
      · rfl
      · have hfirst := hfills.room [] (recordLine newest) (told.map recordLine) rfl
        rw [String.join_nil, String.append_empty] at hfirst
        exact absurd ⟨hheading, hfirst⟩ (hnone newest rfl)

/-- **When no commit is told**: if the newest has no room. -/
theorem commitsDropped_eq_length_iff (budget : Nat) (text : String) (commits : List Commit) :
    (withHistory budget text commits).2 = commits.length ↔
      ∀ newest ∈ commits.getLast?, ¬HasRoom budget text newest := by
  obtain ⟨told, left, history, hreverse, hcloses, heq⟩ := exists_closes budget text commits
  have hlength : commits.length = told.length + left.length := by
    rw [← List.length_append, ← hreverse, List.length_reverse]
  rw [heq, ← List.head?_reverse, hreverse, ← hcloses.told_eq_nil_iff, ← List.length_eq_zero_iff]
  omega

/-! ### A commit in place of a call -/

/-- What has room where a call does not fit has a line that is more than six tokens shorter, for the
heading of the history has to fit as well. -/
theorem HasRoom.tokens_lt (hroom : HasRoom budget text newest)
    (hedge : ¬fits budget text (edgeLine edge)) :
    tokens (commitLine newest) + 6 < tokens (edgeLine edge) := by
  have hheading : tokens text + 6 ≤ tokens (text ++ historyHeading) := by
    unfold tokens charsPerToken
    rw [String.length_append, length_historyHeading]
    omega
  have hline := fits_iff.mp hroom.2
  rw [fits_iff] at hedge
  omega

theorem tokens_historyHeading : tokens historyHeading = 7 := by
  rw [tokens, length_historyHeading]
  rfl

/-- The least budget that surely has room for a commit after a text. -/
def roomyBudget (text : String) (newest : Commit) : Nat :=
  tokens text + 7 + tokens (commitLine newest)

theorem hasRoom_roomyBudget (text : String) (newest : Commit) :
    HasRoom (roomyBudget text newest) text newest := by
  have happend := tokens_append_le text historyHeading
  rw [tokens_historyHeading] at happend
  rw [HasRoom, fits_iff, fits_iff, tokens_historyHeading, roomyBudget]
  omega

/-- A call that is much longer than the commit does not fit into this budget. -/
theorem not_fits_roomyBudget (h : tokens (commitLine newest) + 7 < tokens (edgeLine edge))
    (text : String) : ¬fits (roomyBudget text newest) text (edgeLine edge) := by
  rw [fits_iff, roomyBudget]
  omega

/-- **Such a call is left out for the commit**: whatever else is told, at some budget there is room
for the newest commit, but not for the call. -/
theorem told_in_place (f : FunctionRef) (commits : List Commit) (s : Surroundings)
    (a : Assessment) {edges : List CallEdge} (hedges : s.indirectEdges = edge :: edges)
    (hnewest : newest ∈ commits.getLast?)
    (hlonger : tokens (commitLine newest) + 7 < tokens (edgeLine edge)) :
    0 < (prompt f commits s a (roomyBudget (fixedPart f s a) newest)).edgesDropped ∧
      (prompt f commits s a (roomyBudget (fixedPart f s a) newest)).commitsDropped ≠
        commits.length := by
  have hfill : fill (roomyBudget (fixedPart f s a) newest) (fixedPart f s a)
      (s.indirectEdges.map edgeLine) = (fixedPart f s a, (edges.map edgeLine).length + 1) := by
    rw [hedges, List.map_cons, fill, if_neg (not_fits_roomyBudget hlonger _)]
  rw [prompt, hfill, Ne, commitsDropped_eq_length_iff]
  exact ⟨Nat.succ_pos _, fun hnone => hnone newest hnewest (hasRoom_roomyBudget _ newest)⟩

/-- **Which prompts leave out calls before commits.** Calls are left out from the first that does
not fit. A prompt that leaves out a call tells no commit exactly if the newest has no room after the
calls that are told; and it has room only if its line is more than six tokens shorter than that of
the call. -/
theorem history_before_structure_iff (f : FunctionRef) (commits : List Commit) (s : Surroundings)
    (a : Assessment) (budget : Nat) :
    ∃ edges edgesLeft text,
      s.indirectEdges = edges ++ edgesLeft ∧
      (prompt f commits s a budget).edgesDropped = edgesLeft.length ∧
      text = fixedPart f s a ++ String.join (edges.map edgeLine) ∧
      ((0 < (prompt f commits s a budget).edgesDropped →
          (prompt f commits s a budget).commitsDropped = commits.length) ↔
        ∀ edge ∈ edgesLeft.head?, ∀ newest ∈ commits.getLast?, ¬HasRoom budget text newest) ∧
      ∀ edge ∈ edgesLeft.head?, ∀ newest ∈ commits.getLast?, HasRoom budget text newest →
        tokens (commitLine newest) + 6 < tokens (edgeLine edge) := by
  obtain ⟨edges, edgesLeft, hedges, hfills, hstructural⟩ :=
    exists_fills_map budget (fixedPart f s a) edgeLine s.indirectEdges
  have hdropped : (prompt f commits s a budget).edgesDropped = edgesLeft.length := by
    rw [prompt, hstructural]
  have hcommits : (prompt f commits s a budget).commitsDropped =
      (withHistory budget (fixedPart f s a ++ String.join (edges.map edgeLine)) commits).2 := by
    rw [prompt, hstructural]
  refine ⟨edges, edgesLeft, _, hedges, hdropped, rfl, ?_, ?_⟩
  · rw [hdropped, hcommits, commitsDropped_eq_length_iff]
    -- Whether a call is left out is seen from the first that is.
    rcases edgesLeft with _ | ⟨edge, edgesLeft⟩
    · simp
    · simp
  · intro edge hedge newest _ hroom
    refine hroom.tokens_lt (mt fits_iff_roomFor.mp (hfills.full (edgeLine edge) ?_))
    rw [List.head?_map]
    exact Option.mem_map_of_mem edgeLine hedge

/-- A call between two functions of long names. -/
def sampleCall : CallEdge :=
  ⟨"shop/reconciliation.py::settle_outstanding_balances",
    "shop/exchange.py::latest_known_rate"⟩

/-- The place of a function in a call graph with this call. -/
def sampleWordy : Surroundings :=
  { sampleSurroundings with indirectEdges := [sampleCall] }

/-- A budget with room for a commit, but not for the call. -/
def sampleWordyBudget : Nat :=
  roomyBudget (fixedPart sampleFunction sampleWordy sampleAssessment) sampleCommit

/-- **A call is left out of a prompt that tells a commit.** -/
theorem commit_in_place_of_call :
    ¬(0 < (prompt sampleFunction [sampleCommit] sampleWordy sampleAssessment
          sampleWordyBudget).edgesDropped →
        (prompt sampleFunction [sampleCommit] sampleWordy sampleAssessment
          sampleWordyBudget).commitsDropped = [sampleCommit].length) := by
  have hcommit : tokens (commitLine sampleCommit) = 14 := by decide
  have hcall : tokens (edgeLine sampleCall) = 24 := by decide
  have hlonger : tokens (commitLine sampleCommit) + 7 < tokens (edgeLine sampleCall) := by
    rw [hcommit, hcall]
    decide
  have hplace := told_in_place sampleFunction [sampleCommit] sampleWordy sampleAssessment rfl rfl
    hlonger
  exact fun hnone => hplace.2 (hnone hplace.1)

end Dossier.Synthesis
