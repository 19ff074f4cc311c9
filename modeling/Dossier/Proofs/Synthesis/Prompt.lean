import Dossier.Synthesis.Prompt

/-!
# What a prompt tells, and what it leaves out

A prompt is the part that is always told, then calls, then history, and from the first line that
does not fit on its list is left out. So what is told of a list is its beginning
(`Dossier.Synthesis.exists_fills`), and as much of it as there is room for. The lines themselves are
written out here once more, next to the functions that make them.

The estimate of a text is not more than those of its pieces together
(`Dossier.Synthesis.tokens_append_le`), and so lines that fit one after the other stay within the
budget. One text is not asked whether it fits: the remark that there is no history.
-/

namespace Dossier.Synthesis

variable {budget : Nat} {text line : String} {lines told left : List String} {f : FunctionRef}
  {s : Surroundings} {a : Assessment} {commits : List Commit}

/-! ### The estimate -/

/-- Cutting a text into two does not make its estimate smaller. -/
theorem tokens_append_le (x y : String) : tokens (x ++ y) ≤ tokens x + tokens y := by
  unfold tokens charsPerToken
  rw [String.length_append]
  omega

theorem fits_iff : fits budget text line ↔ tokens text + tokens line ≤ budget :=
  decide_eq_true_iff

/-- What fits stays within the budget. -/
theorem tokens_append_of_fits (h : fits budget text line) : tokens (text ++ line) ≤ budget :=
  Nat.le_trans (tokens_append_le text line) (fits_iff.mp h)

/-! ### Lines that fit -/

/-- **Whether there is room for a line after a text**, where four characters make a token and both
are rounded up by themselves. -/
def RoomFor (budget : Nat) (text line : String) : Prop :=
  (text.length + 3) / 4 + (line.length + 3) / 4 ≤ budget

theorem fits_iff_roomFor : fits budget text line ↔ RoomFor budget text line :=
  fits_iff

/-- **Whether a list of lines is cut where the room ends**: there is room for each line that is told
after those before it, and for the first that is left out there is none after all of them. -/
structure Fills (budget : Nat) (text : String) (told left : List String) : Prop where
  room : ∀ before line after, told = before ++ line :: after →
    RoomFor budget (text ++ String.join before) line
  full : ∀ line ∈ left.head?, ¬RoomFor budget (text ++ String.join told) line

theorem Fills.cons (hline : RoomFor budget text line) (h : Fills budget (text ++ line) told left) :
    Fills budget text (line :: told) left where
  room before line' after heq := by
    rcases before with _ | ⟨_, before⟩
    · obtain ⟨rfl, -⟩ := List.cons.inj heq
      simpa using hline
    · obtain ⟨rfl, htold⟩ := List.cons.inj heq
      rw [String.join_cons, ← String.append_assoc]
      exact h.room before line' after htold
  full := by
    rw [String.join_cons, ← String.append_assoc]
    exact h.full

/-- **Lines are told up to the first that does not fit.** -/
theorem exists_fills (budget : Nat) (text : String) (lines : List String) :
    ∃ told left, lines = told ++ left ∧ Fills budget text told left ∧
      fill budget text lines = (text ++ String.join told, left.length) := by
  induction lines generalizing text with
  | nil => exact ⟨[], [], rfl, ⟨by simp, by simp⟩, by simp [fill]⟩
  | cons line lines ih =>
    rw [fill]
    split
    · next hline =>
      obtain ⟨told, left, rfl, hfills, heq⟩ := ih (text ++ line)
      exact ⟨line :: told, left, rfl, hfills.cons (fits_iff_roomFor.mp hline), by
        rw [heq, String.join_cons, String.append_assoc]⟩
    · next hline =>
      rw [fits_iff_roomFor] at hline
      exact ⟨[], line :: lines, rfl, ⟨by simp, by simpa using hline⟩, by simp⟩

/-- Lines that are made of the items of a list are those of its first items. -/
theorem exists_fills_map {α : Type} (budget : Nat) (text : String) (lineOf : α → String)
    (items : List α) :
    ∃ told left, items = told ++ left ∧ Fills budget text (told.map lineOf) (left.map lineOf) ∧
      fill budget text (items.map lineOf) =
        (text ++ String.join (told.map lineOf), left.length) := by
  obtain ⟨_, _, hlines, hfills, heq⟩ := exists_fills budget text (items.map lineOf)
  obtain ⟨told, left, rfl, rfl, rfl⟩ := List.map_eq_append_iff.mp hlines
  exact ⟨told, left, rfl, hfills, by rw [heq, List.length_map]⟩

theorem tokens_fill_le (h : tokens text ≤ budget) : tokens (fill budget text lines).1 ≤ budget := by
  induction lines generalizing text with
  | nil => exact h
  | cons line lines ih =>
    rw [fill]
    split
    · next hline => exact ih (tokens_append_of_fits hline)
    · exact h

/-! ### What is always told -/

/-- The lines with the figures and the score. -/
def figureLines (a : Assessment) : List String :=
  [ "- cyclomatic complexity: " ++ Decimal.ofNat a.metrics.complexity ++ "\n",
    "- lines of code: " ++ Decimal.ofNat a.metrics.codeLines ++ "\n",
    "- parameters: " ++ Decimal.ofNat a.metrics.parameters ++ "\n",
    "- modification frequency: " ++ Decimal.ofNat a.metrics.modifications ++ " commits\n",
    "- call sites: " ++ Decimal.ofNat a.metrics.callSites ++ "\n",
    "- stability score: " ++ Decimal.fixed 3 a.score ++ " (" ++ a.risk.name ++ ")\n" ]

/-- The line of a direct caller. -/
def callerLine (caller : String) : String :=
  "- called by " ++ caller ++ "\n"

/-- The line of a function that is called directly. -/
def calleeLine (callee : String) : String :=
  "- calls " ++ callee ++ "\n"

theorem assessmentLines_eq (a : Assessment) :
    assessmentLines a = "\n## Complexity\n" ++ String.join (figureLines a) := by
  simp [assessmentLines, figureLines, String.append_assoc]

theorem neighbourLines_eq (s : Surroundings) :
    neighbourLines s =
      "\n## Structure\nImpact radius: " ++ Decimal.ofNat s.impactSize ++ " functions\n" ++
        String.join (s.upstream.map callerLine) ++ String.join (s.downstream.map calleeLine) := by
  unfold neighbourLines callerLine calleeLine
  rfl

/-- **What is always told**: the instructions, the function, its figures, and its direct callers and
callees, with a line for each. -/
theorem fixedPart_eq (f : FunctionRef) (s : Surroundings) (a : Assessment) :
    fixedPart f s a =
      instructions ++ functionLines f s.signature ++
        "\n## Complexity\n" ++ String.join (figureLines a) ++
        "\n## Structure\nImpact radius: " ++ Decimal.ofNat s.impactSize ++ " functions\n" ++
        String.join (s.upstream.map callerLine) ++ String.join (s.downstream.map calleeLine) := by
  unfold fixedPart
  simp only [assessmentLines_eq, neighbourLines_eq, String.append_assoc]

/-! ### The history -/

/-- The line of a call that does not touch the function. -/
def callLine (e : CallEdge) : String :=
  "- " ++ e.caller ++ " -> " ++ e.callee ++ "\n"

theorem edgeLine_eq : edgeLine = callLine :=
  rfl

/-- The day of a commit, or the number of its seconds where the calendar ends. -/
def dayOf (c : Commit) : String :=
  match Date.ofTimestamp? c.timestamp with
  | some date => date.text
  | none => Decimal.ofInt c.timestamp

/-- The issues of a commit in square brackets, in order and once each, unless there are none. -/
def issuesOf (c : Commit) : String :=
  match Order.distinct c.issueIds with
  | [] => ""
  | issues => " [" ++ ", ".intercalate issues ++ "]"

/-- **The line of a commit**: its day, the first ten characters of its hash, its author, its subject
and its issues. -/
def recordLine (c : Commit) : String :=
  "- " ++ dayOf c ++ " " ++ String.ofList (c.hash.toList.take 10) ++ " " ++ c.author ++ ": " ++
    c.subject ++ issuesOf c ++ "\n"

theorem commitLine_eq : commitLine = recordLine := by
  funext c
  have hissues : issuesOf c = if c.issueIds.isEmpty then ""
      else " [" ++ ", ".intercalate (Order.distinct c.issueIds) ++ "]" := by
    unfold issuesOf
    rcases c.issueIds with _ | ⟨issue, issues⟩
    · rfl
    · have hne : Order.distinct (issue :: issues) ≠ [] :=
        List.ne_nil_of_mem (Order.mem_insertDistinct.mpr (Or.inl rfl))
      split
      · next hnil => exact absurd hnil hne
      · rfl
  rw [commitLine, recordLine, hissues, dayOf]
  rcases Date.ofTimestamp? c.timestamp with _ | date <;> rfl

/-- **How the history ends a prompt**, and which commits it tells, given its heading. The commits
come newest first. If there are none, this is said; if there is no room for the heading, nothing
is. -/
inductive Closes (budget : Nat) (text heading : String) :
    List Commit → List Commit → String → Prop
  | none : Closes budget text heading [] [] (heading ++ "No recorded commits.\n")
  | noRoom {left : List Commit} : left ≠ [] → ¬RoomFor budget text heading →
      Closes budget text heading [] left ""
  | lines {told left : List Commit} : told ++ left ≠ [] → RoomFor budget text heading →
      Fills budget (text ++ heading) (told.map recordLine) (left.map recordLine) →
      Closes budget text heading told left (heading ++ String.join (told.map recordLine))

theorem exists_closes (budget : Nat) (text : String) (commits : List Commit) :
    ∃ told left history, commits.reverse = told ++ left ∧
      Closes budget text historyHeading told left history ∧
      withHistory budget text commits = (text ++ history, left.length) := by
  unfold withHistory
  rcases hcommits : commits with _ | ⟨commit, rest⟩
  · exact ⟨[], [], _, rfl, .none, by simp [String.append_assoc]⟩
  -- What matters from here on is only that there are commits, not which is the oldest.
  · rw [← hcommits]
    have hne : commits.reverse ≠ [] := by simp [hcommits]
    rw [if_neg (by simp [hcommits]), commitLine_eq]
    split
    · next hheading =>
      obtain ⟨told, left, hreverse, hfills, heq⟩ :=
        exists_fills_map budget (text ++ historyHeading) recordLine commits.reverse
      refine ⟨told, left, _, hreverse,
        .lines (hreverse ▸ hne) (fits_iff_roomFor.mp hheading) hfills, ?_⟩
      rw [heq, String.append_assoc]
    · next hheading =>
      rw [fits_iff_roomFor] at hheading
      exact ⟨[], commits.reverse, "", rfl, .noRoom hne hheading, by simp⟩

/-! ### The whole prompt -/

/-- **What a prompt tells, and what it leaves out.** Whatever the budget, it tells the figures and
the score and has a line for every direct caller and callee. Of the other calls it tells the first
and of the commits the newest, each list up to the line for which there is no room, or no history
if there is none for its heading; and it counts what is left out. -/
theorem prompt_accounted (f : FunctionRef) (commits : List Commit) (s : Surroundings)
    (a : Assessment) (budget : Nat) :
    ∃ always edges edgesLeft told left history,
      always = instructions ++ functionLines f s.signature ++
        "\n## Complexity\n" ++ String.join (figureLines a) ++
        "\n## Structure\nImpact radius: " ++ Decimal.ofNat s.impactSize ++ " functions\n" ++
        String.join (s.upstream.map callerLine) ++ String.join (s.downstream.map calleeLine) ∧
      (prompt f commits s a budget).text =
        always ++ String.join (edges.map callLine) ++ history ∧
      s.indirectEdges = edges ++ edgesLeft ∧
      (prompt f commits s a budget).edgesDropped = edgesLeft.length ∧
      Fills budget always (edges.map callLine) (edgesLeft.map callLine) ∧
      commits.reverse = told ++ left ∧
      (prompt f commits s a budget).commitsDropped = left.length ∧
      Closes budget (always ++ String.join (edges.map callLine)) "\n## History (newest first)\n"
        told left history := by
  obtain ⟨edges, edgesLeft, hedges, hfills, hstructural⟩ :=
    exists_fills_map budget (fixedPart f s a) callLine s.indirectEdges
  obtain ⟨told, left, history, hcommits, hcloses, hwhole⟩ :=
    exists_closes budget (fixedPart f s a ++ String.join (edges.map callLine)) commits
  have hprompt : prompt f commits s a budget =
      ⟨fixedPart f s a ++ String.join (edges.map callLine) ++ history, edgesLeft.length,
        left.length⟩ := by
    rw [prompt, edgeLine_eq, hstructural, hwhole]
  rw [hprompt]
  exact ⟨fixedPart f s a, edges, edgesLeft, told, left, history, fixedPart_eq f s a, rfl, hedges,
    rfl, hfills, hcommits, rfl, hcloses⟩

/-! ### The budget -/

/-- What is told before the history. -/
def beforeHistory (f : FunctionRef) (s : Surroundings) (a : Assessment) (budget : Nat) : String :=
  (fill budget (fixedPart f s a) (s.indirectEdges.map edgeLine)).1

theorem tokens_withHistory_le (hcommits : commits ≠ []) (h : tokens text ≤ budget) :
    tokens (withHistory budget text commits).1 ≤ budget := by
  unfold withHistory
  rw [if_neg (by simpa using hcommits)]
  split
  · next hheading => exact tokens_fill_le (tokens_append_of_fits hheading)
  · exact h

theorem length_historyHeading : historyHeading.length = 27 :=
  String.length_ofList

/-- Without a history twelve tokens are added to what is told before it, whatever the budget. -/
theorem tokens_prompt_nil (f : FunctionRef) (s : Surroundings) (a : Assessment) (budget : Nat) :
    tokens (prompt f [] s a budget).text = tokens (beforeHistory f s a budget) + 12 := by
  have htext : (prompt f [] s a budget).text =
      beforeHistory f s a budget ++ historyHeading ++ "No recorded commits.\n" := rfl
  have hremark : "No recorded commits.\n".length = 21 := String.length_ofList
  rw [htext]
  unfold tokens charsPerToken
  rw [String.length_append, String.length_append, length_historyHeading, hremark]
  omega

/-- **Which prompts stay within the budget**, when there is room for what is always told: those with
a history, and without one those in which twelve tokens are left for the remark on it. The remark
takes no prompt farther beyond the budget than that. -/
theorem within_budget_iff (h : tokens (fixedPart f s a) ≤ budget) :
    (tokens (prompt f commits s a budget).text ≤ budget ↔
      commits ≠ [] ∨ tokens (beforeHistory f s a budget) + 12 ≤ budget) ∧
      tokens (prompt f commits s a budget).text ≤ budget + 12 := by
  have hbefore : tokens (beforeHistory f s a budget) ≤ budget := tokens_fill_le h
  rcases hcommits : commits with _ | ⟨commit, rest⟩
  · rw [tokens_prompt_nil]
    exact ⟨⟨Or.inr, fun hroom => hroom.resolve_left fun hne => hne rfl⟩,
      Nat.add_le_add_right hbefore 12⟩
  · have hwhole : tokens (prompt f (commit :: rest) s a budget).text ≤ budget :=
      tokens_withHistory_le nofun hbefore
    exact ⟨iff_of_true hwhole (Or.inl nofun), Nat.le_add_right_of_le hwhole⟩

/-- A function with direct callers and callees. -/
def sampleFunction : FunctionRef :=
  ⟨"shop-0123456789ab", "shop/orders.py", "total", "abc123"⟩

/-- Its place in the call graph. -/
def sampleSurroundings : Surroundings where
  targetId := "shop/orders.py::total"
  signature := "def total(order, currency, discount, region, customer, tax_table) -> Money"
  upstream := ["shop/api.py::checkout", "shop/api.py::preview", "shop/cart.py::refresh",
    "shop/report.py::monthly"]
  downstream := ["shop/tax.py::rate"]
  impactSize := 5
  indirectEdges := []

/-- Its figures. -/
def sampleAssessment : Assessment :=
  ⟨⟨7, 40, 6, 0, 4⟩, 0, .stable⟩

/-- A commit that touched it. -/
def sampleCommit : Commit where
  hash := "0a1b2c3d4e5f"
  message := "Round taxes up"
  author := "Ada"
  timestamp := 1700000000
  issueIds := ["SHOP-7"]
  diff := ""

/-- The smallest budget that has room for what is always told about it. -/
def sampleBudget : Nat :=
  tokens (fixedPart sampleFunction sampleSurroundings sampleAssessment)

/-- A commit for which there is no room is left out. -/
theorem within_budget_iff_sample :
    tokens (fixedPart sampleFunction sampleSurroundings sampleAssessment) ≤ sampleBudget ∧
      tokens (prompt sampleFunction [sampleCommit] sampleSurroundings sampleAssessment
        sampleBudget).text ≤ sampleBudget := by
  have hfixed : tokens (fixedPart sampleFunction sampleSurroundings sampleAssessment) ≤
      sampleBudget := Nat.le_refl sampleBudget
  exact ⟨hfixed, (within_budget_iff hfixed).1.mpr (Or.inl (List.cons_ne_nil sampleCommit []))⟩

/-- **That there is no history is said without room for it.** -/
theorem over_budget_of_no_history :
    tokens (fixedPart sampleFunction sampleSurroundings sampleAssessment) ≤ sampleBudget ∧
      ¬tokens (prompt sampleFunction [] sampleSurroundings sampleAssessment sampleBudget).text ≤
        sampleBudget := by
  have hbefore : beforeHistory sampleFunction sampleSurroundings sampleAssessment sampleBudget =
      fixedPart sampleFunction sampleSurroundings sampleAssessment := rfl
  -- The budget is the number of tokens of the fixed part, whichever number it is.
  rw [tokens_prompt_nil, hbefore, sampleBudget]
  generalize tokens (fixedPart sampleFunction sampleSurroundings sampleAssessment) = n
  omega

end Dossier.Synthesis
