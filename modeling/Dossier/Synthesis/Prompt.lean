import Dossier.CallGraph.Reach
import Dossier.Decimal.Binary
import Dossier.Record.Basic

/-!
# Prompts

What the model is told about a function, within a budget of tokens, of which four
characters are thought to make one. The instructions, the function, its figures and its
direct callers and callees are always told. Then come the other calls of its
neighbourhood, nearest first, as many as fit, and at the end its history, newest first, as
much as fits. The first line that does not fit ends its list.
-/

namespace Dossier.Synthesis

/-- How many characters a token is thought to have. -/
def charsPerToken : Nat := 4

/-- **The number of tokens of a text**, rounded up. -/
def tokens (s : String) : Nat :=
  (s.length + (charsPerToken - 1)) / charsPerToken

/-- What is told about the place of a function in the call graph. -/
structure Surroundings where
  targetId : String
  signature : String
  upstream : List String
  downstream : List String
  impactSize : Nat
  /-- The calls that do not touch the function, nearest first. -/
  indirectEdges : List CallEdge
deriving DecidableEq, Repr, Inhabited

/-- What is told about the figures of a function. -/
structure Assessment where
  metrics : Metrics
  score : Float
  risk : Risk
deriving Repr, Inhabited

/-- A prompt, with the number of lines for which there was no room. -/
structure Prompt where
  text : String
  edgesDropped : Nat
  commitsDropped : Nat
deriving DecidableEq, Repr, Inhabited

/-- Whether there was no room for some line. -/
def Prompt.isTruncated (p : Prompt) : Bool :=
  0 < p.edgesDropped || 0 < p.commitsDropped

/-- What the model is asked to do. -/
def instructions : String :=
  String.join
    ["You are reviewing one function in a software repository. Using the signals below, ",
      "explain why the function exists, how it connects to the rest of the code, and how risky ",
      "it is to change.\n\n",
      "Reply with a single JSON object with exactly these keys:\n",
      "- \"intent_summary\": string, the purpose of the function and how it evolved\n",
      "- \"dependency_overview\": string, who calls it and what it relies on\n",
      "- \"risk_assessment\": string, what makes changes risky or safe\n",
      "- \"refactoring_recommendations\": array of strings, concrete and ordered by value\n"]

/-- The lines that name the function. -/
def functionLines (f : FunctionRef) (signature : String) : String :=
  "\n## Function\n" ++ f.functionName ++ " in " ++ f.filePath ++ "\n" ++
    if signature.isEmpty then "" else "Signature: " ++ signature ++ "\n"

/-- The lines with the figures and the score. -/
def assessmentLines (a : Assessment) : String :=
  let figure (name : String) (n : Nat) (rest : String) : String :=
    "- " ++ name ++ ": " ++ Decimal.ofNat n ++ rest ++ "\n"
  String.join
    ["\n## Complexity\n",
      figure "cyclomatic complexity" a.metrics.complexity "",
      figure "lines of code" a.metrics.codeLines "",
      figure "parameters" a.metrics.parameters "",
      figure "modification frequency" a.metrics.modifications " commits",
      figure "call sites" a.metrics.callSites "",
      "- stability score: ", Decimal.fixed 3 a.score, " (", a.risk.name, ")\n"]

/-- The lines with the direct callers and callees. -/
def neighbourLines (s : Surroundings) : String :=
  "\n## Structure\nImpact radius: " ++ Decimal.ofNat s.impactSize ++ " functions\n" ++
    String.join (s.upstream.map fun c => "- called by " ++ c ++ "\n") ++
    String.join (s.downstream.map fun c => "- calls " ++ c ++ "\n")

/-- What is always told. -/
def fixedPart (f : FunctionRef) (s : Surroundings) (a : Assessment) : String :=
  instructions ++ functionLines f s.signature ++ assessmentLines a ++ neighbourLines s

/-- The line of an indirect call. -/
def edgeLine (e : CallEdge) : String :=
  "- " ++ e.caller ++ " -> " ++ e.callee ++ "\n"

/-- The line of a commit. -/
def commitLine (c : Commit) : String :=
  let day := ((Date.ofTimestamp? c.timestamp).map Date.text).getD (Decimal.ofInt c.timestamp)
  let short := String.ofList (c.hash.toList.take 10)
  let issues :=
    if c.issueIds.isEmpty then ""
    else " [" ++ ", ".intercalate (Order.distinct c.issueIds) ++ "]"
  "- " ++ day ++ " " ++ short ++ " " ++ c.author ++ ": " ++ c.subject ++ issues ++ "\n"

/-- Whether a line still fits after a text. -/
def fits (budget : Nat) (text line : String) : Bool :=
  tokens text + tokens line ≤ budget

/-- A text with the lines added up to the first that does not fit, and the number of lines
left out. -/
def fill (budget : Nat) : String → List String → String × Nat
  | text, [] => (text, 0)
  | text, l :: ls =>
    if fits budget text l then fill budget (text ++ l) ls else (text, ls.length + 1)

/-- The heading of the history. -/
def historyHeading : String :=
  "\n## History (newest first)\n"

/-- A text with the history added, and the number of commits left out. -/
def withHistory (budget : Nat) (text : String) (commits : List Commit) : String × Nat :=
  if commits.isEmpty then (text ++ historyHeading ++ "No recorded commits.\n", 0)
  else if fits budget text historyHeading then
    fill budget (text ++ historyHeading) (commits.reverse.map commitLine)
  else (text, commits.length)

/-- **The prompt for a function** with its commits, oldest first, within a budget. -/
def prompt (f : FunctionRef) (commits : List Commit) (s : Surroundings) (a : Assessment)
    (budget : Nat) : Prompt :=
  let structural := fill budget (fixedPart f s a) (s.indirectEdges.map edgeLine)
  let whole := withHistory budget structural.1 commits
  ⟨whole.1, structural.2, whole.2⟩

end Dossier.Synthesis
