import Dossier.Decimal.Binary
import Dossier.Record.Basic
import Dossier.Text.Columns

/-!
# Reports

A record as a report to read, and records as a table with one line each. Scores have two
places. Hashes are shown by their beginning; a fingerprint that joins a hash and a digest
with a plus sign shows the beginning of both.
-/

namespace Dossier.Report

open Text

/-- A line of text. -/
def line (parts : List String) : String :=
  String.join parts ++ "\n"

/-- A fingerprint as it is shown. -/
def shortFingerprint (fingerprint : String) : String :=
  match cut? ['+'] fingerprint.toList with
  | some (base, digest) => brief (String.ofList base) ++ "+" ++ brief (String.ofList digest)
  | none => brief fingerprint

/-- The day of a commit. -/
def dayOf (timestamp : Int) : String :=
  ((Date.ofTimestamp? timestamp).map Date.text).getD "unknown"

/-- A figure with its name. -/
def figure (name : String) (value : Nat) : String :=
  line ["  ", pad 24 name, " ", Decimal.ofNat value]

/-- A number of functions under a heading. -/
def functions (heading : String) (names : List String) : String :=
  line ["  ", heading, " (", Decimal.ofNat names.length, ")"] ++
    String.join (names.map fun n => line ["    ", n])

/-- A commit on one line. -/
def commit (c : CommitDigest) : String :=
  let issues := if c.issueIds.isEmpty then "" else " [" ++ ", ".intercalate c.issueIds ++ "]"
  line ["  ", brief c.hash, " ", dayOf c.timestamp, " ", fit 16 c.author, " ", c.subject, issues]

/-- The history of a function, if it has any. -/
def history (cs : List CommitDigest) : String :=
  if cs.isEmpty then ""
  else
    line ["\nHistory (", Decimal.ofNat cs.length, " commits)"] ++ String.join (cs.map commit)

/-- The failures that were passed over, if there were any. -/
def degradations (ds : List Degradation) : String :=
  if ds.isEmpty then ""
  else
    "\nDegraded stages\n" ++
      String.join (ds.map fun d => line ["  ", pad 10 d.stage.name, " ", d.reason])

/-- What the analysis came to in short. -/
def summary (r : Record) : String :=
  String.join
    [line [r.function.key, " (", shortFingerprint r.function.fingerprint, ")"],
      line ["Stability: ", Decimal.fixed 2 r.score, "  Risk: ", r.risk.name],
      if r.isFullyAnalyzed then "Analysis: complete\n"
      else line ["Analysis: partial (", Decimal.ofNat r.degradations.length, " degraded)"],
      match r.synthesis with
      | .complete => ""
      | .incomplete reason => line ["Synthesis: partial (", reason, ")"]]

/-- **A record as a report.** -/
def text (r : Record) : String :=
  String.join
    [summary r,
      "\nIntent\n", paragraph r.narrative.intent,
      "\nDependencies\n", paragraph r.narrative.dependencies,
      "\nRisk assessment\n", paragraph r.narrative.risk,
      "\nMetrics\n",
      figure "cyclomatic complexity" r.metrics.complexity,
      figure "lines of code" r.metrics.codeLines,
      figure "parameters" r.metrics.parameters,
      figure "modifications" r.metrics.modifications,
      figure "call sites" r.metrics.callSites,
      "\nCall graph\n",
      functions "callers" r.dependencies.upstream,
      functions "callees" r.dependencies.downstream,
      line ["  impact radius: ", Decimal.ofNat r.dependencies.impactSize],
      history r.commits,
      "\nRecommendations\n",
      String.join (r.recommendations.map fun s => line ["  - ", s]),
      degradations r.degradations]

/-- A line of a table of records. -/
def row (created fingerprint score risk file status : String) : String :=
  line [pad 20 created, " ", pad 18 fingerprint, " ", pad 8 score, " ", pad 14 risk, " ",
    pad 30 file, " ", status]

/-- How much of an analysis there is: all of it, all but the narrative, or all but some
other part. -/
def status (r : Record) : String :=
  if r.isPartial then "partial" else if r.isFullyAnalyzed then "complete" else "degraded"

/-- **Records as a table**, one line each below the names of the columns. -/
def table (rs : List Record) : String :=
  row "CREATED" "FINGERPRINT" "SCORE" "RISK" "FILE" "STATUS" ++
    String.join (rs.map fun r =>
      row r.createdAt.dayAndTime (shortFingerprint r.function.fingerprint)
        (Decimal.fixed 2 r.score) r.risk.name (fit 30 r.function.filePath) (status r))

end Dossier.Report
