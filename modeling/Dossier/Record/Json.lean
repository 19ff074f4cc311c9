import Dossier.Json.Fields
import Dossier.Record.Basic

/-!
# Records as JSON

How records and their parts are written as JSON values and read back. The members stand in
the order of the fields. Lists of issues are left out when they are empty; commits and
degradations may be left out on reading. A score that is no finite number cannot be
written: null stands in its place and is refused on reading.
-/

namespace Dossier

open Json (Presence)

/-- A member that is left out when its list is empty. -/
def Json.optionalStrings (name : String) (ss : List String) : List (String × Json) :=
  if ss.isEmpty then [] else [(name, .ofStrings ss)]

namespace Metrics

/-- The figures as a value. -/
def toJson (m : Metrics) : Json :=
  .object
    [("cyclomatic_complexity", .ofNat m.complexity), ("lines_of_code", .ofNat m.codeLines),
      ("parameter_count", .ofNat m.parameters), ("modification_frequency", .ofNat m.modifications),
      ("call_site_count", .ofNat m.callSites)]

/-- Reads figures. -/
def ofJson? (v : Json) : Option Metrics := do
  let names :=
    ["cyclomatic_complexity", "lines_of_code", "parameter_count", "modification_frequency",
      "call_site_count"]
  match ← v.fields? false (names.map fun n => (n, .required)) with
  | [some a, some b, some c, some d, some e] =>
    return ⟨← a.nat32?, ← b.nat32?, ← c.nat32?, ← d.nat32?, ← e.nat32?⟩
  | _ => none

end Metrics

namespace Commit

/-- A commit as a value. -/
def toJson (c : Commit) : Json :=
  .object
    ([("hash", .string c.hash), ("message", .string c.message), ("author", .string c.author),
        ("timestamp", .int c.timestamp)] ++
      Json.optionalStrings "issue_ids" c.issueIds ++ [("diff", .string c.diff)])

/-- Reads a commit. -/
def ofJson? (v : Json) : Option Commit := do
  match ← v.fields? false
      [("hash", .required), ("message", .required), ("author", .required),
        ("timestamp", .required), ("issue_ids", .free), ("diff", .required)] with
  | [some hash, some message, some author, some timestamp, issues, some diff] =>
    return ⟨← hash.string?, ← message.string?, ← author.string?, ← timestamp.int64?,
      ← (issues.getD (.array [])).strings?, ← diff.string?⟩
  | _ => none

end Commit

namespace CommitDigest

/-- A digest as a value. -/
def toJson (c : CommitDigest) : Json :=
  .object
    ([("hash", .string c.hash), ("author", .string c.author), ("timestamp", .int c.timestamp),
        ("subject", .string c.subject)] ++
      Json.optionalStrings "issue_ids" c.issueIds)

/-- Reads a digest. -/
def ofJson? (v : Json) : Option CommitDigest := do
  match ← v.fields? false
      [("hash", .required), ("author", .required), ("timestamp", .required),
        ("subject", .required), ("issue_ids", .free)] with
  | [some hash, some author, some timestamp, some subject, issues] =>
    return ⟨← hash.string?, ← author.string?, ← timestamp.int64?, ← subject.string?,
      ← (issues.getD (.array [])).strings?⟩
  | _ => none

end CommitDigest

namespace FunctionRef

/-- A function as a value. -/
def toJson (f : FunctionRef) : Json :=
  .object
    [("repository_id", .string f.repositoryId), ("file_path", .string f.filePath),
      ("function_name", .string f.functionName), ("fingerprint", .string f.fingerprint)]

/-- Reads a function. -/
def ofJson? (v : Json) : Option FunctionRef := do
  match ← v.fields? false
      [("repository_id", .required), ("file_path", .required), ("function_name", .required),
        ("fingerprint", .required)] with
  | [some repository, some file, some name, some fingerprint] =>
    return ⟨← repository.string?, ← file.string?, ← name.string?, ← fingerprint.string?⟩
  | _ => none

end FunctionRef

namespace Narrative

/-- A narrative as a value. -/
def toJson (n : Narrative) : Json :=
  .object
    [("intent_summary", .string n.intent), ("dependency_overview", .string n.dependencies),
      ("risk_assessment", .string n.risk)]

/-- Reads a narrative. -/
def ofJson? (v : Json) : Option Narrative := do
  match ← v.fields? false
      [("intent_summary", .required), ("dependency_overview", .required),
        ("risk_assessment", .required)] with
  | [some intent, some dependencies, some risk] =>
    return ⟨← intent.string?, ← dependencies.string?, ← risk.string?⟩
  | _ => none

end Narrative

namespace Dependencies

/-- What is next to a function, as a value. -/
def toJson (d : Dependencies) : Json :=
  .object
    [("upstream", .ofStrings d.upstream), ("downstream", .ofStrings d.downstream),
      ("impact_radius_size", .ofNat d.impactSize)]

/-- Reads what is next to a function. -/
def ofJson? (v : Json) : Option Dependencies := do
  match ← v.fields? false
      [("upstream", .required), ("downstream", .required), ("impact_radius_size", .required)] with
  | [some upstream, some downstream, some size] =>
    return ⟨← upstream.strings?, ← downstream.strings?, ← size.nat64?⟩
  | _ => none

end Dependencies

namespace Risk

/-- Reads a class of risk. -/
def ofJson? (v : Json) : Option Risk := do
  let name ← v.choice?
  all.find? fun r => r.name == name

end Risk

namespace SynthesisStatus

/-- The status of a narrative as a value. -/
def toJson : SynthesisStatus → Json
  | complete => .object [("status", .string "complete")]
  | incomplete reason => .object [("status", .string "partial"), ("reason", .string reason)]

/-- Reads the status of a narrative: an object, or an array that begins with the name of
the status. -/
def ofJson? : Json → Option SynthesisStatus
  | .object ms => do
    let rest := ms.filter fun m => m.1 != "status"
    match (ms.filter fun m => m.1 == "status").map Prod.snd with
    | [.string "complete"] => some complete
    | [.string "partial"] =>
      match ← (Json.object rest).fields? false [("reason", .required)] with
      | [some (.string reason)] => some (incomplete reason)
      | _ => none
    | _ => none
  | .array [.string "complete"] => some complete
  | .array [.string "partial", .string reason] => some (incomplete reason)
  | _ => none

end SynthesisStatus

namespace Degradation

/-- A degradation as a value. -/
def toJson (d : Degradation) : Json :=
  .object [("stage", .string d.stage.name), ("reason", .string d.reason)]

/-- Reads a degradation. -/
def ofJson? (v : Json) : Option Degradation := do
  match ← v.fields? false [("stage", .required), ("reason", .required)] with
  | [some stage, some reason] =>
    return ⟨← Stage.ofName? (← stage.choice?), ← reason.string?⟩
  | _ => none

end Degradation

namespace Record

/-- The members of a record. -/
def members (r : Record) : List (String × Json) :=
  [("function", r.function.toJson), ("narrative", r.narrative.toJson),
    ("dependencies", r.dependencies.toJson), ("metrics", r.metrics.toJson),
    ("stability_score", .ofDouble r.score), ("risk_level", .string r.risk.name),
    ("recommendations", .ofStrings r.recommendations),
    ("commits", .array (r.commits.map CommitDigest.toJson)), ("synthesis", r.synthesis.toJson),
    ("degradations", .array (r.degradations.map Degradation.toJson)),
    ("created_at", .string r.createdAt.write), ("format_version", .ofNat r.formatVersion)]

/-- **A record as a value.** -/
def toJson (r : Record) : Json :=
  .object r.members

/-- Which fields of a record have to be there. -/
def fieldRules : List (String × Presence) :=
  [("function", .required), ("narrative", .required), ("dependencies", .required),
    ("metrics", .required), ("stability_score", .required), ("risk_level", .required),
    ("recommendations", .required), ("commits", .free), ("synthesis", .required),
    ("degradations", .free), ("created_at", .required), ("format_version", .required)]

/-- **Reads a record.** -/
def ofJson? (v : Json) : Option Record := do
  match ← v.fields? false fieldRules with
  | [some function, some narrative, some dependencies, some metrics, some score, some risk,
      some recommendations, commits, some synthesis, degradations, some createdAt,
      some formatVersion] =>
    return {
      function := ← FunctionRef.ofJson? function
      narrative := ← Narrative.ofJson? narrative
      dependencies := ← Dependencies.ofJson? dependencies
      metrics := ← Metrics.ofJson? metrics
      score := ← score.double?
      risk := ← Risk.ofJson? risk
      recommendations := ← recommendations.strings?
      commits := ← (commits.getD (.array [])).list? CommitDigest.ofJson?
      synthesis := ← SynthesisStatus.ofJson? synthesis
      degradations := ← (degradations.getD (.array [])).list? Degradation.ofJson?
      createdAt := ← Instant.read? (← createdAt.string?)
      formatVersion := ← formatVersion.nat32? }
  | _ => none

end Record

end Dossier
