import Dossier.Config.Settings
import Dossier.Json.Basic

/-!
# Settings as they are shown

Settings are shown as a JSON value or as a text, under the names that their entries have
in a configuration.
-/

namespace Dossier

/-- A text or null. -/
def Json.ofOption : Option String → Json
  | some s => .string s
  | none => .null

namespace Settings

/-- The ranges as a value. -/
def rangesJson (r : Ranges Float) : Json :=
  .object (Figure.all.map fun f =>
    (f.name, .object [("min", .float (r.get f).min), ("max", .float (r.get f).max)]))

/-- Settings as a value. -/
def toJson (s : Settings) : Json :=
  .object
    [("include", .ofStrings s.included), ("exclude", .ofStrings s.excluded),
      ("ranges", rangesJson s.ranges), ("cache_ttl_hours", .int s.lifetimeHours),
      ("stage_timeout_secs", .ofNat s.stageTimeout), ("token_budget", .ofNat s.tokenBudget),
      ("max_retries", .ofNat s.retry.maxRetries),
      ("initial_backoff_ms", .ofNat s.retry.initialBackoff),
      ("max_backoff_ms", .ofNat s.retry.maxBackoff), ("llm_endpoint", .string s.endpoint),
      ("llm_model", .string s.model), ("api_key_env", .string s.keyVariable),
      ("max_output_tokens", .ofNat s.maxOutputTokens),
      ("request_timeout_secs", .ofNat s.requestTimeout), ("store_path", .string s.storePath),
      ("blob_dir", .string s.artifactDirectory), ("config_path", .ofOption s.source)]

/-- The line of a range. -/
def rangeLine (r : Ranges Float) (f : Figure) : String :=
  String.join
    ["  ", f.name, ": [", Decimal.plainFormat.write (r.get f).min, ", ",
      Decimal.plainFormat.write (r.get f).max, "]"]

/-- The lines of the text. -/
def lines (s : Settings) : List String :=
  ["Configuration:", "  Source: " ++ s.source.getD "defaults (no config file found)", "",
    "Normalization ranges:"] ++
  Figure.all.map (rangeLine s.ranges) ++
  ["", "Pipeline:", "  cache_ttl_hours: " ++ Decimal.ofInt s.lifetimeHours,
    "  stage_timeout_secs: " ++ Decimal.ofNat s.stageTimeout, "", "Synthesis:",
    "  token_budget: " ++ Decimal.ofNat s.tokenBudget,
    "  max_retries: " ++ Decimal.ofNat s.retry.maxRetries,
    "  backoff_ms: " ++ Decimal.ofNat s.retry.initialBackoff ++ " .. " ++
      Decimal.ofNat s.retry.maxBackoff,
    "  endpoint: " ++ s.endpoint, "  model: " ++ s.model, "  api_key_env: " ++ s.keyVariable, "",
    "Store:", "  path: " ++ s.storePath, "  blob_dir: " ++ s.artifactDirectory, "", "Filters:",
    "  include: " ++
      if s.included.isEmpty then "all files" else ", ".intercalate s.included,
    "  exclude: " ++ ", ".intercalate s.excluded]

/-- **Settings as a text.** -/
def text (s : Settings) : String :=
  String.join (s.lines.map fun line => line ++ "\n")

end Settings

end Dossier
