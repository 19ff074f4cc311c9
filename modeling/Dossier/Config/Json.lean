import Dossier.Config.Basic
import Dossier.Json.Fields
import Dossier.Json.Parser

/-!
# Configurations as JSON

A configuration is a JSON object. Every entry may be left out, and an entry with a single
value or a section may be null; what is no entry is refused, at every level.
-/

namespace Dossier

open Json (Presence)

namespace Json

/-- The value of an entry that may be left out or null. -/
def given? {α : Type} (read : Json → Option α) : Option Json → Option (Option α)
  | none => some none
  | some v => v.optional? read

/-- The value of an entry that may be left out, but not null. -/
def givenOr? {α : Type} (read : Json → Option α) (standard : α) : Option Json → Option α
  | none => some standard
  | some v => read v

/-- The section of an entry that may be left out or null. -/
def section? {α : Type} (read : Json → Option α) (standard : α) (entry : Option Json) :
    Option α :=
  (given? read entry).map fun v => v.getD standard

end Json

open Json (given? givenOr? section?)

/-- Reads a range, which is written as its two ends. -/
def MetricRange.ofJson? : Json → Option (MetricRange Float)
  | .array [min, max] => do return ⟨← min.double?, ← max.double?⟩
  | _ => none

/-- Reads the section of ranges. -/
def RangeOptions.ofJson? (v : Json) : Option RangeOptions := do
  let names := ["complexity", "modification_frequency", "call_sites", "lines_of_code"]
  match ← v.fields? true (names.map fun n => (n, .named)) with
  | [complexity, modifications, callSites, codeLines] =>
    return {
      complexity := ← given? MetricRange.ofJson? complexity
      modifications := ← given? MetricRange.ofJson? modifications
      callSites := ← given? MetricRange.ofJson? callSites
      codeLines := ← given? MetricRange.ofJson? codeLines }
  | _ => none

/-- Reads the section on prompts and retries. -/
def SynthesisOptions.ofJson? (v : Json) : Option SynthesisOptions := do
  let names := ["token_budget", "max_retries", "initial_backoff_ms", "max_backoff_ms"]
  match ← v.fields? true (names.map fun n => (n, .named)) with
  | [budget, retries, initial, max] =>
    return ⟨← given? Json.nat64? budget, ← given? Json.nat32? retries,
      ← given? Json.nat64? initial, ← given? Json.nat64? max⟩
  | _ => none

/-- Reads the section on the model. -/
def ModelOptions.ofJson? (v : Json) : Option ModelOptions := do
  let names := ["endpoint", "model", "api_key_env", "max_output_tokens", "request_timeout_secs"]
  match ← v.fields? true (names.map fun n => (n, .named)) with
  | [endpoint, model, key, tokens, timeout] =>
    return ⟨← given? Json.string? endpoint, ← given? Json.string? model,
      ← given? Json.string? key, ← given? Json.nat32? tokens, ← given? Json.nat64? timeout⟩
  | _ => none

/-- Reads the section on stores. -/
def StoreOptions.ofJson? (v : Json) : Option StoreOptions := do
  match ← v.fields? true [("path", .named), ("blob_dir", .named)] with
  | [path, directory] =>
    return ⟨← given? Json.string? path, ← given? Json.string? directory⟩
  | _ => none

namespace Config

/-- Reads a configuration from a value. -/
def ofJson? (v : Json) : Option Config := do
  let names :=
    ["include", "exclude", "ranges", "cache_ttl_hours", "stage_timeout_secs", "synthesis",
      "llm", "store"]
  match ← v.fields? true (names.map fun n => (n, .free)) with
  | [included, excluded, ranges, hours, timeout, synthesis, model, store] =>
    return ⟨← givenOr? Json.strings? [] included, ← givenOr? Json.strings? [] excluded,
      ← section? RangeOptions.ofJson? {} ranges, ← given? Json.int64? hours,
      ← given? Json.nat64? timeout, ← section? SynthesisOptions.ofJson? {} synthesis,
      ← section? ModelOptions.ofJson? {} model, ← section? StoreOptions.ofJson? {} store⟩
  | _ => none

/-- **Reads a configuration from a text.** -/
def parse? (s : String) : Option Config :=
  (Json.parse? s).bind ofJson?

end Config

end Dossier
