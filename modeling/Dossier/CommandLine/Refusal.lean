import Dossier.AnalysisError
import Dossier.Config.Loading

/-!
# Why commands are refused

A command that is not carried out says why in one line, and ends with a code of its own:
two when the words are no command or the structure of the function is not known, and one
for most other reasons.
-/

namespace Dossier.CommandLine

/-- Why a command is not carried out. -/
inductive Refusal where
  /-- The words are no command. -/
  | usage
  | noRepository (root : String)
  /-- A file that is named from the root of all files does not exist. -/
  | noFile (file : String)
  | unresolved (root : String)
  | outside (file root : String)
  | configuration (error : ConfigError)
  /-- A configuration that was to be checked is faulty. -/
  | invalid (error : ConfigError)
  /-- The time to live in the configuration is no time. -/
  | lifetime
  | store (path : String)
  /-- A store does not return. -/
  | stuck
  | analysis (error : AnalysisError)
  | history (error : AnalysisError)
deriving Repr, Inhabited

namespace Refusal

/-- The code with which a refused command ends. -/
def code : Refusal → Nat
  | usage | analysis (.unavailable _) => 2
  | lifetime => 101
  | _ => 1

/-- What to write instead of a command that is none. -/
def usageText : String :=
  "\n".intercalate
    ["Usage:",
      "  [-v] analyze REPO --file FILE --function NAME [--commit REVISION]",
      "       [--format text|json] [--config FILE] [--ephemeral] [--offline]",
      "  [-v] history REPO --function NAME [--format text|json] [--config FILE]",
      "  [-v] config validate|show [--path FILE]"]

/-- **The reason in words.** -/
def text : Refusal → String
  | usage => usageText
  | noRepository root => "Error: Repository root does not exist: " ++ root
  | noFile file => "Error: Path does not exist: " ++ file
  | unresolved root => "Error: failed to resolve " ++ root
  | outside file root => String.join ["Error: ", file, " is outside the repository ", root]
  | configuration e => "Error: failed to load configuration\n\nCaused by: " ++ e.text
  | invalid e => "Config validation failed: " ++ e.text
  | lifetime => "Error: cache_ttl_hours is out of range"
  | store path => "Error: failed to open intelligence store: " ++ path
  | stuck => "Error: the intelligence store does not answer"
  | analysis e => "Error: " ++ e.text
  | history e => "Error: failed to read stored analyses\n\nCaused by: " ++ e.text

end Refusal

end Dossier.CommandLine
