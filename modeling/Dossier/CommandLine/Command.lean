import Dossier.CommandLine.Words

/-!
# Commands

There are four commands: to analyze a function of a repository, to list its stored
analyses, and to check or to show a configuration. Operands and options that name files
or directories are not empty.
-/

namespace Dossier.CommandLine

/-- How a result is written. -/
inductive Format where
  | text
  | json
deriving DecidableEq, Repr, Inhabited

/-- The format of a name. -/
def Format.ofName? : String → Option Format
  | "text" => some .text
  | "json" => some .json
  | _ => none

/-- What is to be analyzed, and how. -/
structure AnalyzeOptions where
  repository : String
  /-- The file that defines the function. -/
  file : String
  function : String
  commit : Option String
  format : Format
  /-- The file of the configuration, if one is named. -/
  config : Option String
  /-- Whether nothing is kept. -/
  ephemeral : Bool
  /-- Whether the model is not asked. -/
  offline : Bool
deriving DecidableEq, Repr, Inhabited

/-- Whose analyses are listed, and how. -/
structure HistoryOptions where
  repository : String
  function : String
  format : Format
  config : Option String
deriving DecidableEq, Repr, Inhabited

/-- A command. -/
inductive Command where
  | analyze (options : AnalyzeOptions)
  | history (options : HistoryOptions)
  /-- Checks a configuration: the one of a file that is named, or of the project here. -/
  | checkConfig (file : Option String)
  | showConfig (file : Option String)
deriving DecidableEq, Repr, Inhabited

namespace Given

/-- The value of an option that names a file, if it is given; the inner option is about
that. -/
def path? (g : Given) (option : String) : Option (Option String) :=
  match g.value? option with
  | some "" => none
  | value => some value

/-- The format that is asked for. -/
def format? (g : Given) : Option Format :=
  match g.value? "format" with
  | none => some .text
  | some name => Format.ofName? name

/-- The only operand. -/
def operand? (g : Given) : Option String :=
  match g.operands with
  | [operand] => if operand = "" then none else some operand
  | _ => none

end Given

namespace Command

/-- What is to be analyzed. -/
def analyze? (words : List String) : Option AnalyzeOptions := do
  let vocabulary : Vocabulary :=
    ⟨["ephemeral", "offline"], ["file", "function", "commit", "format", "config"]⟩
  let g ← vocabulary.read? words
  return {
    repository := ← g.operand?
    file := ← (← g.path? "file")
    function := ← g.value? "function"
    commit := g.value? "commit"
    format := ← g.format?
    config := ← g.path? "config"
    ephemeral := g.has "ephemeral"
    offline := g.has "offline" }

/-- Whose analyses are to be listed. -/
def history? (words : List String) : Option HistoryOptions := do
  let g ← Vocabulary.read? ⟨[], ["function", "format", "config"]⟩ words
  return {
    repository := ← g.operand?
    function := ← g.value? "function"
    format := ← g.format?
    config := ← g.path? "config" }

/-- The file of a configuration, if one is named. -/
def configFile? (words : List String) : Option (Option String) := do
  let g ← Vocabulary.read? ⟨[], ["path"]⟩ words
  if g.operands.isEmpty then g.path? "path" else none

/-- What is to be done with a configuration. -/
def config? (words : List String) : Option Command := do
  let (name, words) ← command? words
  match name with
  | "validate" => (configFile? words).map checkConfig
  | "show" => (configFile? words).map showConfig
  | _ => none

/-- **The command that the words of a command line stand for.** -/
def ofWords? (words : List String) : Option Command := do
  let (name, words) ← command? words
  match name with
  | "analyze" => (analyze? words).map analyze
  | "history" => (history? words).map history
  | "config" => config? words
  | _ => none

end Command

end Dossier.CommandLine
