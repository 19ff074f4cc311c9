import Dossier.Config.Json
import Dossier.Config.Settings
import Dossier.Files.Tree

/-!
# Where configurations come from

A configuration is read from a file that is named, or else from the first of two files
that exist in the directory of the project, or else it is empty. Whatever is wrong with a
file that is there is an error; the next file is not tried.
-/

namespace Dossier

/-- Why a configuration cannot be had. The file is left out when there is none. -/
inductive ConfigError where
  | unreadable (file : String) (cause : FileError)
  | malformed (file : Option String)
  | invalid (file : Option String) (fault : Config.Fault)
deriving Repr, Inhabited

namespace ConfigError

/-- One of the causes of an error. -/
inductive Cause where
  | said (text : String)
  /-- The text is no configuration. -/
  | format
  /-- A pattern cannot be read. -/
  | pattern
  | file (error : FileError)
deriving Repr, Inhabited

/-- The cause in words. -/
def Cause.text : Cause → String
  | said s => s
  | format => "not a configuration in JSON"
  | pattern => "error parsing glob"
  | file e => e.text

/-- The causes of a fault. -/
def faultCauses (fault : Config.Fault) : List Cause :=
  match fault with
  | .requiredPattern _ => [.said fault.text, .pattern]
  | .excludedPattern _ => [.said fault.text, .pattern]
  | _ => [.said fault.text]

/-- **The causes of an error**, from the outermost to the innermost. -/
def chain : ConfigError → List Cause
  | unreadable file cause => [.said ("failed to read config file: " ++ file), .file cause]
  | malformed none => [.format]
  | malformed (some file) => [.said ("failed to parse config file: " ++ file), .format]
  | invalid none fault => faultCauses fault
  | invalid (some file) fault => .said ("invalid config in: " ++ file) :: faultCauses fault

/-- All causes in one line. -/
def text (e : ConfigError) : String :=
  ": ".intercalate (e.chain.map Cause.text)

end ConfigError

namespace Config

/-- The names of the files that are looked for, in order. -/
def fileNames : List String :=
  [".lineagerc.json", "lineage.config.json"]

/-- **Reads the configuration in a file**; a faulty one is refused. -/
def load (files : Place) (file : String) : Except ConfigError Config :=
  match files.readText file with
  | .error e => .error (.unreadable file e)
  | .ok text =>
    match parse? text with
    | none => .error (.malformed (some file))
    | some c =>
      match c.fault? with
      | some fault => .error (.invalid (some file) fault)
      | none => .ok c

/-- The file that holds the configuration of a project. -/
def find? (files : Place) (project : String) : Option String :=
  (fileNames.map (Path.join project)).find? files.pathExists

/-- **The configuration of a project** and its file, if it has one. -/
def discover (files : Place) (project : String) :
    Except ConfigError (Option (Config × String)) :=
  match find? files project with
  | none => .ok none
  | some file => (load files file).map fun c => some (c, file)

/-- The configuration that holds for a project, and its file; a file that is named comes
before those that are looked for. -/
def choose (files : Place) (project : String) (file : Option String) :
    Except ConfigError (Config × Option String) :=
  match file with
  | some file => (load files file).map fun c => (c, some file)
  | none =>
    (discover files project).map fun found =>
      match found with
      | some (c, file) => (c, some file)
      | none => ({}, none)

end Config

/-- **The settings that hold for a project.** -/
def Settings.load (files : Place) (project : String) (file : Option String) :
    Except ConfigError Settings :=
  match Config.choose files project file with
  | .error e => .error e
  | .ok (c, source) =>
    match Settings.ofConfig c with
    | .error fault => .error (.invalid none fault)
    | .ok s => .ok { s with source := source }

/-- The settings that a configuration in a text stands for. -/
def Settings.ofText (text : String) : Except ConfigError Settings :=
  match Config.parse? text with
  | none => .error (.malformed none)
  | some c => (Settings.ofConfig c).mapError fun fault => .invalid none fault

end Dossier
