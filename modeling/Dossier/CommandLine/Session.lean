import Dossier.Analysis.Run
import Dossier.CommandLine.Command
import Dossier.CommandLine.Refusal
import Dossier.Config.Report
import Dossier.Report.Json
import Dossier.Report.Text
import Dossier.Store.Disk
import Dossier.Store.Memory
import Dossier.VersionControl.Git

/-!
# Carrying out commands

A command is carried out in a directory, against the disk as it is then, and changes
nothing but the stores on it. A repository is a directory that exists, and the stores lie
where its settings say; an analysis whose result is not to be kept uses stores of its own
instead.

Paths are taken relative to the directory of the session. The file of a function is the
exception: a relative one is taken from the root of the repository, as it is written.
-/

namespace Dossier.CommandLine

/-- Where and when commands are given. -/
structure Session where
  /-- The path of a directory, without dots and links. -/
  directory : String
  git : Option Git.Program
  /-- The model that is asked under some settings. -/
  model : Settings → Synthesis.Provider
  /-- What decodes the replies of the model. -/
  decoder : Synthesis.Decoder
  now : Instant

/-- What a command ends with. -/
structure Response where
  code : Nat
  /-- The result. -/
  output : String
  /-- Why there is none. -/
  complaint : String
deriving DecidableEq, Repr, Inhabited

/-- The response to a command that ends with a result or is refused. -/
def Response.of : Except Refusal String → Response
  | .ok output => ⟨0, output, ""⟩
  | .error refusal => ⟨refusal.code, "", refusal.text ++ "\n"⟩

/-! ### Finding the repository -/

/-- The root of the repository that is named, which has to be a directory. -/
def rootOf (files : Place) (directory repository : String) : Except Refusal String :=
  let root := Path.join directory repository
  if files.isDirectory root then .ok root else .error (.noRepository root)

/-- **The path of a file within a repository.** A relative path is one already. A path
from the root of all files has to lead to something below the repository. -/
def pathWithin (files : Place) (root file : String) : Except Refusal String :=
  if Path.isAbsolute file then
    match files.resolve file, files.resolve root with
    | .error _, _ => .error (.noFile file)
    | _, .error _ => .error (.unresolved root)
    | .ok place, .ok above =>
      if above.names.isPrefixOf place.names then
        .ok (Path.toSlashes ("/".intercalate (place.names.drop above.names.length)))
      else .error (.outside place.path above.path)
  else .ok (Path.toSlashes file)

namespace Session

/-- The directory of the session on a disk. -/
def place (s : Session) (d : Disk) : Place :=
  match d.root.resolve s.directory with
  | .ok place => place
  | .error _ => d.root

/-- The settings that hold for a project. -/
def settings (s : Session) (d : Disk) (root : String) (config : Option String) :
    Except Refusal Settings :=
  (Settings.load (s.place d) root config).mapError .configuration

/-! ### Analyzing -/

/-- The request that an analysis stands for, and the settings for it. -/
def request (s : Session) (d : Disk) (o : AnalyzeOptions) :
    Except Refusal (Settings × Analysis.Request) := do
  let root ← rootOf (s.place d) s.directory o.repository
  let file ← pathWithin (s.place d) root o.file
  let settings ← s.settings d root o.config
  return (settings, .of root file o.function o.commit)

/-- The circumstances of a request. -/
def circumstances (s : Session) (d : Disk) (settings : Settings) (root : String)
    (offline : Bool) : Analysis.Circumstances where
  versionControl := fun _ => Git.versionControl s.git (s.place d) root
  files := s.place d
  model := if offline then Synthesis.absent "offline mode" else s.model settings
  decoder := s.decoder
  cancelled := false
  cancelledDuring := fun _ => false
  lookedUpAt := s.now
  createdAt := s.now

/-- What comes of a request. -/
def answerOf {α : Type} (refuse : AnalysisError → Refusal) :
    Reply AnalysisError α → Except Refusal α
  | .answer a => .ok a
  | .failure e => .error (refuse e)
  | .stall => .error .stuck

/-- Answers a request and keeps nothing. -/
def analyzeInMemory (s : Session) (d : Disk) (settings : Settings) (r : Analysis.Request)
    (offline : Bool) : Except Refusal Record :=
  match Analysis.Conditions.ofSettings? settings with
  | none => .error .lifetime
  | some k =>
    let outcome := Analysis.analyze k (s.circumstances d settings r.root offline) r
      ⟨MemoryStore.empty, MemoryArtifacts.empty⟩
    answerOf .analysis outcome.reply

/-- **Answers a request by the stores on a disk**, and keeps the result there. -/
def analyzeOnDisk (s : Session) (d : Disk) (settings : Settings) (r : Analysis.Request)
    (offline : Bool) : Disk × Except Refusal Record :=
  let path := settings.storeIn r.root
  match d.openTable? path with
  | none => (d, .error (.store path))
  | some (d, file, table) =>
    match Analysis.Conditions.ofSettings? settings with
    | none => (d, .error .lifetime)
    | some k =>
      let (directory, artifacts) := d.directoryAt (settings.artifactsIn r.root)
      let outcome := Analysis.analyze k (s.circumstances d settings r.root offline) r
        ⟨table, artifacts⟩
      let d := d.setTable file outcome.stores.records
      (if artifacts.obstacle.isNone then d.setDirectory directory outcome.stores.artifacts
        else d, answerOf .analysis outcome.reply)

/-- Analyzes a function. -/
def analyze (s : Session) (d : Disk) (o : AnalyzeOptions) : Disk × Except Refusal String :=
  let write (r : Record) : String :=
    match o.format with
    | .text => Report.text r
    | .json => Report.json r ++ "\n"
  match s.request d o with
  | .error e => (d, .error e)
  | .ok (settings, r) =>
    if o.ephemeral then (d, (s.analyzeInMemory d settings r o.offline).map write)
    else
      let (d, result) := s.analyzeOnDisk d settings r o.offline
      (d, result.map write)

/-! ### Listing -/

/-- The stored analyses of a function. -/
def historyOf (s : Session) (d : Disk) (settings : Settings) (root function : String) :
    Disk × Except Refusal (List Record) :=
  let path := settings.storeIn root
  match d.openTable? path with
  | none => (d, .error (.store path))
  | some (d, _, table) =>
    match Analysis.Conditions.ofSettings? settings with
    | none => (d, .error .lifetime)
    | some _ =>
      (d, answerOf .history (Analysis.history table (repositoryAt (s.place d) root) function))

/-- Lists the stored analyses of a function. -/
def history (s : Session) (d : Disk) (o : HistoryOptions) : Disk × Except Refusal String :=
  let write (rs : List Record) : String :=
    match o.format with
    | .json => Report.jsonList rs ++ "\n"
    | .text =>
      if rs.isEmpty then String.join ["No stored analyses for `", o.function, "`.\n"]
      else Report.table rs
  let request : Except Refusal (String × Settings) := do
    let root ← rootOf (s.place d) s.directory o.repository
    return (root, ← s.settings d root o.config)
  match request with
  | .error e => (d, .error e)
  | .ok (root, settings) =>
    let (d, result) := s.historyOf d settings root o.function
    (d, result.map write)

/-! ### Configurations -/

/-- Says whether a configuration is valid. -/
def checkConfig (s : Session) (d : Disk) (file : Option String) : Except Refusal String :=
  match Settings.load (s.place d) s.directory file with
  | .error e => .error (.invalid e)
  | .ok settings =>
    match settings.source with
    | some file => .ok (String.join ["Config valid: ", file, "\n"])
    | none => .ok "No config file found. Using defaults.\n"

/-- Shows the settings of a configuration. -/
def showConfig (s : Session) (d : Disk) (file : Option String) : Except Refusal String :=
  (s.settings d s.directory file).map Settings.text

/-! ### All commands -/

/-- Carries out a command. -/
def perform (s : Session) (d : Disk) : Command → Disk × Except Refusal String
  | .analyze o => s.analyze d o
  | .history o => s.history d o
  | .checkConfig file => (d, s.checkConfig d file)
  | .showConfig file => (d, s.showConfig d file)

/-- **Carries out the command in the words of a command line.** The result is the disk
afterwards and the response. -/
def run (s : Session) (d : Disk) (words : List String) : Disk × Response :=
  match Command.ofWords? words with
  | none => (d, .of (.error .usage))
  | some command =>
    let (d, result) := s.perform d command
    (d, .of result)

end Session

end Dossier.CommandLine
