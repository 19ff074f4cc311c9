import Dossier.CallGraph.Reach
import Dossier.Outline.Source
import Dossier.Structure.Names
import Dossier.Structure.SourceTree

/-!
# The structure around a function

The structural stage looks a function up in its file and puts it into the call graph of
all source files of the tree. Only what concerns the function itself can make the stage
fail: a file that is in no known language, cannot be read or has a syntax error, and a
function that is missing or defined in two ways. Whatever else is wrong with the tree is
passed over and noted.
-/

namespace Dossier.Structure

/-- What is known of the structure around a function. -/
structure Analysis where
  graph : CallGraph
  targetId : String
  target : Definition
  upstream : List String
  downstream : List String
  /-- All functions that are connected with the target. -/
  impact : List String
  /-- What was passed over. -/
  notes : List String
deriving Repr, Inhabited

/-- The outline of a file of a known language. -/
def outlineOf (file source : String) : Except AnalysisError Outline :=
  match Language.ofPath? file with
  | none => .error (.unsupportedLanguage (Path.toSlashes file))
  | some language => (Outline.ofSource language file source).mapError .parse

/-- The second signature of a conflict: the first one that differs. -/
def differing (first : String) (ds : List Definition) : String :=
  ((ds.map Definition.signature).find? fun s => s != first).getD ""

/-- The definition that a request names. -/
def target (file name : String) (o : Outline) : Except AnalysisError Definition :=
  match o.locate name with
  | .found d => .ok d
  | .ambiguous ds =>
    let first := ((ds.head?).map Definition.signature).getD ""
    .error (.graphConstruction ⟨Located.idOf file name, first, differing first ds.tail⟩)
  | .missing => .error (.functionNotFound file name)

/-- What is known of one of the other files: its outline, or why it is passed over. -/
def outlineOther (tree : SourceTree) (path : String) :
    Inquiry (String × Except String Outline) := do
  match Language.ofPath? path with
  | none => return (path, .error (AnalysisError.unsupportedLanguage (Path.toSlashes path)).text)
  | some _ =>
    match ← tree.read path with
    | .error e => return (path, .error e.text)
    | .ok source => return (path, (outlineOf path source).mapError AnalysisError.text)

/-- The remark on a file that is passed over. -/
def skipped? : String × Except String Outline → Option String
  | (path, .error reason) => some ("skipped " ++ path ++ ": " ++ reason)
  | (_, .ok _) => none

/-- A file that is not passed over. -/
def outlined? : String × Except String Outline → Option OutlinedFile
  | (path, .ok o) => some ⟨path, o⟩
  | (_, .error _) => none

/-- The structure around the target, given the outlines of its file and of all others. -/
def assemble (file : OutlinedFile) (definition : Definition) (remarks : List String)
    (others : List (String × Except String Outline)) : Except Conflict Analysis := do
  let id := Located.idOf file.path definition.name
  let files := file :: others.filterMap outlined?
  let (known, ambiguous) ← survey id (files.flatMap OutlinedFile.located)
  let sites := known.map Located.site
  let graph ← CallGraph.build sites (files.flatMap (callsOf (.ofSites sites)))
  return {
    graph := graph
    targetId := id
    target := definition
    upstream := graph.upstream id
    downstream := graph.downstream id
    impact := graph.impact id
    notes := remarks ++ others.filterMap skipped? ++ ambiguous }

/-- The source files of a tree, and what is remarked when they cannot be listed. -/
def listFiles (tree : SourceTree) (filter : PathFilter) :
    Inquiry (List String × List String) := do
  match ← tree.sourceFiles filter with
  | .ok paths => return (paths, [])
  | .error e => return ([], ["repository walk incomplete: " ++ e.text])

/-- **Analyzes the structure** around a function of a file. -/
def analyze (tree : SourceTree) (filter : PathFilter) (file name : String) :
    Inquiry (Except AnalysisError Analysis) := do
  let file := Path.normalize file
  if (Language.ofPath? file).isNone then
    return .error (.unsupportedLanguage (Path.toSlashes file))
  match ← tree.read file with
  | .error e => return .error (.sourceUnreadable file e)
  | .ok source =>
    match outlineOf file source with
    | .error e => return .error e
    | .ok outline =>
      match target file name outline with
      | .error e => return .error e
      | .ok definition =>
        let (paths, remarks) ← listFiles tree filter
        let others ← Inquiry.forAll (outlineOther tree) (paths.filter fun p => p != file)
        return (assemble ⟨file, outline⟩ definition remarks others).mapError .graphConstruction

end Dossier.Structure
