import Dossier.Outline.Basic
import Dossier.Structure.NameIndex

/-!
# Functions of a repository and their names

Within a repository a function is identified by the path of its file and its name. Its
definitions are taken once, and the calls between functions are those whose callees can be told
by the names that are called.
-/

namespace Dossier.Structure

/-- A file with its outline. -/
structure OutlinedFile where
  path : String
  outline : Outline
deriving Repr, Inhabited

/-- A function of a repository. -/
structure Located where
  file : String
  definition : Definition
deriving Repr, Inhabited

namespace Located

/-- The identifier of the function of this name in a file. -/
def idOf (file name : String) : String :=
  file ++ "::" ++ name

/-- The identifier of a function. -/
def id (l : Located) : String :=
  idOf l.file l.definition.name

/-- The place where the function is defined. -/
def site (l : Located) : DefinitionSite :=
  ⟨l.id, l.file, l.definition.signature⟩

end Located

/-- The functions of a file. -/
def OutlinedFile.located (f : OutlinedFile) : List Located :=
  f.outline.definitions.map fun d => ⟨f.path, d⟩

/-- The calls of a file whose callees are known. -/
def callsOf (index : NameIndex) (f : OutlinedFile) : List CallEdge :=
  f.outline.calls.filterMap fun c =>
    (index.resolve? f.path c.callee).map fun callee => ⟨Located.idOf f.path c.caller, callee⟩

/-- What is left of a list of functions when every function is taken once, and what was
passed over. -/
structure Survey where
  /-- The functions, the last one first. -/
  reversed : List Located
  /-- Remarks on what was passed over, the last one first. -/
  remarks : List String
deriving Repr, Inhabited

/-- Takes one more function, unless it is known. A second definition with another signature
is passed over with a remark, but not that of the target. -/
def Survey.add (target : String) (s : Survey) (l : Located) : Except Conflict Survey :=
  match s.reversed.find? fun k => k.id == l.id with
  | none => .ok { s with reversed := l :: s.reversed }
  | some k =>
    if k.definition.signature = l.definition.signature then .ok s
    else if l.id = target then
      .error ⟨l.id, k.definition.signature, l.definition.signature⟩
    else
      .ok { s with remarks := ("ambiguous definition of " ++ l.id ++ " ignored") :: s.remarks }

/-- **Takes every function once**, its first definition; the definitions of the target have
to agree. -/
def survey (target : String) (ls : List Located) : Except Conflict (List Located × List String) :=
  (ls.foldlM (Survey.add target) ⟨[], []⟩).map fun s => (s.reversed.reverse, s.remarks.reverse)

end Dossier.Structure
