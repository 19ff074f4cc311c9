import Dossier.CallGraph.Basic
import Dossier.Source.QualifiedName

/-!
# Looking functions up by name

What a call means is found out by the name that is called, in this order:

1. the function of the same file that has this name;
2. the only function of the same file with the same last segment;
3. the only function of the repository that has this name;
4. the only function of the repository with the same last segment.

A name with several candidates on all of these levels, or with none, means nothing: such
calls lead out of the repository, or cannot be told. There is one table for each level, and
all four are filled from the places where functions are defined. A table is a list of entries
in which later entries stand first and hide earlier ones for their key.
-/

namespace Dossier

/-- The name that a function bears in its file. -/
def DefinitionSite.qualified (s : DefinitionSite) : String :=
  ((Text.dropPrefix? (s.file ++ "::").toList s.id.toList).map String.ofList).getD s.id

namespace Structure

/-- A table with one more value for a key, after those that it has. -/
def enterMore {κ ν : Type} [BEq κ] (key : κ) (value : ν) (table : List (κ × List ν)) :
    List (κ × List ν) :=
  (key, (table.lookup key).getD [] ++ [value]) :: table

/-- Tables from names to the identifiers of functions. -/
structure NameIndex where
  /-- The function of a file with a name. -/
  inFile : List ((String × String) × String)
  /-- The functions of a file with a last segment. -/
  inFileBySegment : List ((String × String) × List String)
  /-- The functions with a name. -/
  anywhere : List (String × List String)
  /-- The functions with a last segment. -/
  anywhereBySegment : List (String × List String)
deriving Repr, Inhabited

/-- The only one of some identifiers. -/
def only? : List String → Option String
  | [id] => some id
  | _ => none

namespace NameIndex

/-- The index of no function. -/
def empty : NameIndex :=
  ⟨[], [], [], []⟩

/-- The index with one more function. -/
def add (index : NameIndex) (s : DefinitionSite) : NameIndex :=
  let segment := QualifiedName.last s.qualified
  { inFile := ((s.file, s.qualified), s.id) :: index.inFile
    inFileBySegment := enterMore (s.file, segment) s.id index.inFileBySegment
    anywhere := enterMore s.qualified s.id index.anywhere
    anywhereBySegment := enterMore segment s.id index.anywhereBySegment }

/-- **The index of the functions that are defined at some places.** -/
def ofSites (sites : List DefinitionSite) : NameIndex :=
  sites.foldl add empty

/-- **The function that is meant by a name** which is called in a file. -/
def resolve? (index : NameIndex) (file callee : String) : Option String :=
  let segment := QualifiedName.last callee
  index.inFile.lookup (file, callee) <|>
    (index.inFileBySegment.lookup (file, segment)).bind only? <|>
    (index.anywhere.lookup callee).bind only? <|>
    (index.anywhereBySegment.lookup segment).bind only?

end NameIndex

end Structure

end Dossier
