import Dossier.Text.Blank

/-!
# Paths

A path is a text whose components stand between slashes; empty components and single dots
do not count. A file is named by its last component, unless that one leads up, and its
extension is what follows the last dot of the name, unless that dot opens the name.

Within a repository paths are written with slashes only and without a leading `./`:
`normalize` turns every backslash into a slash and drops one such beginning.
-/

namespace Dossier.Path

/-- The components of a path that count: what stands between slashes, without the empty
ones and the single dots. -/
def components (path : List Char) : List (List Char) :=
  (Text.splitAt (· == '/') path).filter fun c => !c.isEmpty && c != ['.']

/-- The last component of a path, unless there is none or it leads up. -/
def fileName? (path : String) : Option String :=
  match (components path.toList).getLast? with
  | some c => if c == ['.', '.'] then none else some (String.ofList c)
  | none => none

/-- What follows the last point of a file name, unless that point opens the name. -/
def extension? (path : String) : Option String :=
  (fileName? path).bind fun name =>
    let reversed := name.toList.reverse
    let ext := reversed.takeWhile (· != '.')
    match reversed.drop ext.length with
    | '.' :: _ :: _ => some (String.ofList ext.reverse)
    | _ => none

/-- A backslash read as a slash. -/
def slash (c : Char) : Char :=
  if c == '\\' then '/' else c

/-- The path with slashes only. -/
def toSlashes (path : String) : String :=
  String.ofList (path.toList.map slash)

/-- A path with slashes only, without a leading `./`. -/
def normalizeChars (path : List Char) : List Char :=
  let slashed := path.map slash
  (Text.dropPrefix? ['.', '/'] slashed).getD slashed

/-- **The path as it is written within a repository**: with slashes only, and without a
leading `./`. -/
def normalize (path : String) : String :=
  String.ofList (normalizeChars path.toList)

/-- Whether a path starts at the root of all files. -/
def isAbsolute (path : String) : Bool :=
  path.toList.head? == some '/'

/-- **A path taken relative to a base**; an absolute path stays as it is. -/
def join (base path : String) : String :=
  if isAbsolute path || base.isEmpty then path
  else if base.toList.getLast? == some '/' then base ++ path
  else base ++ "/" ++ path

end Dossier.Path
