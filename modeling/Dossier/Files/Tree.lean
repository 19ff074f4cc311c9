import Dossier.Files.Error
import Dossier.Text.Blank

/-!
# Trees of files

A file system is a tree of directories, with files and symbolic links for leaves. A path
is followed component by component: a single dot stays, two dots lead to the directory
above (the root is above itself), any other component has to be an entry of a directory,
and a link goes on with its target. A slash at the end asks for a directory. At most forty
links are followed on one way.

A `Place` remembers the directories that lead to it, so it has a path of its own without
dots and links, and the way up is always open.
-/

namespace Dossier

/-- A file, a link or a directory. -/
inductive FileNode where
  /-- A file with what it says, if that is text. -/
  | file (text : Option String)
  | link (target : String)
  | directory (entries : List (String × FileNode))
deriving Repr, Inhabited

namespace FileNode

/-- The directory without entries. -/
def empty : FileNode :=
  .directory []

/-- The entry of a name. -/
def lookup? (name : String) : List (String × FileNode) → Option FileNode
  | [] => none
  | (n, node) :: entries => if n = name then some node else lookup? name entries

/-- The entries of a directory; anything else has none. -/
def entries : FileNode → List (String × FileNode)
  | directory es => es
  | _ => []

/-- Entries in which the one of a name has become something else; where there is none, a
new directory has. -/
def update (name : String) (f : FileNode → FileNode) :
    List (String × FileNode) → List (String × FileNode)
  | [] => [(name, f empty)]
  | (n, node) :: es => if n = name then (n, f node) :: es else (n, node) :: update name f es

/-- The tree with something put at a path; directories on the way are made. A directory
that is there already is kept when an empty one is put in its place. -/
def insert (tree : FileNode) (path : List String) (new : FileNode) : FileNode :=
  match path with
  | [] =>
    match new, tree with
    | directory [], directory es => directory es
    | _, _ => new
  | name :: path => directory (update name (fun node => insert node path new) tree.entries)

/-- The tree without what is at a path. -/
def erase (tree : FileNode) (path : List String) : FileNode :=
  match path with
  | [] => tree
  | [name] => directory (tree.entries.filter fun e => e.1 != name)
  | name :: path =>
    if (lookup? name tree.entries).isSome then
      directory (update name (fun node => erase node path) tree.entries)
    else tree

end FileNode

/-- A node of a tree together with the way to it. -/
structure Place where
  node : FileNode
  /-- The directories above, the nearest one first, each with the name that leads down. -/
  trail : List (String × FileNode)
deriving Repr, Inhabited

namespace Place

/-- The root of a tree. -/
def root (tree : FileNode) : Place :=
  ⟨tree, []⟩

/-- The directory above; the root is above itself. -/
def parent (p : Place) : Place :=
  match p.trail with
  | [] => p
  | (_, above) :: trail => ⟨above, trail⟩

/-- The root of the tree that a place belongs to. -/
def top (p : Place) : Place :=
  match p.trail.getLast? with
  | some (_, tree) => root tree
  | none => p

/-- The names that lead from the root to a place. -/
def names (p : Place) : List String :=
  (p.trail.map Prod.fst).reverse

/-- The path of a place, without dots and links. -/
def path (p : Place) : String :=
  "/" ++ String.intercalate "/" p.names

/-- Where following some components leads: to the end, to a link with components after it,
or nowhere. -/
inductive Stop where
  | arrived (place : Place)
  /-- A link in the directory `place`. -/
  | link (place : Place) (target : String) (rest : List String)
  | failed (error : FileError)
deriving Repr, Inhabited

/-- Whether a name has more bytes than a directory can hold. -/
def isTooLong (name : String) : Bool :=
  255 < name.utf8ByteSize

/-- Follows components up to the first link. -/
def advance (p : Place) : List String → Stop
  | [] => .arrived p
  | name :: rest =>
    match p.node with
    | .directory entries =>
      if name = "." then advance p rest
      else if name = ".." then advance p.parent rest
      else
        match FileNode.lookup? name entries with
        | none => .failed (if isTooLong name then .nameTooLong else .notFound)
        | some (.link target) => .link p target rest
        | some node => advance ⟨node, (name, p.node) :: p.trail⟩ rest
    | _ => .failed .notADirectory

/-- The components of a path; a slash at the end counts as a dot after it. -/
def components (path : String) : List String :=
  let parts := (Text.splitAt (· == '/') path.toList).map String.ofList
  parts.filter (· ≠ "") ++ (if parts.getLast? = some "" then ["."] else [])

/-- Whether a path starts at the root. -/
def startsAtRoot (path : String) : Bool :=
  path.toList.head? == some '/'

/-- Follows components and at most so many links. -/
def follow : Nat → Place → List String → Except FileError Place
  | links, p, names =>
    match p.advance names with
    | .arrived place => .ok place
    | .failed e => .error e
    | .link place target rest =>
      match links with
      | 0 => .error .tooManyLinks
      | links + 1 =>
        if target.isEmpty then .error .notFound
        else
          follow links (if startsAtRoot target then place.top else place)
            (components target ++ rest)
termination_by structural links => links

/-- How many links are followed on one way. -/
def maxLinks : Nat := 40

/-- **Where a path leads** from a place. -/
def resolve (p : Place) (path : String) : Except FileError Place :=
  if path.isEmpty then .error .notFound
  else if path.toList.contains '\x00' then .error .invalidPath
  else follow maxLinks (if startsAtRoot path then p.top else p) (components path)

/-- Whether there is something at a path. -/
def pathExists (p : Place) (path : String) : Bool :=
  match p.resolve path with
  | .ok _ => true
  | .error _ => false

/-- Whether there is a directory at a path. -/
def isDirectory (p : Place) (path : String) : Bool :=
  match p.resolve path with
  | .ok ⟨.directory _, _⟩ => true
  | _ => false

/-- **The text of the file** at a path. -/
def readText (p : Place) (path : String) : Except FileError String :=
  match p.resolve path with
  | .error e => .error e
  | .ok place =>
    match place.node with
    | .file (some text) => .ok text
    | .file none => .error .notText
    | .directory _ => .error .isADirectory
    | .link _ => .error .notFound

end Place

end Dossier
