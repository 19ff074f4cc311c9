import Dossier.Digest.Sha256
import Dossier.Order.Sorting
import Dossier.Reply
import Dossier.Store.Error

/-!
# Artifacts

What an analysis leaves behind beside its record: the changes of commits and pictures of
call graphs. An artifact is stored under the digest of its content, so writing it twice
makes no difference, and what is there is never written over.

The path of a key has four components. The repository and the function are escaped, so
that each is one component whatever characters it has.
-/

namespace Dossier

/-- A kind of artifact. -/
inductive ArtifactKind where
  | diffs
  | callGraphs
deriving DecidableEq, Repr, Inhabited

/-- The name of a kind. -/
def ArtifactKind.name : ArtifactKind → String
  | diffs => "diffs"
  | callGraphs => "call-graphs"

/-- What an artifact is stored under. -/
structure ArtifactKey where
  repositoryId : String
  kind : ArtifactKind
  functionKey : String
  /-- The digest of the content. -/
  identifier : String
deriving DecidableEq, Repr, Inhabited

/-- A character of a component; those that would end or disguise one are escaped. -/
def ArtifactKey.escapeChar (c : Char) : List Char :=
  if c == '%' then ['%', '2', '5']
  else if c == '/' then ['%', '2', 'F']
  else if c == '\\' then ['%', '5', 'C']
  else if c == '#' then ['%', '2', '3']
  else if c == ':' then ['%', '3', 'A']
  else [c]

/-- A text as one component of a path. The two components that mean a directory are
escaped as well. -/
def ArtifactKey.escape (s : List Char) : List Char :=
  let escaped := s.flatMap escapeChar
  if escaped == ['.'] then ['%', '2', 'E']
  else if escaped == ['.', '.'] then ['%', '2', 'E', '%', '2', 'E']
  else escaped

namespace ArtifactKey

/-- The key of a content. -/
def ofContent (repositoryId : String) (kind : ArtifactKind) (functionKey : String)
    (content : List UInt8) : ArtifactKey :=
  ⟨repositoryId, kind, functionKey, String.ofList (Sha256.hex content)⟩

/-- A text as one component of a path. -/
def component (s : String) : String :=
  String.ofList (escape s.toList)

/-- **The path of a key.** -/
def path (k : ArtifactKey) : String :=
  String.join
    [component k.repositoryId, "/", k.kind.name, "/", component k.functionKey, "/", k.identifier]

/-- The key as it is shown. -/
def text (k : ArtifactKey) : String :=
  String.join [k.repositoryId, "/", k.kind.name, "/", k.functionKey, "/", k.identifier]

end ArtifactKey

/-- What a store of artifacts does. -/
class ArtifactStore (σ : Type) where
  /-- The content under a key. -/
  get : σ → ArtifactKey → Reply StoreError (Option (List UInt8))
  put : σ → ArtifactKey → List UInt8 → σ × Reply StoreError Unit

/-- Artifacts in memory. -/
structure MemoryArtifacts where
  entries : List (ArtifactKey × List UInt8)
deriving DecidableEq, Repr, Inhabited

namespace MemoryArtifacts

/-- The store without artifacts. -/
def empty : MemoryArtifacts :=
  ⟨[]⟩

/-- The content under a key. -/
def get? (s : MemoryArtifacts) (k : ArtifactKey) : Option (List UInt8) :=
  (s.entries.find? fun e => e.1 == k).map Prod.snd

/-- The store with a content under a key, unless there is one. -/
def put (s : MemoryArtifacts) (k : ArtifactKey) (content : List UInt8) : MemoryArtifacts :=
  if (s.get? k).isSome then s else ⟨s.entries ++ [(k, content)]⟩

/-- The number of artifacts. -/
def size (s : MemoryArtifacts) : Nat :=
  s.entries.length

/-- The keys of a kind, in the order of their paths. -/
def keys (s : MemoryArtifacts) (kind : ArtifactKind) : List ArtifactKey :=
  Order.sort (fun a b => !decide (b.path < a.path))
    ((s.entries.map Prod.fst).filter fun k => k.kind == kind)

instance : ArtifactStore MemoryArtifacts where
  get s k := .answer (s.get? k)
  put s k content := (s.put k content, .answer ())

end MemoryArtifacts

end Dossier
