import Dossier.Syntax.Token
import Dossier.Text.Slice

/-!
# Syntax trees

A tree node has a kind, taken from the node kinds `κ` of one language, the role it plays
for its parent if it has one, the piece of text it covers, and its children in the order
of the text. The kinds differ from language to language; the roles are the same for all,
because the questions asked of a tree (what is the name of this function, which child is
its body) are.
-/

namespace Dossier

/-- The part a child plays in its parent. -/
inductive Role where
  | name
  | body
  | parameters
  | receiver
  | type
  | callee
  | member
  | operator
  /-- What an operator, a call or an access is applied to. -/
  | operand
deriving DecidableEq, Repr, Inhabited

/-- A syntax tree over the node kinds `κ`. -/
inductive Tree (κ : Type) where
  | node (kind : κ) (role : Option Role) (start stop : Position) (children : List (Tree κ))
deriving Repr, Inhabited

namespace Tree

variable {κ : Type}

/-- The node kind. -/
def kind : Tree κ → κ
  | node k _ _ _ _ => k

/-- The role the node plays in its parent. -/
def role : Tree κ → Option Role
  | node _ r _ _ _ => r

/-- Where the text of the node starts. -/
def start : Tree κ → Position
  | node _ _ a _ _ => a

/-- Where the text of the node stops. -/
def stop : Tree κ → Position
  | node _ _ _ b _ => b

/-- The children, in the order of the text. -/
def children : Tree κ → List (Tree κ)
  | node _ _ _ _ ts => ts

/-- The same tree in a given role. -/
def withRole (r : Role) : Tree κ → Tree κ
  | node k _ a b ts => node k (some r) a b ts

/-- The first child that plays the role. -/
def child? (t : Tree κ) (r : Role) : Option (Tree κ) :=
  t.children.find? fun c => c.role == some r

/-- All children that play the role. -/
def childrenAs (t : Tree κ) (r : Role) : List (Tree κ) :=
  t.children.filter fun c => c.role == some r

/-- The text the node covers. -/
def text (source : String) (t : Tree κ) : String :=
  Text.slice t.start.offset t.stop.offset source

end Tree

end Dossier
