import Dossier.Outline.Basic
import Dossier.Source.CodeLines
import Dossier.Syntax.Tree

/-!
# Reading an outline off a syntax tree

What a syntax tree says about functions depends on its language only through a few
questions about single nodes: is this a container, a function, a call, a decision? A
`Dialect` answers them, and one walk does the rest.

The walk is a sum over the tree. `findings` of a node are the functions defined in it,
the calls made in them, and the number of its decisions that belong to the function
around the node. A function node takes the decisions below it for itself and passes none
on; any other node adds its own to those of its children. So a nested function never
counts for the function around it, and what lies outside every function counts for
nothing.
-/

namespace Dossier

/-- The name and the body of a node that has both. -/
def Tree.named? {κ : Type} (source : String) (t : Tree κ) : Option (String × Tree κ) :=
  match t.child? .name, t.child? .body with
  | some name, some body => some (name.text source, body)
  | _, _ => none

/-- Whether the operator of a node is one that may skip the second operand. -/
def Tree.mayStop {κ : Type} (source : String) (t : Tree κ) : Bool :=
  match t.child? .operator with
  | some o => ["&&", "||"].contains (o.text source)
  | none => false

/-- What the nodes of a tree over `κ` mean; the first argument of each question is the
source text. -/
structure Dialect (κ : Type) where
  language : Language
  /-- The name of a node that qualifies the names below it without being a function. -/
  container? : String → Tree κ → Option String
  /-- The bare name and the body of a function. -/
  function? : String → Tree κ → Option (String × Tree κ)
  /-- What stands between the scope and the bare name of a function. -/
  receiver? : String → Tree κ → Option String
  /-- The number of parameters of a function. -/
  parameters : String → Tree κ → Nat
  /-- The name that a call node calls. -/
  callee? : String → Tree κ → Option String
  /-- Whether a node branches. -/
  isDecision : String → Tree κ → Bool

/-- What a walk finds in a piece of a tree. -/
structure Findings where
  /-- The functions defined in it, outer ones before inner ones. -/
  definitions : List Definition
  /-- The calls made in it from some function. -/
  calls : List Call
  /-- The number of decisions that belong to the function around it. -/
  decisions : Nat
deriving DecidableEq, Repr, Inhabited

namespace Findings

/-- Nothing. -/
def none : Findings :=
  ⟨[], [], 0⟩

/-- What is found in two pieces. -/
def add (f g : Findings) : Findings :=
  ⟨f.definitions ++ g.definitions, f.calls ++ g.calls, f.decisions + g.decisions⟩

end Findings

namespace Dialect

variable {κ : Type}

/-- The part of a function's qualified name that the function itself contributes. -/
def segment (d : Dialect κ) (source : String) (t : Tree κ) (simpleName : String) : String :=
  match d.receiver? source t with
  | some receiver => receiver ++ d.language.separator ++ simpleName
  | none => simpleName

/-- The name of a segment within its scope. -/
def qualify (d : Dialect κ) (scope : List String) (segment : String) : String :=
  d.language.separator.intercalate (scope ++ [segment])

/-- The definition that a function node with this body makes. -/
def definition (d : Dialect κ) (source : String) (scope : List String) (t : Tree κ)
    (simpleName : String) (body : Tree κ) (decisions : Nat) : Definition where
  name := d.qualify scope (d.segment source t simpleName)
  simpleName := simpleName
  signature := Text.collapse (Text.slice t.start.offset body.start.offset source)
  parameters := d.parameters source t
  decisions := decisions
  codeLines := CodeLines.count d.language.comments (body.text source)
  span := .between t.start t.stop

/-- What a node contributes besides its children, as the function `current` sees it. -/
def own (d : Dialect κ) (source : String) (current : Option String) (t : Tree κ) :
    Findings where
  definitions := []
  calls :=
    match current, d.callee? source t with
    | some caller, some callee => [⟨caller, callee, t.start.row + 1⟩]
    | _, _ => []
  decisions := if d.isDecision source t then 1 else 0

mutual

/-- **What is found in a tree** within a scope and inside the function `current`, if any. -/
def findings (d : Dialect κ) (source : String) (scope : List String)
    (current : Option String) : Tree κ → Findings
  | .node k r a b ts =>
    let t : Tree κ := .node k r a b ts
    match d.function? source t with
    | some (simpleName, body) =>
      let segment := d.segment source t simpleName
      let inner := d.findingsAll source (scope ++ [segment]) (some (d.qualify scope segment)) ts
      ⟨d.definition source scope t simpleName body inner.decisions :: inner.definitions,
        inner.calls, 0⟩
    | none =>
      match d.container? source t with
      | some name => d.findingsAll source (scope ++ [name]) current ts
      | none => (d.own source current t).add (d.findingsAll source scope current ts)

/-- What is found in several trees. -/
def findingsAll (d : Dialect κ) (source : String) (scope : List String)
    (current : Option String) : List (Tree κ) → Findings
  | [] => .none
  | t :: ts => (d.findings source scope current t).add (d.findingsAll source scope current ts)

end

/-- **The outline of a syntax tree.** -/
def outline (d : Dialect κ) (source : String) (t : Tree κ) : Outline :=
  let f := d.findings source [] none t
  .ofUnordered d.language f.definitions f.calls

end Dialect

end Dossier
