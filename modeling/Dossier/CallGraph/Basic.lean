import Dossier.Order.Table

/-!
# Call graphs

A call graph has functions for nodes and, for every pair of a function that calls another,
one edge; a function may call itself. Nodes are named by the identifiers of functions.
A call is kept in two tables, under its caller and under its callee, so that it can be
followed in both directions. The nodes and both tables are in increasing order, and so is
every answer that is read off them.

`CallGraph.build` makes a graph of the places where functions are defined and the calls
between them. One function may be defined at several places as long as its signature is
the same everywhere. Calls from or to a function that is defined nowhere are left out.
-/

namespace Dossier

/-- A call from one function to another. -/
@[ext]
structure CallEdge where
  caller : String
  callee : String
deriving DecidableEq, Repr, Inhabited

namespace CallEdge

/-- Edges are ordered by the caller, then by the callee. -/
instance : LT CallEdge where
  lt a b := a.caller < b.caller ∨ (a.caller = b.caller ∧ a.callee < b.callee)

instance : DecidableLT CallEdge := fun a b =>
  inferInstanceAs
    (Decidable (a.caller < b.caller ∨ (a.caller = b.caller ∧ a.callee < b.callee)))

end CallEdge

/-- A place where a function is defined. -/
structure DefinitionSite where
  /-- The identifier of the function. -/
  id : String
  file : String
  signature : String
deriving DecidableEq, Repr, Inhabited

/-- Two definitions of one function that disagree. -/
structure Conflict where
  name : String
  first : String
  second : String
deriving DecidableEq, Repr, Inhabited

/-- The conflict in words. -/
def Conflict.text (c : Conflict) : String :=
  "ambiguous function identity `" ++ c.name ++ "`: `" ++ c.first ++ "` conflicts with `" ++
    c.second ++ "`"

/-- The functions of a program and the calls between them. -/
structure CallGraph where
  nodes : List String
  /-- Under each function the functions that it calls. -/
  forward : Order.Table
  /-- Under each function the functions that call it. -/
  reverse : Order.Table
deriving DecidableEq, Repr, Inhabited

namespace CallGraph

/-- The graph without nodes. -/
def empty : CallGraph :=
  ⟨[], .empty, .empty⟩

/-- The graph with one more function. -/
def addNode (g : CallGraph) (id : String) : CallGraph :=
  { g with nodes := Order.insertDistinct id g.nodes }

/-- The graph with one more call, and with its two ends. -/
def addEdge (g : CallGraph) (e : CallEdge) : CallGraph where
  nodes := Order.insertDistinct e.callee (Order.insertDistinct e.caller g.nodes)
  forward := g.forward.enter e.caller e.callee
  reverse := g.reverse.enter e.callee e.caller

/-- Whether a function is a node. -/
def contains (g : CallGraph) (id : String) : Bool :=
  g.nodes.contains id

/-- The calls, ordered by the caller and then by the callee. -/
def edges (g : CallGraph) : List CallEdge :=
  g.forward.entries.flatMap fun entry => entry.2.map (CallEdge.mk entry.1)

/-- The number of calls. -/
def edgeCount (g : CallGraph) : Nat :=
  g.forward.size

/-- The functions that call a function, in order. -/
def upstream (g : CallGraph) (id : String) : List String :=
  g.reverse.under id

/-- The functions that a function calls, in order. -/
def downstream (g : CallGraph) (id : String) : List String :=
  g.forward.under id

/-- The number of functions that call a function. -/
def fanIn (g : CallGraph) (id : String) : Nat :=
  (g.upstream id).length

/-- The number of functions that a function calls. -/
def fanOut (g : CallGraph) (id : String) : Nat :=
  (g.downstream id).length

/-- A graph with the functions of some more definitions, unless two definitions of one
function disagree. Each definition is compared with the first one of its function; the
second argument holds the first ones that have been met, newest first. -/
def declare (g : CallGraph) (firsts : List DefinitionSite) :
    List DefinitionSite → Except Conflict CallGraph
  | [] => .ok g
  | s :: rest =>
    match firsts.find? fun t => t.id = s.id with
    | none => declare (g.addNode s.id) (s :: firsts) rest
    | some first =>
      if first.signature = s.signature then declare g firsts rest
      else .error ⟨s.id, first.signature, s.signature⟩

/-- A graph with one more call, if both ends are nodes. -/
def connect (g : CallGraph) (e : CallEdge) : CallGraph :=
  if g.contains e.caller && g.contains e.callee then g.addEdge e else g

/-- **The graph of some definitions and the calls between them**, or two definitions of one
function that disagree. -/
def build (sites : List DefinitionSite) (calls : List CallEdge) : Except Conflict CallGraph :=
  (empty.declare [] sites).map fun g => calls.foldl connect g

end CallGraph

end Dossier
