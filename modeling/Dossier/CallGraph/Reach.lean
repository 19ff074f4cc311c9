import Dossier.CallGraph.Basic

/-!
# Reach in a call graph

How far functions are from a target, when calls may be followed in both directions. The
search keeps a queue of functions whose neighbours have not been looked at. In each turn the
first of them is taken out, and those of its neighbours that have not been found before are
noted one step farther away and put into the queue at its end. A function is put into the
queue only once, and so there are at most as many turns as nodes.

The functions that are found, without the target, are the ones a change of the target can
reach; together with the calls among them they are the neighbourhood that is stored with
an analysis.
-/

namespace Dossier.CallGraph

/-- A search of a call graph that is under way. -/
structure Search where
  /-- The functions found so far with their distances, in the order in which they were found. -/
  found : List (String × Nat)
  /-- The functions whose neighbours have not been looked at. -/
  queue : List String
deriving DecidableEq, Repr, Inhabited

namespace Search

/-- The search from a function before its first turn. -/
def start (target : String) : Search :=
  ⟨[(target, 0)], [target]⟩

/-- A search that has come upon a function at some distance. -/
def note (distance : Nat) (s : Search) (id : String) : Search :=
  if s.found.any fun f => f.1 = id then s
  else ⟨s.found ++ [(id, distance)], s.queue ++ [id]⟩

end Search

/-- The functions that a function calls, and those that call it. -/
def neighbours (g : CallGraph) (id : String) : List String :=
  g.downstream id ++ g.upstream id

/-- One turn of a search: the neighbours of the first function in the queue. -/
def turn (g : CallGraph) (s : Search) : Search :=
  match s.queue with
  | [] => s
  | id :: rest =>
    let hops := (s.found.lookup id).getD 0
    (g.neighbours id).foldl (Search.note (hops + 1)) { s with queue := rest }

/-- The search from a function after some turns. -/
def search (g : CallGraph) (target : String) : Nat → Search
  | 0 => .start target
  | turns + 1 => g.turn (g.search target turns)

/-- **The distance of every function connected with the target**, in the order of the
functions; none if the target is no node. -/
def distances (g : CallGraph) (target : String) : List (String × Nat) :=
  if g.contains target then
    Order.sort (fun a b => a.1 ≤ b.1) (g.search target g.nodes.length).found
  else []

/-- The functions connected with the target, in order, the target among them. -/
def component (g : CallGraph) (target : String) : List String :=
  (g.distances target).map Prod.fst

/-- **The functions that a change of the target can reach**, in order. -/
def impact (g : CallGraph) (target : String) : List String :=
  (g.component target).filter fun id => id ≠ target

/-- A target with the functions connected with it and the calls among them. -/
structure Neighbourhood where
  target : String
  nodes : List String
  edges : List CallEdge
deriving DecidableEq, Repr, Inhabited

/-- The neighbourhood of a target. -/
def neighbourhood (g : CallGraph) (target : String) : Neighbourhood :=
  let members := g.component target
  ⟨target, members,
    members.flatMap fun caller =>
      ((g.downstream caller).filter fun callee => members.contains callee).map (CallEdge.mk caller)⟩

/-- Stands for the distance of a function that was not found. -/
def beyond : Nat :=
  UInt64.size - 1

/-- The distance of a call: that of its farther end. -/
def edgeDistance (ds : List (String × Nat)) (e : CallEdge) : Nat :=
  max ((ds.lookup e.caller).getD beyond) ((ds.lookup e.callee).getD beyond)

/-- **The calls of the neighbourhood that do not touch the target**, nearer ones first. -/
def indirectEdges (g : CallGraph) (target : String) : List CallEdge :=
  let ds := g.distances target
  Order.sort (fun a b => edgeDistance ds a ≤ edgeDistance ds b)
    ((g.neighbourhood target).edges.filter fun e => e.caller ≠ target && e.callee ≠ target)

end Dossier.CallGraph
