import Dossier.CallGraph.Reach
import Dossier.Json.Basic

/-!
# Call graphs as JSON

A call is written as the pair of its two functions.
-/

namespace Dossier

/-- A call as a value. -/
def CallEdge.toJson (e : CallEdge) : Json :=
  .ofStrings [e.caller, e.callee]

/-- A neighbourhood as a value. -/
def CallGraph.Neighbourhood.toJson (n : CallGraph.Neighbourhood) : Json :=
  .object
    [("target", .string n.target), ("nodes", .ofStrings n.nodes),
      ("edges", .array (n.edges.map CallEdge.toJson))]

end Dossier
