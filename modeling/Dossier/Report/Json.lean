import Dossier.Json.Printer
import Dossier.Record.Json

/-!
# Reports as JSON

A single record is written with its members in the order of their names and with one more
that says whether no failure was passed over. A list of records keeps the order of the
fields.
-/

namespace Dossier.Report

/-- **A record as JSON.** -/
def json (r : Record) : String :=
  (Json.object (r.members ++ [("fully_analyzed", .bool r.isFullyAnalyzed)])).sortKeys.pretty

/-- **Records as JSON.** -/
def jsonList (rs : List Record) : String :=
  (Json.array (rs.map Record.toJson)).pretty

end Dossier.Report
