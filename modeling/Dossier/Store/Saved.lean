import Dossier.Store.Rows
import Dossier.Text.Blank

/-!
# Saved tables

A table as the text of a file: a line that says what the file is, then a line for every
row with its record. Records as JSON have no line breaks, so a row is one line.
-/

namespace Dossier.Table

/-- The first line of a saved table. -/
def header : String := "intelligence 1"

/-- **A table as a text.** -/
def save (t : Table) : String :=
  String.join ((header :: t.rows.map Row.record).map fun line => line ++ "\n")

/-- **The table in a text**, if it is one. -/
def load? (text : String) : Option Table :=
  match Text.linesOf text with
  | [] => none
  | first :: lines =>
    if first = header then do
      let records ← lines.mapM fun line => do Record.ofJson? (← Json.parse? line)
      return records.foldl put empty
    else none

end Dossier.Table
