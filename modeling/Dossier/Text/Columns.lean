import Dossier.Text.Blank
import Dossier.Text.Slice

/-!
# Columns

Text set into columns. Widths are counted in characters. `pad` fills up a text on the
right, and leaves a text alone that is wide enough; `fit` also cuts one that is too wide,
with three points at the cut.
-/

namespace Dossier.Text

/-- A text filled up with spaces to a width. -/
def pad (width : Nat) (s : String) : String :=
  String.ofList (s.toList ++ List.replicate (width - s.length) ' ')

/-- A text set to a width. -/
def fit (width : Nat) (s : String) : String :=
  if width < s.length then String.ofList (s.toList.take (width - 3) ++ ['.', '.', '.'])
  else pad width s

/-- The first eight bytes of a text, or all of it if it cannot be cut there. -/
def brief (s : String) : String :=
  (slice? 0 8 s).getD s

/-- The lines of a text indented by two spaces, without blanks at their ends. -/
def paragraph (s : String) : String :=
  String.join ((lines s.toList).map fun l =>
    String.ofList (' ' :: ' ' :: dropBlankRight l ++ ['\n']))

end Dossier.Text
