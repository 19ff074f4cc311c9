import Dossier.Text.Blank

/-!
# Qualified names

The name of a function may be qualified by the names of what it belongs to. Points and
colons stand between the segments of a name, whatever the language.
-/

namespace Dossier.QualifiedName

/-- Whether a character stands between segments. -/
def isSeparator (c : Char) : Bool :=
  c == '.' || c == ':'

/-- **The last segment of a name**, passing over empty ones; a name without any is its own
last segment. -/
def last (name : String) : String :=
  match ((Text.splitAt isSeparator name.toList).filter (!·.isEmpty)).getLast? with
  | some segment => String.ofList segment
  | none => name

end Dossier.QualifiedName
