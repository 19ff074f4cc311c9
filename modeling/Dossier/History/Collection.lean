import Dossier.History.Issues
import Dossier.Outline.Source
import Dossier.Source.QualifiedName
import Dossier.VersionControl.Basic

/-!
# The history of a function

The commits that touched a function, oldest first. The function is looked up in the text
that its file has at the revision, and the history is that of the lines it takes there.
Where the file or the function cannot be made out, the version control is left to find
the function by the last segment of its name.
-/

namespace Dossier.History

/-- The lines of a function in a text of its file; without them, its name. -/
def rangeIn (file function : String) (source : Option String) : LineRange :=
  let byName := LineRange.function (QualifiedName.last function)
  match source, Language.ofPath? file with
  | some text, some language =>
    match Outline.ofSource language file text with
    | .error _ => byName
    | .ok outline =>
      match outline.locate function with
      | .found d => .lines d.span.startLine d.span.stopLine
      | _ => byName
  | _, _ => byName

/-- A commit with its changes and the issues that its message names. The changes are asked
for when the commit came without. -/
def complete (v : VersionControl) (file : String) (range : LineRange) (c : Commit) :
    Inquiry Commit := do
  let changes ← if c.diff.isEmpty then Inquiry.ask v (.diff c.hash file range) else pure c.diff
  return { c with diff := changes, issueIds := Issues.ofMessage c.message }

/-- **The commits that touched a function** up to a revision, oldest first. -/
def collect (v : VersionControl) (file function revision : String) : Inquiry (List Commit) := do
  Inquiry.ask v .ensureRepository
  let source ← Inquiry.ask v (.showFile revision file)
  let range := rangeIn file function source
  let commits ← Inquiry.ask v (.listCommits file range revision)
  let commits ← Inquiry.forAll (complete v file range) commits
  return Commit.sort commits

end Dossier.History
