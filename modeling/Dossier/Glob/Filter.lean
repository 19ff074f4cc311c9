import Dossier.Glob.Match
import Dossier.Source.Path

/-!
# Filters of paths

Which files of a repository take part in an analysis. A filter has patterns that shut a
path out and may have patterns of which a path has to match one; shutting out is looked at
first. Where no pattern is given that shuts out, the directories of dependencies and of
built files are shut out.
-/

namespace Dossier

open Glob (Pattern)

/-- Patterns that choose among paths. -/
structure PathFilter where
  /-- The patterns of which a path has to match one, if there are any. -/
  required : Option (List Pattern)
  /-- The patterns that shut a path out. -/
  excluded : List Pattern
deriving Repr, Inhabited

namespace PathFilter

/-- The patterns that shut out where no other ones do. -/
def standardExclusions : List String :=
  ["**/node_modules/**", "**/target/**", "**/vendor/**", "**/dist/**", "**/build/**", "**/.git/**"]

/-- The patterns that shut out, with those that hold where none is given. -/
def exclusions (given : List String) : List String :=
  if given.isEmpty then standardExclusions else given

/-- The filter of patterns, if all of them can be read. -/
def ofPatterns? (required excluded : List String) : Option PathFilter := do
  let required ← required.mapM Pattern.parse?
  let excluded ← (exclusions excluded).mapM Pattern.parse?
  return ⟨if required.isEmpty then none else some required, excluded⟩

/-- The filter that holds where no pattern is given. -/
def standard : PathFilter :=
  ⟨none, standardExclusions.filterMap Pattern.parse?⟩

/-- Whether one of some patterns matches a path. -/
def matchesAny (patterns : List Pattern) (path : String) : Bool :=
  patterns.any fun p => p.matches path

/-- **Whether a filter lets a path through.** -/
def accepts (f : PathFilter) (path : String) : Bool :=
  let path := Path.toSlashes path
  if matchesAny f.excluded path then false
  else
    match f.required with
    | none => true
    | some patterns => matchesAny patterns path

end PathFilter

end Dossier
