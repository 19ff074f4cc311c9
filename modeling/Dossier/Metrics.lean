import Dossier.Outline.Basic

/-!
# Metrics

The five figures that are kept of a function. Three are read off its source: the
cyclomatic complexity, the lines of code and the parameters. Two come from around it: how
many commits touched it, and how many functions call it. Figures are kept in thirty-two
bits, and one that does not fit is cut to the greatest that does.
-/

namespace Dossier

/-- The figures kept of a function. -/
structure Metrics where
  complexity : Nat
  codeLines : Nat
  parameters : Nat
  /-- The number of commits that touched the function. -/
  modifications : Nat
  /-- The number of functions that call it. -/
  callSites : Nat
deriving DecidableEq, Repr, Inhabited

namespace Metrics

/-- The greatest figure that is kept: the greatest number of thirty-two bits. -/
def limit : Nat := UInt32.size - 1

/-- A figure as it is kept. -/
def saturate (n : Nat) : Nat :=
  min n limit

/-- **The figures of a function**, with the number of commits and of callers. -/
def ofDefinition (d : Definition) (commits callers : Nat) : Metrics where
  complexity := saturate d.complexity
  codeLines := saturate d.codeLines
  parameters := saturate d.parameters
  modifications := saturate commits
  callSites := saturate callers

/-- No function has complexity zero. -/
theorem complexity_ofDefinition_pos (d : Definition) (commits callers : Nat) :
    0 < (ofDefinition d commits callers).complexity := by
  simp only [ofDefinition, saturate, limit, UInt32.size, Definition.complexity]
  omega

end Metrics

end Dossier
