import Dossier.Metrics

/-!
# Stability scores

How risky it is to change a function, as one number between zero and one. Each figure is
put on the scale of its range, where the lower end is zero and the upper end one, and
what lies outside is cut off; a range without any extent gives zero. The score is the
weighted sum of the four figures that count, and the risk is read off two thresholds, to
which the upper class belongs.

The arithmetic is a parameter. Scores are computed in doubles; the laws of scoring are
those of any ordered field.
-/

namespace Dossier

/-- The arithmetic in which scores are computed. -/
class Arithmetic (α : Type) extends
    Add α, Sub α, Mul α, Div α, LT α, LE α, BEq α, OfScientific α where
  ofCount : Nat → α
  decidableLT : ∀ a b : α, Decidable (a < b)
  decidableLE : ∀ a b : α, Decidable (a ≤ b)

instance : Arithmetic Float where
  ofCount := Float.ofNat
  decidableLT := inferInstance
  decidableLE := inferInstance

instance Arithmetic.instDecidableLT {α : Type} [Arithmetic α] (a b : α) : Decidable (a < b) :=
  Arithmetic.decidableLT a b

instance Arithmetic.instDecidableLE {α : Type} [Arithmetic α] (a b : α) : Decidable (a ≤ b) :=
  Arithmetic.decidableLE a b

/-- The values of a figure that count as least and as greatest. -/
structure MetricRange (α : Type) where
  min : α
  max : α
deriving Repr, Inhabited

/-- A range for each figure that counts. -/
structure Ranges (α : Type) where
  complexity : MetricRange α
  modifications : MetricRange α
  callSites : MetricRange α
  codeLines : MetricRange α
deriving Repr, Inhabited

/-- The figures that count, each on the scale of its range. -/
structure Breakdown (α : Type) where
  complexity : α
  modifications : α
  callSites : α
  codeLines : α
deriving Repr, Inhabited

/-- How risky a change is. -/
inductive Risk where
  | stable
  | moderate
  | high
deriving DecidableEq, Repr, Inhabited

namespace Risk

/-- All classes of risk. -/
def all : List Risk :=
  [stable, moderate, high]

/-- The name of a class of risk. -/
def name : Risk → String
  | stable => "stable"
  | moderate => "moderate_risk"
  | high => "high_risk"

end Risk

namespace Stability

variable {α : Type} [Arithmetic α]

/-- The least number on a scale. -/
def least : α := Arithmetic.ofCount 0

/-- The greatest number on a scale. -/
def greatest : α := Arithmetic.ofCount 1

/-- The number between the least and the greatest that is nearest to a number. -/
def clamp (x : α) : α :=
  if x < least then least else if greatest < x then greatest else x

/-- **A value on the scale of a range.** -/
def normalize (r : MetricRange α) (value : α) : α :=
  if r.max ≤ r.min then least else clamp ((value - r.min) / (r.max - r.min))

/-- Each figure that counts, on the scale of its range. -/
def breakdown (r : Ranges α) (m : Metrics) : Breakdown α where
  complexity := normalize r.complexity (Arithmetic.ofCount m.complexity)
  modifications := normalize r.modifications (Arithmetic.ofCount m.modifications)
  callSites := normalize r.callSites (Arithmetic.ofCount m.callSites)
  codeLines := normalize r.codeLines (Arithmetic.ofCount m.codeLines)

/-- The weighted sum: complexity and modifications count three tenths each, callers and
lines two tenths each. -/
def weightedSum (b : Breakdown α) : α :=
  0.3 * b.complexity + 0.3 * b.modifications + 0.2 * b.callSites + 0.2 * b.codeLines

/-- The score that a number stands for: the number between zero and one, and zero for what
is no number. -/
def ofNumber (x : α) : α :=
  if x == x then clamp x else least

/-- **The score of a function.** -/
def score (r : Ranges α) (m : Metrics) : α :=
  ofNumber (weightedSum (breakdown r m))

/-- **The risk of a score.** -/
def risk (score : α) : Risk :=
  if score < 0.4 then .stable else if score < 0.7 then .moderate else .high

/-- The ranges that hold where no others are given. -/
def defaultRanges : Ranges Float where
  complexity := ⟨1, 50⟩
  modifications := ⟨0, 100⟩
  callSites := ⟨0, 500⟩
  codeLines := ⟨1, 1000⟩

end Stability

end Dossier
