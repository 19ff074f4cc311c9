import Dossier.Decimal.Binary
import Dossier.Stability.Score
import Mathlib.Algebra.Order.Field.Basic
import Mathlib.Algebra.Order.Ring.Rat
import Mathlib.Algebra.Field.Rat
import Mathlib.Tactic.GCongr
import Mathlib.Tactic.Linarith
import Mathlib.Tactic.NormNum

/-!
# The laws of scoring

The laws of scoring are those of exact arithmetic. The definitions of
`Dossier.Stability` leave the arithmetic open, so they are taken here over the rational numbers.
That leaves one choice: a weight such as `0.3` can be read as three tenths, or as the double that is
stored for it (`Dossier.Stability.Reading`). The laws do not depend on it, since the stored weights
sum up to one, too (`Dossier.Stability.Reading.weights`).

* Every figure is on the scale between zero and one, and so is their sum, which therefore is the
  score (`Dossier.Stability.Reading.score_eq`).
* Greater figures do not have a lower score, nor less risk.
* The score is one only if each figure reaches the upper end of its range, and no range is without
  extent.

`Dossier.Stability.Reading.scoring_laws` has them all. Nothing is asked of the ranges: their ends
may be negative, equal or the wrong way round.
-/

namespace Dossier

/-- The number that a double stands for; what is no number stands for zero. -/
def Decimal.Double.value : Decimal.Double → ℚ
  | finite b => (if b.negative then -1 else 1) * b.mantissa * 2 ^ b.exponent
  | nan | infinite _ => 0

/-- The figures of a breakdown. -/
def Breakdown.parts {α : Type} (b : Breakdown α) : List α :=
  [b.complexity, b.modifications, b.callSites, b.codeLines]

namespace Stability

/-- **How the numerals among the weights and thresholds are read.** -/
inductive Reading where
  /-- As the decimal fraction that is written. -/
  | written
  /-- As the double that is nearest to it. -/
  | stored

namespace Reading

/-- The number that a numeral is read as. -/
def numeral (r : Reading) (mantissa : Nat) (isFraction : Bool) (places : Nat) : ℚ :=
  match r with
  | written => OfScientific.ofScientific mantissa isFraction places
  | stored => (Decimal.Double.ofFloat (OfScientific.ofScientific mantissa isFraction places)).value

/-- **Exact arithmetic.** -/
@[reducible] def arithmetic (r : Reading) : Arithmetic ℚ where
  toAdd := inferInstance
  toSub := inferInstance
  toMul := inferInstance
  toDiv := inferInstance
  toLT := inferInstance
  toLE := inferInstance
  toBEq := inferInstance
  toOfScientific := ⟨r.numeral⟩
  ofCount n := n
  decidableLT := inferInstance
  decidableLE := inferInstance

variable (r : Reading)

/-- A value on the scale of a range, exactly. -/
def normalize (range : MetricRange ℚ) (value : ℚ) : ℚ :=
  @Stability.normalize ℚ r.arithmetic range value

/-- The figures that count, each on the scale of its range, exactly. -/
def breakdown (ranges : Ranges ℚ) (m : Metrics) : Breakdown ℚ :=
  @Stability.breakdown ℚ r.arithmetic ranges m

/-- The weighted sum, exactly. -/
def weightedSum (b : Breakdown ℚ) : ℚ :=
  @Stability.weightedSum ℚ r.arithmetic b

/-- The score of a function, exactly. -/
def score (ranges : Ranges ℚ) (m : Metrics) : ℚ :=
  @Stability.score ℚ r.arithmetic ranges m

/-- The risk of a score, with exact thresholds. -/
def risk (score : ℚ) : Risk :=
  @Stability.risk ℚ r.arithmetic score

/-! ### Weights and thresholds -/

/-- What complexity and modifications count. -/
def heavy : ℚ :=
  r.numeral 3 true 1

/-- What callers and lines count. -/
def light : ℚ :=
  r.numeral 2 true 1

theorem stored_heavy : stored.heavy = 5404319552844595 / 2 ^ 54 := by
  have hbits : Decimal.Double.ofFloat (0.3 : Float) = .finite ⟨false, 5404319552844595, -54⟩ := by
    decide +kernel
  have hvalue : stored.heavy = (Decimal.Double.ofFloat (0.3 : Float)).value := rfl
  rw [hvalue, hbits]
  norm_num [Decimal.Double.value]

theorem stored_light : stored.light = 7205759403792794 / 2 ^ 55 := by
  have hbits : Decimal.Double.ofFloat (0.2 : Float) = .finite ⟨false, 7205759403792794, -55⟩ := by
    decide +kernel
  have hvalue : stored.light = (Decimal.Double.ofFloat (0.2 : Float)).value := rfl
  rw [hvalue, hbits]
  norm_num [Decimal.Double.value]

/-- **The weights are positive and sum up to one**, also as they are stored. -/
theorem weights : 0 < r.heavy ∧ 0 < r.light ∧ r.heavy + r.heavy + r.light + r.light = 1 := by
  cases r with
  | written => norm_num [heavy, light, numeral]
  | stored => norm_num [stored_heavy, stored_light]

/-- The thresholds are in order, also as they are stored. -/
theorem thresholds : r.numeral 4 true 1 ≤ r.numeral 7 true 1 := by
  cases r with
  | written => norm_num [numeral]
  | stored =>
    have hlow : Decimal.Double.ofFloat (0.4 : Float) = .finite ⟨false, 7205759403792794, -54⟩ := by
      decide +kernel
    have hhigh : Decimal.Double.ofFloat (0.7 : Float) = .finite ⟨false, 6305039478318694, -53⟩ := by
      decide +kernel
    show (Decimal.Double.ofFloat (0.4 : Float)).value ≤ (Decimal.Double.ofFloat (0.7 : Float)).value
    rw [hlow, hhigh]
    norm_num [Decimal.Double.value]

/-! ### Figures on their scales -/

variable {r} {range : MetricRange ℚ} {ranges : Ranges ℚ} {value value' : ℚ} {m m' : Metrics}

theorem clamp_eq (x : ℚ) : @clamp ℚ r.arithmetic x = max 0 (min x 1) := by
  have hleast : @least ℚ r.arithmetic = 0 := Nat.cast_zero
  have hgreatest : @greatest ℚ r.arithmetic = 1 := Nat.cast_one
  unfold clamp
  rw [hleast, hgreatest]
  split
  · next h => exact (max_eq_left ((min_le_left x 1).trans h.le)).symm
  · next h =>
    have hx : 0 ≤ x := not_lt.mp h
    split
    · next h1 => rw [min_eq_right h1.le, max_eq_right zero_le_one]
    · next h1 => rw [min_eq_left (not_lt.mp h1), max_eq_right hx]

theorem normalize_of_le (h : range.max ≤ range.min) : r.normalize range value = 0 :=
  (if_pos h).trans Nat.cast_zero

theorem normalize_of_lt (h : range.min < range.max) :
    r.normalize range value = max 0 (min ((value - range.min) / (range.max - range.min)) 1) :=
  (if_neg h.not_ge).trans (clamp_eq _)

/-- **A figure is on the scale between zero and one.** -/
theorem normalize_mem_Icc (range : MetricRange ℚ) (value : ℚ) :
    r.normalize range value ∈ Set.Icc 0 1 := by
  rcases le_or_gt range.max range.min with h | h
  · rw [normalize_of_le h]
    exact ⟨le_rfl, zero_le_one⟩
  · rw [normalize_of_lt h]
    exact ⟨le_max_left _ _, max_le zero_le_one (min_le_right _ _)⟩

/-- **A greater figure is not lower on its scale.** -/
theorem normalize_mono (h : value ≤ value') :
    r.normalize range value ≤ r.normalize range value' := by
  rcases le_or_gt range.max range.min with hrange | hrange
  · rw [normalize_of_le hrange, normalize_of_le hrange]
  · have hextent : 0 ≤ range.max - range.min := (sub_pos.mpr hrange).le
    rw [normalize_of_lt hrange, normalize_of_lt hrange]
    gcongr

/-- **Which figures are at the upper end of their scale.** -/
theorem normalize_eq_one_iff :
    r.normalize range value = 1 ↔ range.min < range.max ∧ range.max ≤ value := by
  rcases le_or_gt range.max range.min with h | h
  · rw [normalize_of_le h]
    exact iff_of_false zero_ne_one fun hreach => absurd hreach.1 h.not_gt
  · have hextent : 0 < range.max - range.min := sub_pos.mpr h
    rw [normalize_of_lt h, max_eq_iff, and_iff_right h]
    constructor
    · rintro (⟨hzero, -⟩ | ⟨hone, -⟩)
      · exact absurd hzero zero_ne_one
      · have hquotient := (min_eq_right_iff.mp hone)
        rw [le_div_iff₀ hextent, one_mul] at hquotient
        linarith
    · intro hreach
      have hquotient : 1 ≤ (value - range.min) / (range.max - range.min) := by
        rw [le_div_iff₀ hextent, one_mul]
        linarith
      rw [min_eq_right hquotient]
      exact .inr ⟨rfl, zero_le_one⟩

/-! ### Scores -/

theorem weightedSum_eq (b : Breakdown ℚ) :
    r.weightedSum b =
      r.heavy * b.complexity + r.heavy * b.modifications + r.light * b.callSites +
        r.light * b.codeLines :=
  rfl

theorem parts_breakdown_mem_Icc :
    ∀ x ∈ (r.breakdown ranges m).parts, x ∈ Set.Icc (0 : ℚ) 1 := by
  simp only [Breakdown.parts, List.forall_mem_cons]
  exact ⟨normalize_mem_Icc _ _, normalize_mem_Icc _ _, normalize_mem_Icc _ _,
    normalize_mem_Icc _ _, fun _ h => absurd h List.not_mem_nil⟩

/-- **A weighted mean** of numbers between zero and one is one. -/
theorem weightedSum_mem_Icc {b : Breakdown ℚ} (h : ∀ x ∈ b.parts, x ∈ Set.Icc (0 : ℚ) 1) :
    r.weightedSum b ∈ Set.Icc 0 1 := by
  obtain ⟨hheavy, hlight, hsum⟩ := r.weights
  simp only [Breakdown.parts, List.forall_mem_cons] at h
  obtain ⟨⟨hc, hc1⟩, ⟨hm, hm1⟩, ⟨hs, hs1⟩, ⟨hl, hl1⟩, -⟩ := h
  rw [weightedSum_eq]
  refine ⟨by positivity, ?_⟩
  calc r.heavy * b.complexity + r.heavy * b.modifications + r.light * b.callSites +
        r.light * b.codeLines
      ≤ r.heavy * 1 + r.heavy * 1 + r.light * 1 + r.light * 1 := by gcongr
    _ = 1 := by simpa only [mul_one] using hsum

/-- A weighted mean is one only if all the numbers are. -/
theorem weightedSum_eq_one_iff {b : Breakdown ℚ} (h : ∀ x ∈ b.parts, x ∈ Set.Icc (0 : ℚ) 1) :
    r.weightedSum b = 1 ↔
      b.complexity = 1 ∧ b.modifications = 1 ∧ b.callSites = 1 ∧ b.codeLines = 1 := by
  obtain ⟨hheavy, hlight, hsum⟩ := r.weights
  simp only [Breakdown.parts, List.forall_mem_cons] at h
  obtain ⟨⟨-, hc⟩, ⟨-, hm⟩, ⟨-, hs⟩, ⟨-, hl⟩, -⟩ := h
  rw [weightedSum_eq]
  constructor
  · intro hone
    -- What is missing of one in a part is missing in the sum.
    have hmissing : r.heavy * (1 - b.complexity) + r.heavy * (1 - b.modifications) +
        r.light * (1 - b.callSites) + r.light * (1 - b.codeLines) = 0 := by linarith
    have hc' : 0 ≤ r.heavy * (1 - b.complexity) := mul_nonneg hheavy.le (sub_nonneg.mpr hc)
    have hm' : 0 ≤ r.heavy * (1 - b.modifications) := mul_nonneg hheavy.le (sub_nonneg.mpr hm)
    have hs' : 0 ≤ r.light * (1 - b.callSites) := mul_nonneg hlight.le (sub_nonneg.mpr hs)
    have hl' : 0 ≤ r.light * (1 - b.codeLines) := mul_nonneg hlight.le (sub_nonneg.mpr hl)
    have hnone : ∀ {weight x : ℚ}, 0 < weight → weight * (1 - x) = 0 → x = 1 := by
      intro weight x hweight hx
      have := (mul_eq_zero_iff_left hweight.ne').mp hx
      linarith
    exact ⟨hnone hheavy (by linarith), hnone hheavy (by linarith), hnone hlight (by linarith),
      hnone hlight (by linarith)⟩
  · rintro ⟨hc, hm, hs, hl⟩
    rw [hc, hm, hs, hl]
    linarith

/-- **The score is the weighted sum**: nothing is ever cut off. -/
theorem score_eq : r.score ranges m = r.weightedSum (r.breakdown ranges m) := by
  have hparts : ∀ x ∈ (r.breakdown ranges m).parts, x ∈ Set.Icc (0 : ℚ) 1 :=
    parts_breakdown_mem_Icc
  obtain ⟨hnonneg, hle⟩ := weightedSum_mem_Icc (r := r) hparts
  have hclamp : r.score ranges m = @clamp ℚ r.arithmetic (r.weightedSum (r.breakdown ranges m)) :=
    if_pos (beq_self_eq_true _)
  rw [hclamp, clamp_eq, min_eq_left hle, max_eq_right hnonneg]

end Reading

end Stability

/-- How far up a class of risk is. -/
def Risk.rank : Risk → Nat
  | stable => 0
  | moderate => 1
  | high => 2

/-- **Whether no figure that counts is greater** than another function's. -/
structure Metrics.AtMost (m m' : Metrics) : Prop where
  complexity : m.complexity ≤ m'.complexity
  modifications : m.modifications ≤ m'.modifications
  callSites : m.callSites ≤ m'.callSites
  codeLines : m.codeLines ≤ m'.codeLines

/-- Whether a range has an extent and a figure reaches its upper end. -/
def MetricRange.IsFilled (range : MetricRange ℚ) (n : Nat) : Prop :=
  range.min < range.max ∧ range.max ≤ n

namespace Stability.Reading

variable {r : Reading} {ranges : Ranges ℚ} {m m' : Metrics} {x y : ℚ}

/-- A higher score has no less risk. -/
theorem rank_risk_mono (h : x ≤ y) : (r.risk x).rank ≤ (r.risk y).rank := by
  have hrisk : ∀ z, r.risk z =
      if z < r.numeral 4 true 1 then .stable
      else if z < r.numeral 7 true 1 then .moderate else .high := fun _ => rfl
  have hthresholds := r.thresholds
  rw [hrisk, hrisk]
  by_cases hlow : y < r.numeral 4 true 1
  · rw [if_pos (h.trans_lt hlow), if_pos hlow]
  rw [if_neg hlow]
  by_cases hhigh : y < r.numeral 7 true 1
  · rw [if_pos (h.trans_lt hhigh), if_pos hhigh]
    split <;> decide
  · rw [if_neg hhigh]
    split
    · decide
    · split <;> decide

theorem score_mono (h : m.AtMost m') : r.score ranges m ≤ r.score ranges m' := by
  obtain ⟨hheavy, hlight, -⟩ := r.weights
  have hpart : ∀ (range : MetricRange ℚ) {n n' : Nat}, n ≤ n' →
      r.normalize range n ≤ r.normalize range n' := fun _ _ _ hn =>
    normalize_mono (Nat.cast_le.mpr hn)
  have hcomplexity := hpart ranges.complexity h.complexity
  have hmodifications := hpart ranges.modifications h.modifications
  have hcallSites := hpart ranges.callSites h.callSites
  have hcodeLines := hpart ranges.codeLines h.codeLines
  rw [score_eq, score_eq, weightedSum_eq, weightedSum_eq]
  dsimp only [breakdown, Stability.breakdown]
  gcongr <;> assumption

theorem score_eq_one_iff :
    r.score ranges m = 1 ↔
      ranges.complexity.IsFilled m.complexity ∧ ranges.modifications.IsFilled m.modifications ∧
        ranges.callSites.IsFilled m.callSites ∧ ranges.codeLines.IsFilled m.codeLines := by
  rw [score_eq, weightedSum_eq_one_iff parts_breakdown_mem_Icc]
  exact and_congr normalize_eq_one_iff (and_congr normalize_eq_one_iff
    (and_congr normalize_eq_one_iff normalize_eq_one_iff))

/-- **The laws of scoring.** Whatever the ranges are, each figure that counts and the sum of all are
between zero and one; a function none of whose figures is greater than another's has no higher score
and no greater risk; and the score is one exactly if no range is without extent and each figure
reaches the upper end of its own. -/
theorem scoring_laws (r : Reading) (ranges : Ranges ℚ) (m : Metrics) :
    (∀ x ∈ (r.breakdown ranges m).parts, x ∈ Set.Icc (0 : ℚ) 1) ∧
      r.weightedSum (r.breakdown ranges m) ∈ Set.Icc (0 : ℚ) 1 ∧
      (∀ m', m.AtMost m' → r.score ranges m ≤ r.score ranges m' ∧
        (r.risk (r.score ranges m)).rank ≤ (r.risk (r.score ranges m')).rank) ∧
      (r.score ranges m = 1 ↔
        ranges.complexity.IsFilled m.complexity ∧ ranges.modifications.IsFilled m.modifications ∧
          ranges.callSites.IsFilled m.callSites ∧ ranges.codeLines.IsFilled m.codeLines) :=
  ⟨parts_breakdown_mem_Icc, weightedSum_mem_Icc parts_breakdown_mem_Icc,
    fun _ h => ⟨score_mono h, rank_risk_mono (score_mono h)⟩, score_eq_one_iff⟩

/-- Ranges of which one is the wrong way round and one is without extent. -/
def sampleRanges : Ranges ℚ where
  complexity := ⟨1, 50⟩
  modifications := ⟨100, 0⟩
  callSites := ⟨-5, 20⟩
  codeLines := ⟨7, 7⟩

/-- More changes and more lines of code count for nothing in such ranges, but a function that is
more complex has the higher score. -/
theorem scoring_laws_sample :
    Metrics.AtMost ⟨10, 40, 2, 3, 4⟩ ⟨60, 900, 2, 8, 25⟩ ∧
      stored.score sampleRanges ⟨10, 40, 2, 3, 4⟩ ≤ stored.score sampleRanges ⟨60, 900, 2, 8, 25⟩ ∧
      stored.score sampleRanges ⟨60, 900, 2, 8, 25⟩ ≠ 1 := by
  have hatMost : Metrics.AtMost ⟨10, 40, 2, 3, 4⟩ ⟨60, 900, 2, 8, 25⟩ := by
    constructor <;> decide
  refine ⟨hatMost, ((scoring_laws _ _ _).2.2.1 _ hatMost).1, fun hone => ?_⟩
  have hfilled := (scoring_laws _ _ _).2.2.2.mp hone
  exact lt_irrefl _ hfilled.2.2.2.1

end Stability.Reading

end Dossier
