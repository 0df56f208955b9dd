import Mathlib.Algebra.BigOperators.Intervals
import Mathlib.Algebra.Order.Group.Defs
import Mathlib.Algebra.Order.Group.Unbundled.Basic
import Mathlib.Tactic.Abel

/-! A reservoir that starts full, is drawn from at every step and is refilled, up
to its capacity, before the next. What it holds is determined by the windows that
end at the step. -/

namespace Reservoir

variable {K : Type} [AddCommGroup K] [LinearOrder K] [IsOrderedAddMonoid K]

/-- `inflow` is cumulative, `drawn` is per step and `level` is what a step finds. -/
structure Refilled (cap : K) (inflow drawn level : ℕ → K) : Prop where
  full : level 0 = cap
  refill : ∀ k, level (k + 1) = min cap (level k - drawn k + (inflow (k + 1) - inflow k))

namespace Refilled

variable {cap : K} {inflow drawn level : ℕ → K} (h : Refilled cap inflow drawn level)
include h

/-- The level is the least room that any window up to the step leaves. -/
theorem le_level_iff {x : K} {k : ℕ} :
    x ≤ level k ↔ ∀ i ≤ k, x + ∑ j ∈ Finset.Ico i k, drawn j ≤ cap + (inflow k - inflow i) := by
  induction k generalizing x with
  | zero => simp [h.full]
  | succ k ih =>
    have hshift : x ≤ level k - drawn k + (inflow (k + 1) - inflow k) ↔
        x - (inflow (k + 1) - inflow k) + drawn k ≤ level k := by
      rw [← sub_le_iff_le_add, le_sub_iff_add_le]
    have hwindow :
        ∀ i ≤ k, (x - (inflow (k + 1) - inflow k) + drawn k + ∑ j ∈ Finset.Ico i k, drawn j ≤
        cap + (inflow k - inflow i) ↔ x + ∑ j ∈ Finset.Ico i (k + 1), drawn j ≤ cap +
        (inflow (k + 1) - inflow i)) := by
      intro i hi
      rw [Finset.sum_Ico_succ_top hi, ← sub_nonneg, ← sub_nonneg (b := x + _)]
      have heq : cap + (inflow k - inflow i) -
          (x - (inflow (k + 1) - inflow k) + drawn k + ∑ j ∈ Finset.Ico i k, drawn j) =
            cap + (inflow (k + 1) - inflow i) - (x + (∑ j ∈ Finset.Ico i k, drawn j + drawn k)) :=
              by abel
      rw [heq]
    rw [h.refill, le_min_iff, hshift, ih]
    constructor
    · rintro ⟨hcap, hearlier⟩ i hi
      by_cases hlast : i = k + 1
      · simpa [hlast] using hcap
      · have hik : i ≤ k := by omega
        exact (hwindow i hik).mp (hearlier i hik)
    · intro hall
      refine ⟨by simpa using hall (k + 1) le_rfl, ?_⟩
      intro i hi
      exact (hwindow i hi).mpr (hall i (by omega))

theorem window_le (hdrawn : ∀ k, drawn k ≤ level k) {i k : ℕ} (hik : i ≤ k) :
    ∑ j ∈ Finset.Ico i (k + 1), drawn j ≤ cap + (inflow k - inflow i) := by
  rw [Finset.sum_Ico_succ_top hik, add_comm]
  exact h.le_level_iff.mp (hdrawn k) i hik

end Refilled

end Reservoir
