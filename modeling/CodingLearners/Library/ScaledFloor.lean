import Mathlib.Data.Nat.Basic
import Mathlib.Order.Monotone.Defs

/-!
# Scaling a range by multiplication and floor division

The numbers `0, …, range` are mapped to `0, …, scale` by `v * scale / range`.
The map is monotone, keeps both ends, and reaches every number of the smaller
range.
-/

namespace ScaledFloor

def scaled (scale range v : Nat) : Nat := v * scale / range

variable {scale range v : Nat}

theorem scaled_monotone (scale range : Nat) : Monotone (scaled scale range) := by
  intro v w h
  exact Nat.div_le_div_right (Nat.mul_le_mul_right scale h)

theorem scaled_le (h : v ≤ range) : scaled scale range v ≤ scale := by
  apply Nat.div_le_of_le_mul
  exact Nat.mul_le_mul_right scale h

/-- A map to a range that is not larger leaves no number out. -/
theorem scaled_surjective (hle : scale ≤ range) {k : Nat} (hk : k ≤ scale) :
    ∃ v ≤ range, scaled scale range v = k := by
  cases scale with
  | zero =>
      refine ⟨0, Nat.zero_le _, ?_⟩
      rw [Nat.le_zero.mp hk, scaled, Nat.zero_mul, Nat.zero_div]
  | succ top =>
      -- the least number whose product reaches `k` times the range
      have hdivision := Nat.div_add_mod (k * range + top) (top + 1)
      have hrest : (k * range + top) % (top + 1) < top + 1 := Nat.mod_lt _ (Nat.succ_pos top)
      generalize (k * range + top) / (top + 1) = v at hdivision
      rw [Nat.mul_comm] at hdivision
      refine ⟨v, ?_, ?_⟩
      · have hproduct : k * range ≤ range * (top + 1) := by
          rw [Nat.mul_comm]
          exact Nat.mul_le_mul_left range hk
        have hlt : v * (top + 1) < (range + 1) * (top + 1) := by
          rw [Nat.succ_mul range]
          omega
        exact Nat.le_of_lt_succ (Nat.lt_of_mul_lt_mul_right hlt)
      · apply Nat.div_eq_of_lt_le
        · omega
        · rw [Nat.succ_mul k]
          omega

end ScaledFloor
