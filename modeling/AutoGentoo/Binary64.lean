import Mathlib.Algebra.Order.Ring.Nat
import Mathlib.Tactic.Linarith
import Mathlib.Tactic.Ring

/-! Doubles that stand for natural numbers: rounding to the nearest one, ties to
even, and the product with a constant, truncated. -/

namespace Binary64

/-- The unit in the last of 53 places. -/
def ulp (m : Nat) : Nat := 2 ^ (m.log2 - 52)

def round (m : Nat) : Nat :=
  let q := m / ulp m
  let r := m % ulp m
  (if ulp m < 2 * r ∨ (2 * r = ulp m ∧ q % 2 = 1) then q + 1 else q) * ulp m

/-- `(U64) (size * c)` for the double `c` of value `n / 2 ^ 53`. -/
def mulTrunc (n size : Nat) : Nat := round (round size * n) / 2 ^ 53

theorem ulp_pos (m : Nat) : 0 < ulp m := by
  unfold ulp
  positivity

theorem ulp_le (m : Nat) : ulp m = 1 ∨ ulp m * 2 ^ 52 ≤ m := by
  unfold ulp
  by_cases h : m.log2 ≤ 52
  · left
    rw [Nat.sub_eq_zero_of_le h, pow_zero]
  · right
    have hm : m ≠ 0 := by
      rintro rfl
      simp at h
    rw [← pow_add, Nat.sub_add_cancel (by omega)]
    exact Nat.log2_self_le hm

theorem round_error (m : Nat) : 2 * round m ≤ 2 * m + ulp m ∧ 2 * m ≤ 2 * round m + ulp m := by
  have hdiv := Nat.div_add_mod m (ulp m)
  have hlt := Nat.mod_lt m (ulp_pos m)
  rw [mul_comm] at hdiv
  simp only [round]
  split_ifs with h
  · rw [add_mul, one_mul]
    omega
  · omega

theorem round_small {m : Nat} (h : ulp m = 1) : round m = m := by
  simp [round, h, Nat.mod_one]

/-- The relative error of one rounding. -/
theorem round_bounds (m : Nat) :
    2 ^ 53 * round m ≤ (2 ^ 53 + 1) * m ∧ (2 ^ 53 - 1) * m ≤ 2 ^ 53 * round m := by
  rcases ulp_le m with h | h
  · rw [round_small h]
    omega
  · obtain ⟨hu, hl⟩ := round_error m
    omega

end Binary64
