import Mathlib

/-!
# Easing towards a target

With every step a value covers a fixed part of the way to its target, and when it is near it
jumps there.  The way that is left shrinks like a geometric sequence, which never ends but gets
shorter than any distance, so it is the jump that makes the value arrive (`exists_arrival`).
-/

namespace Easing

variable {K : Type*} [Field K] [LinearOrder K]

/-- One step.  A value is near if it is not farther than `near` from the target. -/
def ease (rate near target x : K) : K :=
  if near < |x - target| then x + (target - x) * rate else target

variable {rate near target x : K}

/-! ## One step -/

/-- From far away a part of the way is left. -/
theorem ease_sub_of_far (h : near < |x - target|) :
    ease rate near target x - target = (1 - rate) * (x - target) := by
  rw [ease, if_pos h]
  ring

theorem ease_of_near (h : |x - target| ≤ near) : ease rate near target x = target :=
  if_neg (not_lt.mpr h)

variable [IsStrictOrderedRing K]

/-- At the target a value stays. -/
theorem ease_self (hnear : 0 ≤ near) : ease rate near target target = target := by
  refine ease_of_near ?_
  rwa [sub_self, abs_zero]

/-- A step does not lead past the target. -/
theorem ease_mem_uIcc (hrate : 0 ≤ rate) (hone : rate ≤ 1) :
    ease rate near target x ∈ Set.uIcc x target := by
  rcases lt_or_ge near |x - target| with hfar | hnear
  · have hstep : ease rate near target x = (1 - rate) • x + rate • target := by
      rw [ease, if_pos hfar, smul_eq_mul, smul_eq_mul]
      ring
    rw [hstep, ← segment_eq_uIcc]
    exact ⟨1 - rate, rate, sub_nonneg.mpr hone, hrate, sub_add_cancel 1 rate, rfl⟩
  · rw [ease_of_near hnear]
    exact Set.right_mem_uIcc

/-- A step leaves at most its part of the way. -/
theorem abs_ease_sub_le (hone : rate ≤ 1) :
    |ease rate near target x - target| ≤ (1 - rate) * |x - target| := by
  have hleft : 0 ≤ 1 - rate := sub_nonneg.mpr hone
  rcases lt_or_ge near |x - target| with hfar | hnear
  · rw [ease_sub_of_far hfar, abs_mul, abs_of_nonneg hleft]
  · rw [ease_of_near hnear, sub_self, abs_zero]
    exact mul_nonneg hleft (abs_nonneg _)

/-- A value that is not at its target comes closer. -/
theorem abs_ease_sub_lt (hrate : 0 < rate) (hone : rate ≤ 1) (hne : x ≠ target) :
    |ease rate near target x - target| < |x - target| := by
  have hpos : 0 < |x - target| := abs_pos.mpr (sub_ne_zero.mpr hne)
  calc |ease rate near target x - target| ≤ (1 - rate) * |x - target| := abs_ease_sub_le hone
    _ < 1 * |x - target| := mul_lt_mul_of_pos_right (sub_lt_self 1 hrate) hpos
    _ = |x - target| := one_mul _

/-! ## Arrival -/

/-- The way that is left after some steps. -/
theorem abs_iterate_sub_le (hone : rate ≤ 1) (k : ℕ) :
    |(ease rate near target)^[k] x - target| ≤ (1 - rate) ^ k * |x - target| := by
  induction k with
  | zero => rw [Function.iterate_zero_apply, pow_zero, one_mul]
  | succ k ih =>
      have hleft : 0 ≤ 1 - rate := sub_nonneg.mpr hone
      rw [Function.iterate_succ_apply', pow_succ', mul_assoc]
      exact (abs_ease_sub_le hone).trans (mul_le_mul_of_nonneg_left ih hleft)

variable [Archimedean K]

/-- After finitely many steps the value is near, and then it jumps. -/
theorem exists_iterate_eq (hrate : 0 < rate) (hone : rate ≤ 1) (hnear : 0 < near) :
    ∃ k, (ease rate near target)^[k] x = target := by
  have hleft : 0 ≤ 1 - rate := sub_nonneg.mpr hone
  have hway : 0 < |x - target| + 1 := add_pos_of_nonneg_of_pos (abs_nonneg _) one_pos
  obtain ⟨k, hk⟩ := exists_pow_lt_of_lt_one (div_pos hnear hway) (sub_lt_self 1 hrate)
  refine ⟨k + 1, ?_⟩
  rw [Function.iterate_succ_apply']
  refine ease_of_near ?_
  calc |(ease rate near target)^[k] x - target| ≤ (1 - rate) ^ k * |x - target| :=
        abs_iterate_sub_le hone k
    _ ≤ (1 - rate) ^ k * (|x - target| + 1) :=
        mul_le_mul_of_nonneg_left (le_add_of_nonneg_right zero_le_one) (pow_nonneg hleft k)
    _ ≤ near := ((lt_div_iff₀ hway).mp hk).le

/-- There is a number of steps from which on the value is at its target, and before which it is
not. -/
theorem exists_arrival (hrate : 0 < rate) (hone : rate ≤ 1) (hnear : 0 < near) (target x : K) :
    ∃ n, ∀ k, (ease rate near target)^[k] x = target ↔ n ≤ k := by
  classical
  have harrives : ∃ k, (ease rate near target)^[k] x = target :=
    exists_iterate_eq hrate hone hnear
  refine ⟨Nat.find harrives, fun k => ⟨fun h => Nat.find_min' harrives h, fun h => ?_⟩⟩
  obtain ⟨m, rfl⟩ := Nat.exists_eq_add_of_le' h
  rw [Function.iterate_add_apply, Nat.find_spec harrives]
  exact Function.iterate_fixed (ease_self hnear.le) m

end Easing
