import Mathlib

/-!
# Saturating sums

A level starts at a cap.  Each step adds an amount, which may be negative, and
cuts the level at the cap.  The level after `k` steps is the least of the values
`cap + x s + ... + x (k - 1)` over all `s ≤ k`: the cut that mattered last was at
step `s` (`le_level_iff`).
-/

namespace Saturating

variable {α : Type*} [AddCommGroup α] [LinearOrder α]

/-- The level after `k` steps. -/
def level (cap : α) (x : ℕ → α) : ℕ → α
  | 0 => cap
  | k + 1 => min cap (level cap x k + x k)

variable {cap : α} {x : ℕ → α}

@[simp] theorem level_zero : level cap x 0 = cap := rfl

theorem level_succ (k : ℕ) : level cap x (k + 1) = min cap (level cap x k + x k) := rfl

theorem level_le (k : ℕ) : level cap x k ≤ cap := by
  cases k with
  | zero => exact le_refl cap
  | succ k => exact min_le_left _ _

variable [IsOrderedAddMonoid α]

/-- The level is the least of the sums that start at the cap. -/
theorem le_level_iff {a : α} {k : ℕ} :
    a ≤ level cap x k ↔ ∀ s ≤ k, a ≤ cap + ∑ j ∈ Finset.Ico s k, x j := by
  induction k generalizing a with
  | zero => simp
  | succ k ih =>
      have hsum : ∀ s ≤ k, cap + ∑ j ∈ Finset.Ico s (k + 1), x j =
          (cap + ∑ j ∈ Finset.Ico s k, x j) + x k := fun s hs => by
        rw [Finset.sum_Ico_succ_top hs, add_assoc]
      rw [level_succ, le_min_iff, ← sub_le_iff_le_add, ih]
      constructor
      · rintro ⟨hcap, h⟩ s hs
        rcases Nat.le_succ_iff.mp hs with hs | rfl
        · rw [hsum s hs, ← sub_le_iff_le_add]
          exact h s hs
        · simpa using hcap
      · intro h
        refine ⟨by simpa using h (k + 1) (le_refl _), fun s hs => ?_⟩
        rw [sub_le_iff_le_add, ← hsum s hs]
        exact h s (Nat.le_succ_of_le hs)

end Saturating
