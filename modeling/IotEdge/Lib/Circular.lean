import Mathlib.Data.Fin.Basic
import Mathlib.Algebra.Group.Fin.Basic
import Mathlib.Logic.Function.Basic
import Mathlib.Data.ZMod.Defs

/-!
# Circular arrays

A circular array is a function from `Fin n`, read through a *window*: the `len`
entries from an index on, wrapping around.  A queue kept in a circular array is
such a window.  Writing just behind the window and making it longer appends an
element (`window_push`), and moving its start takes the first element off
(`window_succ`).  Neither depends on how the two ends are represented.
-/

namespace Circular

variable {α : Type*} {n : Nat} [NeZero n]

/-- The index `k` places after `start`. -/
def index (start : Fin n) (k : Nat) : Fin n := start + Fin.ofNat n k

/-- The `len` entries from `start` on. -/
def window (buf : Fin n → α) (start : Fin n) (len : Nat) : List α :=
  (List.range len).map fun k => buf (index start k)

/-- The number of places from `start` to `stop`, going up and wrapping. -/
def dist (start stop : Fin n) : Nat := (stop - start).val

/-! ## Indices -/

@[simp] theorem index_zero (start : Fin n) : index start 0 = start := by
  simp [index]

theorem index_succ (start : Fin n) (k : Nat) : index start (k + 1) = index (start + 1) k := by
  apply Fin.ext
  simp [index, Fin.val_add]
  congr 1
  omega

theorem index_add_one (start : Fin n) (k : Nat) : index start k + 1 = index start (k + 1) := by
  apply Fin.ext
  simp [index, Fin.val_add]
  congr 1

theorem index_val (start : Fin n) (k : Nat) : (index start k).val = (start.val + k) % n := by
  simp [index, Fin.val_add]

/-- Two places less than one turn apart are different. -/
theorem index_inj {start : Fin n} {j k : Nat} (hj : j < n) (hk : k < n)
    (h : index start j = index start k) : j = k := by
  have h' := add_left_cancel h
  simpa [Fin.ext_iff, Nat.mod_eq_of_lt hj, Nat.mod_eq_of_lt hk] using h'

omit [NeZero n] in
theorem dist_lt (start stop : Fin n) : dist start stop < n := (stop - start).isLt

theorem index_dist (start stop : Fin n) : index start (dist start stop) = stop := by
  simp [index, dist]

theorem dist_index {start : Fin n} {k : Nat} (hk : k < n) : dist start (index start k) = k :=
  index_inj (dist_lt _ _) hk (index_dist _ _)

/-! ## Windows -/

@[simp] theorem length_window (buf : Fin n → α) (start : Fin n) (len : Nat) :
    (window buf start len).length = len := by
  simp [window]

theorem getElem?_window (buf : Fin n → α) (start : Fin n) {len k : Nat} (hk : k < len) :
    (window buf start len)[k]? = some (buf (index start k)) := by
  simp [window, hk]

/-- The first entry of a window, and the rest of it. -/
theorem window_succ (buf : Fin n → α) (start : Fin n) (len : Nat) :
    window buf start (len + 1) = buf start :: window buf (start + 1) len := by
  simp [window, List.range_succ_eq_map, index_succ]

/-- Writing one entry behind a window that is not the whole array appends it. -/
theorem window_push (buf : Fin n → α) (start : Fin n) {len : Nat} (hlen : len < n) (x : α) :
    window (Function.update buf (index start len) x) start (len + 1) =
      window buf start len ++ [x] := by
  rw [window, List.range_succ, List.map_append]
  congr 1
  · refine List.map_congr_left fun k hk => ?_
    have hkl : k < len := List.mem_range.mp hk
    have hne : index start k ≠ index start len := fun h =>
      absurd (index_inj (hkl.trans hlen) hlen h) (Nat.ne_of_lt hkl)
    rw [Function.update_of_ne hne]
  · simp

end Circular
