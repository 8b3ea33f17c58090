import Mathlib.Algebra.Group.Nat.Defs

/-!
# Little-endian numbers

A number as a list of bytes, least significant byte first.  `ofBytes_toBytes` is
the round trip: the number comes back modulo the numbers that fit.
-/

namespace LittleEndian

/-- The `n` low bytes of a number. -/
def toBytes : Nat → Nat → List UInt8
  | 0, _ => []
  | n + 1, v => UInt8.ofNat v :: toBytes n (v / 256)

/-- The number with these bytes. -/
def ofBytes : List UInt8 → Nat
  | [] => 0
  | b :: bs => b.toNat + 256 * ofBytes bs

@[simp] theorem length_toBytes (n v : Nat) : (toBytes n v).length = n := by
  induction n generalizing v with
  | zero => rfl
  | succ n ih => simp [toBytes, ih]

theorem ofBytes_toBytes (n v : Nat) : ofBytes (toBytes n v) = v % 256 ^ n := by
  induction n generalizing v with
  | zero => rw [pow_zero, Nat.mod_one]; rfl
  | succ n ih =>
      have hbyte : (UInt8.ofNat v).toNat = v % 256 := UInt8.toNat_ofNat'
      rw [toBytes, ofBytes, ih, hbyte, pow_succ', Nat.mod_mul]

/-- A number that fits comes back. -/
theorem ofBytes_toBytes_of_lt {n v : Nat} (h : v < 256 ^ n) : ofBytes (toBytes n v) = v := by
  rw [ofBytes_toBytes, Nat.mod_eq_of_lt h]

end LittleEndian
