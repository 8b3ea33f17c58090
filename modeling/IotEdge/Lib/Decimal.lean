import Mathlib

/-!
# Decimal digits as bytes

Numbers written in ASCII digits, and read back.  `padded` writes a given number of
digits, `digits` as many as are needed.  Both are read back by `value`.
-/

namespace Decimal

/-- An ASCII digit. -/
def isDigit (b : UInt8) : Bool := 48 ≤ b ∧ b ≤ 57

/-- The value of a digit. -/
def digitVal (b : UInt8) : ℕ := b.toNat - 48

/-- The digit for a value below 10. -/
def digitByte (d : ℕ) : UInt8 := UInt8.ofNat (48 + d)

/-- The number that some digits write. -/
def value : List UInt8 → ℕ
  | [] => 0
  | b :: ds => digitVal b * 10 ^ ds.length + value ds

/-- The last `p` digits of a number. -/
def padded : ℕ → ℕ → List UInt8
  | 0, _ => []
  | p + 1, n => digitByte (n / 10 ^ p % 10) :: padded p n

/-- The digits of a number. -/
def digits (n : ℕ) : List UInt8 := padded (Nat.log 10 n + 1) n

/-! ## Single digits -/

theorem digitVal_digitByte {d : ℕ} (h : d < 10) : digitVal (digitByte d) = d := by
  interval_cases d <;> rfl

theorem isDigit_digitByte {d : ℕ} (h : d < 10) : isDigit (digitByte d) = true := by
  interval_cases d <;> rfl

/-- A digit is not one of the bytes outside `'0'` to `'9'`. -/
theorem ne_of_isDigit {b c : UInt8} (hb : isDigit b = true) (hc : isDigit c = false) : b ≠ c := by
  rintro rfl
  rw [hb] at hc
  cases hc

/-! ## Values -/

theorem value_append (ds es : List UInt8) :
    value (ds ++ es) = value ds * 10 ^ es.length + value es := by
  induction ds with
  | nil => simp [value]
  | cons b ds ih =>
      rw [List.cons_append, value, value, ih, List.length_append, pow_add]
      ring

@[simp] theorem length_padded (p n : ℕ) : (padded p n).length = p := by
  induction p with
  | zero => rfl
  | succ p ih => rw [padded, List.length_cons, ih]

theorem isDigit_of_mem_padded {p n : ℕ} {b : UInt8} (h : b ∈ padded p n) : isDigit b = true := by
  induction p with
  | zero => cases h
  | succ p ih =>
      rcases List.mem_cons.mp h with rfl | h
      · exact isDigit_digitByte (Nat.mod_lt _ (by decide))
      · exact ih h

theorem value_padded (p n : ℕ) : value (padded p n) = n % 10 ^ p := by
  induction p with
  | zero => simp [padded, value, Nat.mod_one]
  | succ p ih =>
      rw [padded, value, ih, digitVal_digitByte (Nat.mod_lt _ (by decide)), length_padded,
        Nat.mod_pow_succ]
      ring

@[simp] theorem value_digits (n : ℕ) : value (digits n) = n := by
  rw [digits, value_padded]
  exact Nat.mod_eq_of_lt (Nat.lt_pow_succ_log_self (by decide) n)

theorem isDigit_of_mem_digits {n : ℕ} {b : UInt8} (h : b ∈ digits n) : isDigit b = true :=
  isDigit_of_mem_padded h

theorem length_digits (n : ℕ) : (digits n).length = Nat.log 10 n + 1 := length_padded _ _

/-- A large number has many digits. -/
theorem lt_length_digits {k n : ℕ} (h : 10 ^ k ≤ n) : k < (digits n).length := by
  rw [length_digits]
  exact Nat.lt_succ_of_le (Nat.le_log_of_pow_le (by decide) h)

theorem digits_ne_nil (n : ℕ) : digits n ≠ [] := by
  rw [← List.length_pos_iff, length_digits]
  exact Nat.succ_pos _

/-- Only `0` is written with a leading zero. -/
theorem digits_head {n : ℕ} (h : n ≠ 0) :
    ∃ b ds, digits n = b :: ds ∧ isDigit b = true ∧ b ≠ 48 := by
  refine ⟨_, _, rfl, isDigit_digitByte (Nat.mod_lt _ (by decide)), fun hzero => ?_⟩
  have hlt : n / 10 ^ Nat.log 10 n < 10 :=
    Nat.div_lt_of_lt_mul (by
      rw [← pow_succ]
      exact Nat.lt_pow_succ_log_self (by decide) n)
  have hpos : 0 < n / 10 ^ Nat.log 10 n :=
    Nat.div_pos (Nat.pow_log_le_self 10 h) (Nat.pow_pos (by decide))
  have hval := digitVal_digitByte (Nat.mod_lt (n / 10 ^ Nat.log 10 n) (show 0 < 10 by decide))
  rw [hzero, Nat.mod_eq_of_lt hlt] at hval
  exact absurd hval.symm hpos.ne'

/-- A number with a leading zero is `0`. -/
theorem length_digits_of_head {n : ℕ} (h : (digits n).head? = some 48) : (digits n).length = 1 := by
  rcases Nat.eq_zero_or_pos n with rfl | hpos
  · rfl
  · obtain ⟨b, ds, hds, -, hb⟩ := digits_head hpos.ne'
    rw [hds, List.head?_cons, Option.some.injEq] at h
    exact absurd h hb

/-! ## Runs of digits -/

/-- The text does not go on with a byte that `p` holds of. -/
def StopsAt (p : UInt8 → Bool) (text : List UInt8) : Prop := ∀ b ∈ text.head?, p b = false

theorem stopsAt_nil (p : UInt8 → Bool) : StopsAt p [] := by
  intro b hb
  cases hb

theorem stopsAt_cons {p : UInt8 → Bool} {b : UInt8} {text : List UInt8} :
    StopsAt p (b :: text) ↔ p b = false := by
  simp [StopsAt]

theorem stopsAt_dropWhile (p : UInt8 → Bool) (text : List UInt8) :
    StopsAt p (text.dropWhile p) := by
  intro b hb
  have := List.head?_dropWhile_not p text
  rw [Option.mem_def.mp hb] at this
  simpa using this

/-- A run of bytes is read whole where the text does not go on with it. -/
theorem takeWhile_append {p : UInt8 → Bool} {ds rest : List UInt8} (hds : ∀ b ∈ ds, p b = true)
    (hrest : StopsAt p rest) : (ds ++ rest).takeWhile p = ds := by
  rw [List.takeWhile_append_of_pos hds]
  cases rest with
  | nil => simp
  | cons b rest => simp [stopsAt_cons.mp hrest]

theorem dropWhile_append {p : UInt8 → Bool} {ds rest : List UInt8} (hds : ∀ b ∈ ds, p b = true)
    (hrest : StopsAt p rest) : (ds ++ rest).dropWhile p = rest := by
  rw [List.dropWhile_append_of_pos hds]
  cases rest with
  | nil => simp
  | cons b rest => simp [stopsAt_cons.mp hrest]

end Decimal
