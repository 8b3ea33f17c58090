import IotEdge.Lib.CString
import IotEdge.Lib.Literal

/-!
# `%.<p>f`

`printf` writes a double in decimal with a given number of digits behind the
point.  The number is rounded to a multiple of `10 ^ -p`, exactly and with ties to
the even one.  What is written is a literal (`bytes_printed`), and reading it gives
the double nearest to the rounded number.
-/

namespace Printf

open Binary64 Literal
open Decimal (isDigit StopsAt)

/-- The magnitude of a finite double in units of `10 ^ -p`, rounded. -/
def fixedUnits (p : ℕ) (v : Bits) : ℕ := roundHalfEven (num v * 10 ^ p) (den v)

/-- `%.<p>f`, with `p` not `0`. -/
def printFixed (p : ℕ) (v : Bits) : List UInt8 :=
  (if isNegative v then [45] else []) ++
    if isFinite v then
      Decimal.digits (fixedUnits p v / 10 ^ p) ++ 46 :: Decimal.padded p (fixedUnits p v)
    else if isNaN v then CString.ascii "nan"
    else CString.ascii "inf"

/-- The number that is written for a finite double. -/
def fixedValue (p : ℕ) (v : Bits) : ℚ := fraction (isNegative v) (fixedUnits p v) (10 ^ p)

/-- The literal that is written for a finite double. -/
def printed (p : ℕ) (v : Bits) : Number where
  sign := if isNegative v then .minus else .none
  body.mantissa :=
    { int := Decimal.digits (fixedUnits p v / 10 ^ p)
      frac := some (Decimal.padded p (fixedUnits p v))
      isDigit_int := fun _ h => Decimal.isDigit_of_mem_digits h
      isDigit_frac := fun _ h => Decimal.isDigit_of_mem_padded h
      ne_nil := by simp [Decimal.digits_ne_nil] }
  body.exponent := none

variable {p : ℕ} {v : Bits}

/-- What is written is the text of the literal. -/
theorem bytes_printed (p : ℕ) (hv : isFinite v = true) : (printed p v).bytes = printFixed p v := by
  rw [printFixed, if_pos hv]
  simp only [Number.bytes, Body.bytes, Mantissa.bytes, printed, exponentBytes, fracBytes,
    List.append_nil]
  split <;> rfl

/-- The digits before and behind the point. -/
theorem value_digits_printed (p : ℕ) (v : Bits) :
    Decimal.value (printed p v).body.mantissa.digits = fixedUnits p v := by
  rw [Mantissa.digits, printed]
  dsimp only [Option.getD_some]
  rw [Decimal.value_append, Decimal.value_digits, Decimal.value_padded, Decimal.length_padded,
    Nat.div_add_mod']

theorem exponent_printed (p : ℕ) (v : Bits) :
    (printed p v).body.exponentValue - (printed p v).body.places = -(p : ℤ) := by
  simp [Body.exponentValue, Body.places, printed]

theorem isMinus_printed (p : ℕ) (v : Bits) : (printed p v).sign.isMinus = isNegative v := by
  simp only [printed]
  cases isNegative v <;> rfl

/-- Reading what was written gives the double nearest to the rounded number. -/
theorem toBits_printed (p : ℕ) (v : Bits) :
    (printed p v).toBits = ofFraction (isNegative v) (fixedUnits p v) (10 ^ p) := by
  rw [Number.toBits, value_digits_printed, exponent_printed, isMinus_printed, scale]
  simp

/-- The literal writes the rounded number. -/
theorem toRat_printed (p : ℕ) (v : Bits) : (printed p v).toRat = fixedValue p v := by
  rw [Number.toRat, value_digits_printed, exponent_printed, isMinus_printed, fixedValue,
    fraction, zpow_neg, zpow_natCast, Nat.cast_pow, Nat.cast_ofNat]
  ring

/-- The literal is read whole when no digit and no exponent follows. -/
theorem readNumber_printed (p : ℕ) (v : Bits) (rest : List UInt8) (hdigit : StopsAt isDigit rest)
    (hexp : readExponent isE rest = none) :
    readNumber ((printed p v).bytes ++ rest) = some (printed p v, rest) :=
  readNumber_append _ ⟨⟨hdigit, fun h => nomatch h⟩, hexp⟩

/-- The bytes that are written for a finite double. -/
theorem mem_printFixed {b : UInt8} (hv : isFinite v = true) (h : b ∈ printFixed p v) :
    isDigit b = true ∨ b = 45 ∨ b = 46 := by
  rw [printFixed, if_pos hv, List.mem_append, List.mem_append, List.mem_cons] at h
  rcases h with hsign | hint | hpoint | hfrac
  · split at hsign
    next => exact .inr (.inl (List.mem_singleton.mp hsign))
    next => cases hsign
  · exact .inl (Decimal.isDigit_of_mem_digits hint)
  · exact .inr (.inr hpoint)
  · exact .inl (Decimal.isDigit_of_mem_padded hfrac)

/-- Rounding does not go over the largest double. -/
theorem fixedUnits_le (p : ℕ) (hv : isFinite v = true) : fixedUnits p v ≤ largest * 10 ^ p := by
  have hle := num_le_largest hv
  have hden := den_pos v
  have hspec := (roundHalfEven_spec (num v * 10 ^ p) hden).2
  rw [fixedUnits]
  generalize roundHalfEven (num v * 10 ^ p) (den v) = m at *
  have hnum : num v * 10 ^ p ≤ largest * 10 ^ p * den v :=
    (Nat.mul_le_mul_right _ hle).trans (Nat.le_mul_of_pos_right _ hden)
  generalize largest * 10 ^ p = top at *
  have hprod : 2 * m * den v ≤ (2 * top + 1) * den v := by
    calc 2 * m * den v ≤ 2 * (num v * 10 ^ p) + den v := hspec
      _ ≤ 2 * (top * den v) + den v := by omega
      _ = (2 * top + 1) * den v := by ring
  have := Nat.le_of_mul_le_mul_right hprod hden
  omega

/-- The literal has a finite value. -/
theorem isFinite_toBits_printed (p : ℕ) (hv : isFinite v = true) :
    isFinite (printed p v).toBits = true := by
  rw [toBits_printed]
  exact isFinite_ofFraction (Nat.pow_pos (by decide)) (fixedUnits_le p hv)

/-- The number of digits of the largest double. -/
def topDigits : ℕ := 309

/-- A finite double has at most so many digits before the point. -/
theorem length_int_le (p : ℕ) (hv : isFinite v = true) :
    (Decimal.digits (fixedUnits p v / 10 ^ p)).length ≤ topDigits := by
  have hle : fixedUnits p v / 10 ^ p ≤ largest :=
    Nat.div_le_of_le_mul (by
      rw [mul_comm]
      exact fixedUnits_le p hv)
  have htop : largest < 10 ^ topDigits := by decide +kernel
  rw [Decimal.length_digits]
  exact Nat.log_lt_of_lt_pow' (by decide) (hle.trans_lt htop)

theorem length_printFixed (p : ℕ) (hv : isFinite v = true) : (printFixed p v).length =
    (if isNegative v then 1 else 0) + (Decimal.digits (fixedUnits p v / 10 ^ p)).length + 1 + p := by
  rw [printFixed, if_pos hv, List.length_append, List.length_append, List.length_cons,
    Decimal.length_padded]
  cases isNegative v
  · simp only [Bool.false_eq_true, if_false, List.length_nil]
    omega
  · simp only [if_true, List.length_singleton]
    omega

/-! ## Decimals that come back -/

/-- A number that is less than half a unit away is rounded to the integer. -/
theorem roundHalfEven_eq {n d m : ℕ} (hlow : 2 * m * d < 2 * n + d)
    (hhigh : 2 * n < (2 * m + 1) * d) : roundHalfEven n d = m := by
  have hd : 0 < d := by
    by_contra hzero
    rw [Nat.eq_zero_of_not_pos hzero] at hhigh
    exact absurd hhigh (Nat.not_lt_zero _)
  obtain ⟨hge, hle⟩ := roundHalfEven_spec n hd
  generalize roundHalfEven n d = r at *
  rcases lt_trichotomy r m with hlt | heq | hgt
  · have hmul := Nat.mul_le_mul_right d (show 2 * r + 1 + 1 ≤ 2 * m by omega)
    rw [Nat.add_mul _ 1] at hmul
    omega
  · exact heq
  · have hmul := Nat.mul_le_mul_right d (show 2 * m + 1 + 1 ≤ 2 * r by omega)
    rw [Nat.add_mul _ 1] at hmul
    omega

section Decimals

variable {neg : Bool} {n d m : ℕ}

/-- The unit that a decimal is rounded to is small beside its last place. -/
theorem pow_mul_unit_lt (hd : 0 < d) (hm : n * 10 ^ p = m * d) (hsmall : m < 2 ^ 52)
    (hp : 10 ^ p < units) : 10 ^ p * 2 ^ unitExponent n d < units := by
  rcases (unitExponent_bounds n d).2 with hzero | hlarge
  · rw [hzero, pow_zero, mul_one]
    exact hp
  · generalize unitExponent n d = k at *
    have hN : 2 ^ (52 + k) * d ≤ n * units := (Nat.le_div_iff_mul_le hd).mp hlarge
    have hprod : 2 ^ 52 * (10 ^ p * 2 ^ k) * d < 2 ^ 52 * units * d := by
      calc 2 ^ 52 * (10 ^ p * 2 ^ k) * d = 10 ^ p * (2 ^ (52 + k) * d) := by rw [pow_add]; ring
        _ ≤ 10 ^ p * (n * units) := Nat.mul_le_mul_left _ hN
        _ = m * d * units := by rw [← hm]; ring
        _ = m * (units * d) := by ring
        _ < 2 ^ 52 * (units * d) :=
          Nat.mul_lt_mul_of_pos_right hsmall (Nat.mul_pos units_pos hd)
        _ = 2 ^ 52 * units * d := by ring
    exact Nat.lt_of_mul_lt_mul_left (Nat.lt_of_mul_lt_mul_right hprod)

/-- The double nearest to a decimal with `p` places, written with `p` places, is the
decimal again. -/
theorem fixedUnits_ofFraction (hd : 0 < d) (hm : n * 10 ^ p = m * d) (hsmall : m < 2 ^ 52)
    (hp : 10 ^ p < units) (hfinite : isFinite (ofFraction neg n d) = true) :
    fixedUnits p (ofFraction neg n d) = m := by
  have hunit := pow_mul_unit_lt hd hm hsmall hp
  have hpos : 0 < d * 2 ^ unitExponent n d := Nat.mul_pos hd (Nat.pow_pos (by decide))
  obtain ⟨hge, hle⟩ := roundHalfEven_spec (n * units) hpos
  have hscaled := scaled_ofFraction hd hfinite
  have hnum := num_mul_units (ofFraction neg n d)
  have hden := den_pos (ofFraction neg n d)
  rw [fixedUnits]
  generalize num (ofFraction neg n d) = N at *
  generalize den (ofFraction neg n d) = D at *
  generalize scaled (ofFraction neg n d) = S at *
  generalize unitExponent n d = k at *
  generalize roundHalfEven (n * units) (d * 2 ^ k) = r at *
  -- In units, the double is at most half of `2 ^ k` away from the fraction.
  have hge' : 2 * (n * units) ≤ 2 * (S * d) + d * 2 ^ k := by
    calc 2 * (n * units) ≤ (2 * r + 1) * (d * 2 ^ k) := hge
      _ = 2 * (r * 2 ^ k * d) + d * 2 ^ k := by ring
      _ = 2 * (S * d) + d * 2 ^ k := by rw [hscaled]
  have hle' : 2 * (S * d) ≤ 2 * (n * units) + d * 2 ^ k := by
    calc 2 * (S * d) = 2 * r * (d * 2 ^ k) := by rw [hscaled]; ring
      _ ≤ 2 * (n * units) + d * 2 ^ k := hle
  have hN : N * 10 ^ p * (units * d) = 10 ^ p * D * (S * d) := by
    calc N * 10 ^ p * (units * d) = N * units * (10 ^ p * d) := by ring
      _ = 10 ^ p * D * (S * d) := by rw [hnum]; ring
  have hM : m * D * (units * d) = 10 ^ p * D * (n * units) := by
    calc m * D * (units * d) = m * d * (D * units) := by ring
      _ = 10 ^ p * D * (n * units) := by rw [← hm]; ring
  have hhalf : 10 ^ p * D * (d * 2 ^ k) < D * (units * d) := by
    calc 10 ^ p * D * (d * 2 ^ k) = 10 ^ p * 2 ^ k * (D * d) := by ring
      _ < units * (D * d) := Nat.mul_lt_mul_of_pos_right hunit (Nat.mul_pos hden hd)
      _ = D * (units * d) := by ring
  refine roundHalfEven_eq ?_ ?_
  · refine Nat.lt_of_mul_lt_mul_right (a := units * d) ?_
    calc 2 * m * D * (units * d) = 10 ^ p * D * (2 * (n * units)) := by rw [mul_assoc 2, mul_assoc 2, hM]; ring
      _ ≤ 10 ^ p * D * (2 * (S * d) + d * 2 ^ k) := Nat.mul_le_mul_left _ hge'
      _ = 2 * (N * 10 ^ p * (units * d)) + 10 ^ p * D * (d * 2 ^ k) := by rw [hN]; ring
      _ < 2 * (N * 10 ^ p * (units * d)) + D * (units * d) := Nat.add_lt_add_left hhalf _
      _ = (2 * (N * 10 ^ p) + D) * (units * d) := by ring
  · refine Nat.lt_of_mul_lt_mul_right (a := units * d) ?_
    calc 2 * (N * 10 ^ p) * (units * d) = 10 ^ p * D * (2 * (S * d)) := by rw [mul_assoc 2, hN]; ring
      _ ≤ 10 ^ p * D * (2 * (n * units) + d * 2 ^ k) := Nat.mul_le_mul_left _ hle'
      _ = 2 * (m * D * (units * d)) + 10 ^ p * D * (d * 2 ^ k) := by rw [hM]; ring
      _ < 2 * (m * D * (units * d)) + D * (units * d) := Nat.add_lt_add_left hhalf _
      _ = (2 * m + 1) * D * (units * d) := by ring

theorem two_pow_le_largest : 2 ^ 52 ≤ largest :=
  le_mul_of_le_of_one_le (by decide) (Nat.one_le_two_pow)

/-- A decimal with `p` places and at most 52 bits survives the way through a double. -/
theorem fixedValue_ofFraction (hd : 0 < d) (hm : n * 10 ^ p = m * d) (hsmall : m < 2 ^ 52)
    (hp : 10 ^ p < units) : fixedValue p (ofFraction neg n d) = fraction neg n d := by
  have hpow : 0 < 10 ^ p := Nat.pow_pos (by decide)
  have hfinite : isFinite (ofFraction neg n d) = true := by
    refine isFinite_ofFraction hd ((Nat.le_mul_of_pos_right n hpow).trans ?_)
    rw [hm]
    exact Nat.mul_le_mul_right d (hsmall.le.trans two_pow_le_largest)
  have hdiv : (m / (10 ^ p : ℕ) : ℚ) = n / d := by
    rw [div_eq_div_iff (Nat.cast_ne_zero.mpr hpow.ne') (Nat.cast_ne_zero.mpr hd.ne')]
    exact_mod_cast hm.symm
  rw [fixedValue, isNegative_ofFraction, fixedUnits_ofFraction hd hm hsmall hp hfinite, fraction,
    fraction, hdiv]

end Decimals

end Printf
