import Mathlib

/-!
# IEEE 754 double precision

A double is its 64 bits.  The magnitude of a finite one is a fraction of two
natural numbers (`num` and `den`), and `ofFraction` is the double nearest to a
fraction, with ties to the even one, and infinity behind the largest.

Everything is done with one observation.  Without its sign bit, an encoding is
the number `k * 2 ^ 52 + m` for the double `m * 2 ^ k` in units of `2 ^ -1074`:
the exponent field goes up by one where `m` goes over `2 ^ 53`.
-/

namespace Binary64

/-- A double. -/
abbrev Bits := BitVec 64

/-- The sign bit. -/
def isNegative (b : Bits) : Bool := b.msb

/-- The exponent field. -/
def exponentField (b : Bits) : ℕ := b.toNat / 2 ^ 52 % 2 ^ 11

/-- The fraction field. -/
def fractionField (b : Bits) : ℕ := b.toNat % 2 ^ 52

/-- Neither an infinity nor a NaN. -/
def isFinite (b : Bits) : Bool := exponentField b ≠ 2047

/-- A NaN. -/
def isNaN (b : Bits) : Bool := exponentField b = 2047 ∧ fractionField b ≠ 0

/-- The significand of a finite double, as an integer. -/
def significand (b : Bits) : ℕ :=
  if exponentField b = 0 then fractionField b else 2 ^ 52 + fractionField b

/-- The exponent of the unit of the significand, from 1 for the least. -/
def unitField (b : Bits) : ℕ := max (exponentField b) 1

/-- The magnitude of a finite double: the numerator. -/
def num (b : Bits) : ℕ := significand b * 2 ^ (unitField b - 1075)

/-- The magnitude of a finite double: the denominator. -/
def den (b : Bits) : ℕ := 2 ^ (1075 - unitField b)

/-- The value of a finite double. -/
def toRat (b : Bits) : ℚ := (if isNegative b then -1 else 1) * (num b / den b)

/-- A sign and the 63 other bits. -/
def ofMagnitude (neg : Bool) (magnitude : ℕ) : Bits :=
  BitVec.ofNat 64 ((if neg then 2 ^ 63 else 0) + magnitude)

/-- The bits of infinity, without the sign. -/
def infinityMagnitude : ℕ := 2047 * 2 ^ 52

/-- Infinity. -/
def infinity (neg : Bool) : Bits := ofMagnitude neg infinityMagnitude

/-- A quiet NaN. -/
def quietNaN (neg : Bool) : Bits := ofMagnitude neg (infinityMagnitude + 2 ^ 51)

/-- The integer nearest to `num / den`, the even one of two. -/
def roundHalfEven (num den : ℕ) : ℕ :=
  let q := num / den
  let r := num % den
  if 2 * r < den then q
  else if den < 2 * r then q + 1
  else if q % 2 = 0 then q else q + 1

/-- The least positive double is `2 ^ -1074`. -/
def unitsLog : ℕ := 1074

/-- The units in 1, where the unit is the least positive double. -/
def units : ℕ := 2 ^ unitsLog

/-- The exponent of the power of two that `num / den` is rounded to a multiple of,
in units: 53 bits of the integral part are kept. -/
def unitExponent (num den : ℕ) : ℕ := (num * units / den).log2 - 52

/-- The double nearest to `num / den`. -/
def ofFraction (neg : Bool) (num den : ℕ) : Bits :=
  let k := unitExponent num den
  let m := roundHalfEven (num * units) (den * 2 ^ k)
  ofMagnitude neg (min (k * 2 ^ 52 + m) infinityMagnitude)

/-! ## Rounding to an integer -/

/-- The rounded number is at most half a unit away. -/
theorem roundHalfEven_spec (num : ℕ) {den : ℕ} (hden : 0 < den) :
    2 * num ≤ (2 * roundHalfEven num den + 1) * den ∧
      (2 * roundHalfEven num den) * den ≤ 2 * num + den := by
  have hdiv : num = den * (num / den) + num % den := (Nat.div_add_mod num den).symm
  have hmod : num % den < den := Nat.mod_lt num hden
  rw [roundHalfEven]
  generalize num / den = q at *
  generalize num % den = r at *
  subst hdiv
  split
  next h => constructor <;> nlinarith
  next h =>
    split
    next h' => constructor <;> nlinarith
    next h' =>
      split
      next => constructor <;> nlinarith
      next => constructor <;> nlinarith

/-! ## Fields of an encoding -/

theorem toNat_ofMagnitude {neg : Bool} {magnitude : ℕ} (h : magnitude < 2 ^ 63) :
    (ofMagnitude neg magnitude).toNat = (if neg then 2 ^ 63 else 0) + magnitude := by
  rw [ofMagnitude, BitVec.toNat_ofNat]
  refine Nat.mod_eq_of_lt ?_
  split <;> omega

theorem isNegative_ofMagnitude {neg : Bool} {magnitude : ℕ} (h : magnitude < 2 ^ 63) :
    isNegative (ofMagnitude neg magnitude) = neg := by
  rw [isNegative, BitVec.msb_eq_decide, toNat_ofMagnitude h]
  cases neg with
  | false => simpa using h
  | true => simp

theorem fractionField_ofMagnitude {neg : Bool} {magnitude : ℕ} (h : magnitude < 2 ^ 63) :
    fractionField (ofMagnitude neg magnitude) = magnitude % 2 ^ 52 := by
  rw [fractionField, toNat_ofMagnitude h]
  split <;> omega

theorem exponentField_ofMagnitude {neg : Bool} {magnitude : ℕ} (h : magnitude < 2 ^ 63) :
    exponentField (ofMagnitude neg magnitude) = magnitude / 2 ^ 52 := by
  rw [exponentField, toNat_ofMagnitude h]
  split <;> omega

theorem fractionField_lt (b : Bits) : fractionField b < 2 ^ 52 := Nat.mod_lt _ (by decide)

theorem exponentField_lt (b : Bits) : exponentField b < 2 ^ 11 := Nat.mod_lt _ (by decide)

theorem den_pos (b : Bits) : 0 < den b := Nat.pow_pos (by decide)

/-- A magnitude is finite below infinity. -/
theorem isFinite_ofMagnitude {neg : Bool} {magnitude : ℕ} (h : magnitude ≤ infinityMagnitude) :
    isFinite (ofMagnitude neg magnitude) = true ↔ magnitude < infinityMagnitude := by
  rw [infinityMagnitude] at *
  rw [isFinite, exponentField_ofMagnitude (by omega), decide_eq_true_iff]
  omega

/-! ## Values in units -/

/-- The magnitude of a finite double in units. -/
def scaled (b : Bits) : ℕ := significand b * 2 ^ (unitField b - 1)

theorem units_pos : 0 < units := Nat.two_pow_pos unitsLog

theorem one_le_unitField (b : Bits) : 1 ≤ unitField b := le_max_right _ _

theorem significand_lt (b : Bits) : significand b < 2 ^ 53 := by
  have := fractionField_lt b
  rw [significand]
  split <;> omega

/-- The two ways to write a magnitude. -/
theorem num_mul_units (b : Bits) : num b * units = scaled b * den b := by
  have hunit := one_le_unitField b
  have hexp : unitField b - 1075 + unitsLog = unitField b - 1 + (1075 - unitField b) := by
    rw [unitsLog]
    omega
  rw [num, den, scaled, units, mul_assoc, mul_assoc, ← pow_add, ← pow_add, hexp]

theorem toRat_eq (b : Bits) :
    toRat b = (if isNegative b then -1 else 1) * (scaled b / units) := by
  have hden : (den b : ℚ) ≠ 0 := Nat.cast_ne_zero.mpr (den_pos b).ne'
  have hunits : (units : ℚ) ≠ 0 := Nat.cast_ne_zero.mpr units_pos.ne'
  have h : (num b : ℚ) * units = scaled b * den b := by exact_mod_cast num_mul_units b
  rw [toRat, (div_eq_div_iff hden hunits).mpr h]

/-- The encoding of `m` times `2 ^ k` units. -/
theorem scaled_ofMagnitude {neg : Bool} {k m : ℕ} (hm : m ≤ 2 ^ 53)
    (hnormal : k = 0 ∨ 2 ^ 52 ≤ m) (hfinite : k * 2 ^ 52 + m < infinityMagnitude) :
    scaled (ofMagnitude neg (k * 2 ^ 52 + m)) = m * 2 ^ k := by
  rw [infinityMagnitude] at hfinite
  have hlt : k * 2 ^ 52 + m < 2 ^ 63 := by omega
  rw [scaled, significand, unitField, exponentField_ofMagnitude hlt,
    fractionField_ofMagnitude hlt]
  rcases lt_or_ge m (2 ^ 52) with hsmall | hlarge
  · have hk : k = 0 := hnormal.resolve_right (by omega)
    have hexp : (k * 2 ^ 52 + m) / 2 ^ 52 = 0 := by omega
    have hfrac : (k * 2 ^ 52 + m) % 2 ^ 52 = m := by omega
    rw [hexp, hfrac, hk, if_pos rfl]
    rfl
  · rcases hm.lt_or_eq with hlow | htop
    · have hexp : (k * 2 ^ 52 + m) / 2 ^ 52 = k + 1 := by omega
      have hfrac : 2 ^ 52 + (k * 2 ^ 52 + m) % 2 ^ 52 = m := by omega
      rw [hexp, if_neg (Nat.succ_ne_zero k), hfrac, max_eq_left (by omega), Nat.add_sub_cancel]
    · have hexp : (k * 2 ^ 52 + m) / 2 ^ 52 = k + 2 := by omega
      have hfrac : (k * 2 ^ 52 + m) % 2 ^ 52 = 0 := by omega
      have hunit : k + 2 - 1 = k + 1 := by omega
      rw [hexp, hfrac, if_neg (Nat.succ_ne_zero _), max_eq_left (by omega), hunit, htop,
        Nat.add_zero, pow_succ 2 k]
      ring

/-! ## Rounding to a double -/

section Rounding

variable {n d : ℕ}

/-- What is rounded keeps 53 bits. -/
theorem unitExponent_bounds (n d : ℕ) :
    n * units / d < 2 ^ (53 + unitExponent n d) ∧
      (unitExponent n d = 0 ∨ 2 ^ (52 + unitExponent n d) ≤ n * units / d) := by
  rw [unitExponent]
  generalize n * units / d = q
  have hlt : q < 2 ^ (q.log2 + 1) := Nat.lt_log2_self
  constructor
  · exact hlt.trans_le (Nat.pow_le_pow_right (by decide) (by omega))
  · rcases Nat.eq_zero_or_pos (q.log2 - 52) with hzero | hpos
    · exact .inl hzero
    · refine .inr ?_
      have hq : q ≠ 0 := by
        rintro rfl
        simp at hpos
      have hexp : 52 + (q.log2 - 52) = q.log2 := by omega
      rw [hexp]
      exact Nat.log2_self_le hq

/-- The rounded significand has 53 bits, or is the next power of two. -/
theorem roundHalfEven_bounds (hd : 0 < d) :
    roundHalfEven (n * units) (d * 2 ^ unitExponent n d) ≤ 2 ^ 53 ∧
      (unitExponent n d = 0 ∨
        2 ^ 52 ≤ roundHalfEven (n * units) (d * 2 ^ unitExponent n d)) := by
  obtain ⟨hupper, hlower⟩ := unitExponent_bounds n d
  generalize unitExponent n d = k at *
  have hpos : 0 < d * 2 ^ k := Nat.mul_pos hd (Nat.pow_pos (by decide))
  obtain ⟨hge, hle⟩ := roundHalfEven_spec (n * units) hpos
  generalize roundHalfEven (n * units) (d * 2 ^ k) = m at *
  constructor
  · have hN : n * units < 2 ^ 53 * (d * 2 ^ k) := by
      have := (Nat.div_lt_iff_lt_mul hd).mp hupper
      rw [pow_add] at this
      linarith only [this]
    by_contra hgt
    have h1 : (2 * (2 ^ 53 + 1)) * (d * 2 ^ k) ≤ (2 * m) * (d * 2 ^ k) :=
      Nat.mul_le_mul_right _ (by omega)
    generalize d * 2 ^ k = D at *
    generalize n * units = N at *
    omega
  · refine hlower.imp_right fun hQ => ?_
    have hN : 2 ^ 52 * (d * 2 ^ k) ≤ n * units := by
      have := (Nat.le_div_iff_mul_le hd).mp hQ
      rw [pow_add] at this
      linarith only [this]
    by_contra hlt
    have h1 : (2 * m + 1) * (d * 2 ^ k) ≤ (2 * 2 ^ 52 - 1) * (d * 2 ^ k) :=
      Nat.mul_le_mul_right _ (by omega)
    generalize d * 2 ^ k = D at *
    generalize n * units = N at *
    omega

theorem isNegative_ofFraction (neg : Bool) (n d : ℕ) : isNegative (ofFraction neg n d) = neg :=
  isNegative_ofMagnitude ((min_le_right _ _).trans_lt (by decide))

/-- A finite result is the rounded significand in units. -/
theorem scaled_ofFraction {neg : Bool} (hd : 0 < d)
    (hfinite : isFinite (ofFraction neg n d) = true) :
    scaled (ofFraction neg n d) =
      roundHalfEven (n * units) (d * 2 ^ unitExponent n d) * 2 ^ unitExponent n d := by
  obtain ⟨hm, hnormal⟩ := roundHalfEven_bounds (n := n) hd
  have hlt := (isFinite_ofMagnitude (min_le_right _ _)).mp hfinite
  have hmin := (min_lt_iff.mp hlt).resolve_right (lt_irrefl _)
  rw [ofFraction, min_eq_left hmin.le]
  exact scaled_ofMagnitude hm hnormal hmin

/-- The rounded integer is as near as any other. -/
theorem roundHalfEven_nearest (n : ℕ) {d : ℕ} (hd : 0 < d) (t : ℤ) :
    |(roundHalfEven n d * d - n : ℤ)| ≤ |t * d - n| := by
  obtain ⟨hge, hle⟩ := roundHalfEven_spec n hd
  generalize roundHalfEven n d = m at *
  have hge' : (2 * n : ℤ) ≤ 2 * (m * d) + d := by
    have : (2 * n : ℤ) ≤ (2 * m + 1) * d := by exact_mod_cast hge
    linarith
  have hle' : (2 * (m * d) : ℤ) ≤ 2 * n + d := by
    have : (2 * m * d : ℤ) ≤ 2 * n + d := by exact_mod_cast hle
    linarith
  have hpos : (0 : ℤ) ≤ d := Int.natCast_nonneg d
  rcases lt_trichotomy t m with hlt | rfl | hgt
  · have hstep : (t + 1) * d ≤ m * d := mul_le_mul_of_nonneg_right hlt hpos
    have hneg : t * d - n ≤ 0 := by linarith
    rw [abs_of_nonpos hneg, abs_le]
    constructor <;> linarith
  · exact le_refl _
  · have hstep : ((m : ℤ) + 1) * d ≤ t * d := mul_le_mul_of_nonneg_right hgt hpos
    have hnonneg : 0 ≤ t * d - n := by linarith
    rw [abs_of_nonneg hnonneg, abs_le]
    constructor <;> linarith

/-- A magnitude whose unit is not smaller is a multiple of the unit that is rounded to. -/
theorem scaled_mul_eq (b : Bits) {k : ℕ} (h : k ≤ unitField b - 1) (d : ℕ) :
    (scaled b : ℤ) * d = significand b * 2 ^ (unitField b - 1 - k) * (d * 2 ^ k) := by
  have hpow : (2 : ℤ) ^ (unitField b - 1) = 2 ^ (unitField b - 1 - k) * 2 ^ k := by
    rw [← pow_add, Nat.sub_add_cancel h]
  rw [scaled]
  push_cast
  rw [hpow]
  ring

/-- A magnitude whose unit is smaller is below the least significand with 53 bits. -/
theorem scaled_mul_le (b : Bits) {k : ℕ} (h : unitField b - 1 < k) (d : ℕ) :
    scaled b * d ≤ 2 ^ 52 * (d * 2 ^ k) := by
  have hpow : 2 ^ (unitField b - 1) ≤ 2 ^ (k - 1) := Nat.pow_le_pow_right (by decide) (by omega)
  have hk : 2 ^ k = 2 * 2 ^ (k - 1) := by
    rw [← pow_succ', Nat.sub_add_cancel (by omega)]
  calc scaled b * d ≤ 2 ^ 53 * 2 ^ (k - 1) * d :=
        Nat.mul_le_mul_right _ (Nat.mul_le_mul (significand_lt b).le hpow)
    _ = 2 ^ 52 * (d * 2 ^ k) := by rw [hk]; ring

/-- No magnitude of a double is nearer than the rounded one. -/
theorem scaled_nearest (hd : 0 < d) (b : Bits) :
    |((roundHalfEven (n * units) (d * 2 ^ unitExponent n d) * (d * 2 ^ unitExponent n d) : ℕ) -
        (n * units : ℕ) : ℤ)| ≤ |((scaled b * d : ℕ) - (n * units : ℕ) : ℤ)| := by
  have hlower := (unitExponent_bounds n d).2
  generalize unitExponent n d = k at *
  generalize n * units = N at *
  have hpos : 0 < d * 2 ^ k := Nat.mul_pos hd (Nat.pow_pos (by decide))
  have hnearest := roundHalfEven_nearest N hpos
  push_cast at hnearest ⊢
  rcases le_or_gt k (unitField b - 1) with hmultiple | hsmall
  · rw [scaled_mul_eq b hmultiple]
    exact hnearest _
  · have hN : 2 ^ 52 * (d * 2 ^ k) ≤ N := by
      have := (Nat.le_div_iff_mul_le hd).mp (hlower.resolve_left (by omega))
      rw [pow_add] at this
      linarith only [this]
    have hN' : (2 ^ 52 * (d * 2 ^ k) : ℤ) ≤ N := by exact_mod_cast hN
    have hB' : (scaled b * d : ℤ) ≤ 2 ^ 52 * (d * 2 ^ k) := by
      exact_mod_cast scaled_mul_le b hsmall d
    -- The least significand with 53 bits is between the two.
    refine (hnearest (2 ^ 52)).trans ?_
    rw [abs_of_nonpos (by linarith), abs_of_nonpos (by linarith)]
    linarith

/-- A fraction with a sign. -/
def fraction (neg : Bool) (n d : ℕ) : ℚ := (if neg then -1 else 1) * (n / d)

/-- The distance of a magnitude from a fraction, in units. -/
theorem abs_scaled_sub (hd : 0 < d) (x : ℕ) :
    |(x / units - n / d : ℚ)| = (|((x * d : ℕ) - (n * units : ℕ) : ℤ)| : ℤ) / (units * d) := by
  have hunits : (0 : ℚ) < units := Nat.cast_pos.mpr units_pos
  have hd' : (0 : ℚ) < d := Nat.cast_pos.mpr hd
  have hsub : (x / units - n / d : ℚ) = (((x * d : ℕ) - (n * units : ℕ) : ℤ) : ℚ) / (units * d) := by
    push_cast
    generalize (units : ℚ) = u at *
    field_simp
  rw [hsub, abs_div, abs_of_pos (mul_pos hunits hd'), Int.cast_abs]

theorem abs_sign_mul (neg : Bool) (x : ℚ) : |(if neg then -1 else 1) * x| = |x| := by
  cases neg <;> simp

/-- The distance of the rounded magnitude from the one of the fraction. -/
theorem scaled_ofFraction_nearest {neg : Bool} (hd : 0 < d)
    (hfinite : isFinite (ofFraction neg n d) = true) (b : Bits) :
    |((scaled (ofFraction neg n d) * d : ℕ) - (n * units : ℕ) : ℤ)| ≤
      |((scaled b * d : ℕ) - (n * units : ℕ) : ℤ)| := by
  have hvalue : scaled (ofFraction neg n d) * d =
      roundHalfEven (n * units) (d * 2 ^ unitExponent n d) * (d * 2 ^ unitExponent n d) := by
    rw [scaled_ofFraction hd hfinite]
    ring
  rw [hvalue]
  exact scaled_nearest hd b

/-- The rounded double is as near to a fraction as any magnitude of a double. -/
theorem abs_ofFraction_sub_le {neg : Bool} (hd : 0 < d)
    (hfinite : isFinite (ofFraction neg n d) = true) (b : Bits) :
    |toRat (ofFraction neg n d) - fraction neg n d| ≤ |(scaled b / units - n / d : ℚ)| := by
  have hunits : (0 : ℚ) < units := Nat.cast_pos.mpr units_pos
  have hd' : (0 : ℚ) < d := Nat.cast_pos.mpr hd
  rw [toRat_eq, isNegative_ofFraction, fraction, ← mul_sub, abs_sign_mul, abs_scaled_sub hd,
    abs_scaled_sub hd]
  exact div_le_div_of_nonneg_right (Int.cast_le.mpr (scaled_ofFraction_nearest hd hfinite b))
    (mul_pos hunits hd').le

/-- No double is nearer than the rounded one. -/
theorem ofFraction_nearest {neg : Bool} (hd : 0 < d)
    (hfinite : isFinite (ofFraction neg n d) = true) (b : Bits) :
    |toRat (ofFraction neg n d) - fraction neg n d| ≤ |toRat b - fraction neg n d| := by
  rcases eq_or_ne (isNegative b) neg with heq | hne
  · refine (abs_ofFraction_sub_le hd hfinite b).trans_eq ?_
    rw [toRat_eq, heq, fraction, ← mul_sub, abs_sign_mul]
  · -- Zero is between a double of the other sign and the fraction.
    have hzero := abs_ofFraction_sub_le hd hfinite 0
    rw [show scaled 0 = 0 by decide, Nat.cast_zero, zero_div, zero_sub, abs_neg] at hzero
    have hother : toRat b - fraction neg n d =
        (if isNegative b then -1 else 1) * (scaled b / units + n / d) := by
      rw [toRat_eq, fraction]
      generalize (scaled b / units : ℚ) = x
      generalize (n / d : ℚ) = y
      cases hb : isNegative b <;> cases hn : neg
      · exact absurd (hb.trans hn.symm) hne
      · simp
      · simp
        ring
      · exact absurd (hb.trans hn.symm) hne
    have hB : (0 : ℚ) ≤ scaled b / units := div_nonneg (Nat.cast_nonneg _) (Nat.cast_nonneg _)
    have hN : (0 : ℚ) ≤ n / d := div_nonneg (Nat.cast_nonneg _) (Nat.cast_nonneg _)
    refine hzero.trans ?_
    rw [hother, abs_sign_mul, abs_of_nonneg hN, abs_of_nonneg (add_nonneg hB hN)]
    exact le_add_of_nonneg_left hB

/-! ## Finite values -/

/-- The exponent of the unit of the largest finite double. -/
def topExponent : ℕ := 971

/-- The largest finite double. -/
def largest : ℕ := (2 ^ 53 - 1) * 2 ^ topExponent

/-- The magnitude of a finite double is at most the largest. -/
theorem num_le_largest {b : Bits} (hb : isFinite b = true) : num b ≤ largest := by
  have hsig : significand b ≤ 2 ^ 53 - 1 := Nat.le_sub_one_of_lt (significand_lt b)
  have hexp := exponentField_lt b
  have hne : exponentField b ≠ 2047 := of_decide_eq_true hb
  refine Nat.mul_le_mul hsig (Nat.pow_le_pow_right (by decide) ?_)
  rw [unitField, topExponent]
  omega

/-- The largest finite double in units. -/
theorem mul_units_le (h : n ≤ largest * d) :
    n * units ≤ (2 ^ 53 - 1) * 2 ^ (topExponent + unitsLog) * d := by
  have hassoc : largest * d * units = (2 ^ 53 - 1) * 2 ^ (topExponent + unitsLog) * d := by
    rw [largest, units, pow_add]
    ring
  have hmul := Nat.mul_le_mul_right units h
  rwa [hassoc] at hmul

/-- The unit that is rounded to is not above that of the largest finite double. -/
theorem unitExponent_le (hd : 0 < d) (h : n ≤ largest * d) :
    unitExponent n d ≤ topExponent + unitsLog := by
  rcases (unitExponent_bounds n d).2 with hzero | hQ
  · rw [hzero]
    exact Nat.zero_le _
  · have hlt : n * units / d < 2 ^ (53 + (topExponent + unitsLog)) := by
      rw [Nat.div_lt_iff_lt_mul hd, pow_add]
      refine (mul_units_le h).trans_lt (Nat.mul_lt_mul_of_pos_right ?_ hd)
      exact Nat.mul_lt_mul_of_pos_right (by decide) (Nat.pow_pos (by decide))
    have := (Nat.pow_lt_pow_iff_right (by decide)).mp (hQ.trans_lt hlt)
    omega

/-- A fraction that is at most the largest finite double is rounded to a finite one. -/
theorem isFinite_ofFraction {neg : Bool} (hd : 0 < d) (h : n ≤ largest * d) :
    isFinite (ofFraction neg n d) = true := by
  obtain ⟨hm, hnormal⟩ := roundHalfEven_bounds (n := n) hd
  have htop := mul_units_le h
  have hk := unitExponent_le hd h
  rw [ofFraction, isFinite_ofMagnitude (min_le_right _ _)]
  refine (min_le_left _ _).trans_lt ?_
  have hpos : 0 < d * 2 ^ unitExponent n d := Nat.mul_pos hd (Nat.pow_pos (by decide))
  have hspec := (roundHalfEven_spec (n * units) hpos).2
  generalize unitExponent n d = k at *
  generalize n * units = N at *
  generalize roundHalfEven N (d * 2 ^ k) = m at *
  have hexp : topExponent + unitsLog = 2045 := rfl
  rw [infinityMagnitude]
  generalize topExponent + unitsLog = top at *
  rcases hk.lt_or_eq with hlt | heq
  · omega
  · have hprod : 2 * m * (d * 2 ^ k) ≤ (2 * (2 ^ 53 - 1) + 1) * (d * 2 ^ k) := by
      rw [← heq] at htop
      calc 2 * m * (d * 2 ^ k) ≤ 2 * N + d * 2 ^ k := hspec
        _ ≤ 2 * ((2 ^ 53 - 1) * 2 ^ k * d) + d * 2 ^ k := by omega
        _ = (2 * (2 ^ 53 - 1) + 1) * (d * 2 ^ k) := by ring
    have := Nat.le_of_mul_le_mul_right hprod hpos
    omega

end Rounding

/-! ## Numbers that are doubles -/

/-- A number with at most 53 bits, times a power of two, in units. -/
theorem exists_scaled_eq {k : ℕ} (hk : k ≤ 2044) {m : ℕ} (hm : m < 2 ^ 53) :
    ∃ b, isNegative b = false ∧ scaled b = m * 2 ^ k := by
  induction k generalizing m with
  | zero =>
      have hfinite : 0 * 2 ^ 52 + m < infinityMagnitude := by
        rw [infinityMagnitude]
        omega
      exact ⟨_, isNegative_ofMagnitude (hfinite.trans (by decide)),
        scaled_ofMagnitude hm.le (.inl rfl) hfinite⟩
  | succ k ih =>
      rcases lt_or_ge m (2 ^ 52) with hsmall | hlarge
      · obtain ⟨b, hneg, hb⟩ := ih (by omega) (show 2 * m < 2 ^ 53 by omega)
        refine ⟨b, hneg, ?_⟩
        rw [hb, pow_succ]
        ring
      · have hfinite : (k + 1) * 2 ^ 52 + m < infinityMagnitude := by
          rw [infinityMagnitude]
          omega
        exact ⟨_, isNegative_ofMagnitude (hfinite.trans (by decide)),
          scaled_ofMagnitude hm.le (.inr hlarge) hfinite⟩

/-- A number with at most 53 bits, over a power of two. -/
theorem exists_toRat_eq {j m : ℕ} (hj : j ≤ unitsLog) (hm : m < 2 ^ 53) :
    ∃ b, toRat b = m / 2 ^ j := by
  have hk : unitsLog - j ≤ 2044 := by
    rw [unitsLog]
    omega
  obtain ⟨b, hneg, hb⟩ := exists_scaled_eq hk hm
  have hunits : (units : ℚ) = 2 ^ (unitsLog - j) * 2 ^ j := by
    rw [units, ← pow_add, Nat.sub_add_cancel hj]
    push_cast
    rfl
  refine ⟨b, ?_⟩
  rw [toRat_eq, hneg, hb, hunits]
  push_cast
  field_simp

/-- A double below `2 ^ 53` without a sign is such a number. -/
theorem exists_eq_div {b : Bits} (hneg : isNegative b = false) (hlt : toRat b < 2 ^ 53) :
    ∃ j m : ℕ, j ≤ unitsLog ∧ m < 2 ^ 53 ∧ toRat b = m / 2 ^ j := by
  have hunit := one_le_unitField b
  rcases le_or_gt (unitField b) 1075 with hle | hgt
  · refine ⟨1075 - unitField b, significand b, ?_, significand_lt b, ?_⟩
    · rw [unitsLog]
      omega
    · have hzero : unitField b - 1075 = 0 := by omega
      rw [toRat, hneg, num, den, hzero]
      push_cast
      simp
  · -- The unit is two at least, and there are `2 ^ 52` of it.
    have hfield : exponentField b ≠ 0 := by
      intro hzero
      rw [unitField, hzero] at hgt
      exact absurd hgt (by decide)
    have hnum : 2 ^ 53 ≤ num b := by
      rw [num, significand, if_neg hfield]
      calc 2 ^ 53 = 2 ^ 52 * 2 ^ 1 := by norm_num
        _ ≤ (2 ^ 52 + fractionField b) * 2 ^ (unitField b - 1075) :=
          Nat.mul_le_mul (Nat.le_add_right _ _) (Nat.pow_le_pow_right (by decide) (by omega))
    have hden : den b = 1 := by
      rw [den, show 1075 - unitField b = 0 by omega, pow_zero]
    rw [toRat, hneg, hden] at hlt
    have hnum' : (2 ^ 53 : ℚ) ≤ num b := by exact_mod_cast hnum
    simp only [Bool.false_eq_true, if_false, one_mul, Nat.cast_one, div_one] at hlt
    exact absurd hlt (not_lt.mpr hnum')

/-! ## Arithmetic -/

/-- The double nearest to a rational number. -/
def ofRat (q : ℚ) : Bits := ofFraction (q < 0) q.num.natAbs q.den

/-- The sum of two finite doubles.  That a zero may have a sign is left out. -/
def add (a b : Bits) : Bits := ofRat (toRat a + toRat b)

/-- The difference of two finite doubles. -/
def sub (a b : Bits) : Bits := ofRat (toRat a - toRat b)

/-- The product of two finite doubles. -/
def mul (a b : Bits) : Bits := ofRat (toRat a * toRat b)

/-- The quotient of two finite doubles, the second one not zero. -/
def div (a b : Bits) : Bits := ofRat (toRat a / toRat b)

theorem isNegative_ofRat {q : ℚ} (hq : 0 ≤ q) : isNegative (ofRat q) = false := by
  rw [ofRat, isNegative_ofFraction]
  exact decide_eq_false (not_lt.mpr hq)

/-- A double without a sign is not below zero. -/
theorem toRat_nonneg {b : Bits} (h : isNegative b = false) : 0 ≤ toRat b := by
  rw [toRat, h]
  simp only [Bool.false_eq_true, if_false, one_mul]
  positivity

theorem fraction_num_den {q : ℚ} (hq : 0 ≤ q) :
    fraction (q < 0) q.num.natAbs q.den = q := by
  have hnum : ((q.num.natAbs : ℤ) : ℚ) = q.num := by
    rw [Int.natAbs_of_nonneg (Rat.num_nonneg.mpr hq)]
  rw [fraction, decide_eq_false (not_lt.mpr hq)]
  simp only [Bool.false_eq_true, if_false, one_mul]
  rw [← Int.cast_natCast, hnum, Rat.num_div_den]

/-- No double is nearer to a number than the rounded one. -/
theorem ofRat_nearest {q : ℚ} (hq : 0 ≤ q) (hle : q ≤ 2 ^ 53) (b : Bits) :
    |toRat (ofRat q) - q| ≤ |toRat b - q| := by
  have hlargest : q.num.natAbs ≤ largest * q.den := by
    have hden : (0 : ℚ) < q.den := Nat.cast_pos.mpr q.den_pos
    have hnum : (q.num.natAbs : ℚ) = q * q.den := by
      rw [← div_eq_iff hden.ne']
      have := fraction_num_den hq
      rwa [fraction, decide_eq_false (not_lt.mpr hq), if_neg Bool.false_ne_true, one_mul] at this
    have htwo : (2 ^ 53 : ℚ) ≤ largest := by
      exact_mod_cast (by decide +kernel : 2 ^ 53 ≤ largest)
    have hbound : (q.num.natAbs : ℚ) ≤ largest * q.den := by
      rw [hnum]
      exact mul_le_mul_of_nonneg_right (hle.trans htwo) hden.le
    exact_mod_cast hbound
  have hfinite : isFinite (ofFraction (decide (q < 0)) q.num.natAbs q.den) = true :=
    isFinite_ofFraction q.den_pos hlargest
  have hnearest := ofFraction_nearest q.den_pos hfinite b
  rw [fraction_num_den hq] at hnearest
  rw [ofRat]
  exact hnearest

/-- A number that is a double is not changed. -/
theorem toRat_ofRat {j m : ℕ} (hj : j ≤ unitsLog) (hm : m < 2 ^ 53) :
    toRat (ofRat (m / 2 ^ j)) = m / 2 ^ j := by
  have hm' : (m : ℚ) < 2 ^ 53 := by exact_mod_cast hm
  have hpow : (1 : ℚ) ≤ 2 ^ j := one_le_pow₀ (by norm_num)
  have hle : (m / 2 ^ j : ℚ) ≤ 2 ^ 53 := (div_le_self (Nat.cast_nonneg m) hpow).trans hm'.le
  obtain ⟨b, hb⟩ := exists_toRat_eq hj hm
  have hnearest := ofRat_nearest (by positivity) hle b
  rw [hb, sub_self, abs_zero] at hnearest
  exact sub_eq_zero.mp (abs_nonpos_iff.mp hnearest)

theorem toRat_ofRat_natCast {m : ℕ} (hm : m < 2 ^ 53) : toRat (ofRat m) = m := by
  have h := toRat_ofRat (Nat.zero_le _) hm
  rwa [pow_zero, div_one] at h

theorem toRat_ofRat_intCast {n : ℤ} (hn : 0 ≤ n) (hlt : n < 2 ^ 53) : toRat (ofRat n) = n := by
  obtain ⟨m, rfl⟩ := Int.eq_ofNat_of_zero_le hn
  rw [Int.cast_natCast]
  exact toRat_ofRat_natCast (by omega)

/-- Below `2 ^ (53 - j)` the error is at most `2 ^ -j`. -/
theorem abs_ofRat_sub_le {q : ℚ} {j : ℕ} (hj : j ≤ unitsLog) (hq : 0 ≤ q)
    (hlt : q * 2 ^ j < 2 ^ 53) : |toRat (ofRat q) - q| ≤ 1 / 2 ^ j := by
  have hpow : (1 : ℚ) ≤ 2 ^ j := one_le_pow₀ (by norm_num)
  have hpos : (0 : ℚ) < 2 ^ j := by positivity
  have hle : q ≤ 2 ^ 53 := (le_mul_of_one_le_right hq hpow).trans hlt.le
  have hfloor : (⌊q * 2 ^ j⌋₊ : ℚ) ≤ q * 2 ^ j := Nat.floor_le (by positivity)
  have hceil : q * 2 ^ j < ⌊q * 2 ^ j⌋₊ + 1 := Nat.lt_floor_add_one _
  have hm : ⌊q * 2 ^ j⌋₊ < 2 ^ 53 := by exact_mod_cast hfloor.trans_lt hlt
  obtain ⟨b, hb⟩ := exists_toRat_eq hj hm
  refine (ofRat_nearest hq hle b).trans ?_
  rw [hb, abs_le, neg_le_sub_iff_le_add, tsub_le_iff_right, ← add_div, div_add' _ _ _ hpos.ne',
    div_le_div_iff_of_pos_right hpos, le_div_iff₀ hpos]
  exact ⟨hceil.le, by linarith⟩

/-- What is left of a double that is one at least is a double. -/
theorem toRat_sub_one {b : Bits} (hneg : isNegative b = false) (hone : 1 ≤ toRat b)
    (hlt : toRat b < 2 ^ 53) : toRat (sub b (ofRat ((1 : ℤ) : ℚ))) = toRat b - 1 := by
  obtain ⟨j, m, hj, hm, heq⟩ := exists_eq_div hneg hlt
  have hpos : (0 : ℚ) < 2 ^ j := by positivity
  have hle : 2 ^ j ≤ m := by
    rw [heq, le_div_iff₀ hpos, one_mul] at hone
    exact_mod_cast hone
  have hleft : (m / 2 ^ j - 1 : ℚ) = (m - 2 ^ j : ℕ) / 2 ^ j := by
    rw [Nat.cast_sub hle, sub_div]
    push_cast
    rw [div_self hpos.ne']
  have hone' := toRat_ofRat_intCast (n := 1) (by decide) (by decide)
  rw [sub, hone', Int.cast_one, heq, hleft]
  exact toRat_ofRat hj ((Nat.sub_le _ _).trans_lt hm)

-- A proof about doubles that are given by numbers is not to evaluate them.
attribute [irreducible] ofRat

end Binary64
