import IotEdge.Lib.Binary64

/-!
# The token bucket in doubles

`tb_tokens` is a `double`, and `token_bucket_consume` rounds twice when it adds the tokens for
the time since the last call: once in the division by 1000 and once in the sum.  With the
capacity and the rate of `main` nothing else is rounded: the products are small integers, and
what is left of a token that is taken is a double (`Binary64.toRat_sub_one`).

So a call adds what the clock says and `2 ^ -44` of a token for each millisecond
(`Filled.refill_le`).  Behind two seconds the bucket is full, and there is no error at all.
-/

namespace IotEdge

open Binary64

/-- The static variables of `token_bucket.c`. -/
structure DoubleBucket where
  capacity : Int
  /-- `tb_rate`, in tokens a second. -/
  rate : Int
  tokens : Bits
  lastTimeMs : Int
deriving DecidableEq

namespace DoubleBucket

/-- `token_bucket_init`, at the clock reading `now`. -/
def init (capacity rate now : Int) : DoubleBucket where
  capacity := capacity
  rate := rate
  tokens := ofRat capacity
  lastTimeMs := now

/-- The first half of `token_bucket_consume`, at the clock reading `now`. -/
def refill (tb : DoubleBucket) (now : Int) : DoubleBucket :=
  let elapsedMs := now - tb.lastTimeMs
  if 0 < elapsedMs then
    let addedTokens := div (mul (ofRat elapsedMs) (ofRat tb.rate)) (ofRat (1000 : Int))
    let tokens := add tb.tokens addedTokens
    { tb with
      tokens := if toRat (ofRat tb.capacity) < toRat tokens then ofRat tb.capacity else tokens
      lastTimeMs := now }
  else tb

/-- `token_bucket_consume`, at the clock reading `now`. -/
def consume (tb : DoubleBucket) (count now : Int) : Bool × DoubleBucket :=
  let tb := tb.refill now
  if toRat (ofRat count) ≤ toRat tb.tokens then
    (true, { tb with tokens := sub tb.tokens (ofRat count) })
  else (false, tb)

/-! ## The bucket of `main` -/

/-- The bucket is the one of `main`, not overdrawn and not over its capacity. -/
structure Filled (tb : DoubleBucket) : Prop where
  rate : tb.rate = 50
  capacity : tb.capacity = 100
  nonneg : isNegative tb.tokens = false
  tokens_le : toRat tb.tokens ≤ 100

variable {tb : DoubleBucket}

theorem filled_init (now : Int) : (init 100 50 now).Filled where
  rate := rfl
  capacity := rfl
  nonneg := isNegative_ofRat (q := (100 : ℤ)) (by norm_num)
  tokens_le := (toRat_ofRat_intCast (n := 100) (by norm_num) (by norm_num)).trans_le (by norm_num)

/-- The clock reading of the bucket does not go back. -/
theorem lastTimeMs_refill (tb : DoubleBucket) (now : Int) :
    (tb.refill now).lastTimeMs = max tb.lastTimeMs now := by
  simp only [refill]
  split
  next hpos => exact (max_eq_right (sub_pos.mp hpos).le).symm
  next hpos => exact (max_eq_left (not_lt.mp fun hlt => hpos (sub_pos.mpr hlt))).symm

/-- A token that is there is taken. -/
theorem consume_of_le {count now : Int}
    (h : toRat (ofRat count) ≤ toRat (tb.refill now).tokens) : tb.consume count now =
      (true, { tb.refill now with tokens := sub (tb.refill now).tokens (ofRat count) }) :=
  if_pos h

theorem consume_of_lt {count now : Int}
    (h : ¬ toRat (ofRat count) ≤ toRat (tb.refill now).tokens) :
    tb.consume count now = (false, tb.refill now) :=
  if_neg h

theorem lastTimeMs_consume (tb : DoubleBucket) (count now : Int) :
    (tb.consume count now).2.lastTimeMs = (tb.refill now).lastTimeMs := by
  by_cases h : toRat (ofRat count) ≤ toRat (tb.refill now).tokens
  · simp only [consume_of_le h]
  · simp only [consume_of_lt h]

theorem Filled.refill (h : tb.Filled) (now : Int) : (tb.refill now).Filled := by
  have hcapacity : toRat (ofRat (tb.capacity : ℚ)) = 100 := by
    rw [h.capacity, toRat_ofRat_intCast (by norm_num) (by norm_num)]
    norm_num
  simp only [DoubleBucket.refill]
  split
  next hpos =>
    have hrate : (0 : ℚ) ≤ tb.rate := by
      rw [h.rate]
      norm_num
    have hadded : 0 ≤ toRat (div (mul (ofRat ((now - tb.lastTimeMs : Int) : ℚ)) (ofRat tb.rate))
        (ofRat (1000 : Int))) := by
      have helapsed := toRat_nonneg (isNegative_ofRat
        (by exact_mod_cast hpos.le : (0 : ℚ) ≤ ((now - tb.lastTimeMs : Int) : ℚ)))
      have hproduct := toRat_nonneg (isNegative_ofRat
        (mul_nonneg helapsed (toRat_nonneg (isNegative_ofRat hrate))))
      exact toRat_nonneg (isNegative_ofRat (div_nonneg hproduct
        (toRat_nonneg (isNegative_ofRat (by norm_num)))))
    have htokens := toRat_nonneg h.nonneg
    refine ⟨h.rate, h.capacity, ?_, ?_⟩
    · dsimp only
      split
      next =>
        rw [h.capacity]
        exact isNegative_ofRat (by norm_num)
      next => exact isNegative_ofRat (add_nonneg htokens hadded)
    · dsimp only
      split
      next => exact hcapacity.le
      next hfit => exact (not_lt.mp hfit).trans_eq hcapacity
  next => exact h

/-- The tokens for less than two seconds. -/
theorem added_le {n : ℤ} (hpos : 0 < n) (hlt : n < 2000) :
    0 ≤ toRat (div (mul (ofRat n) (ofRat (50 : ℤ))) (ofRat (1000 : ℤ))) ∧
      toRat (div (mul (ofRat n) (ofRat (50 : ℤ))) (ofRat (1000 : ℤ))) ≤ n / 20 + 1 / 2 ^ 46 := by
  have hproduct : toRat (mul (ofRat n) (ofRat (50 : ℤ))) = n * 50 := by
    rw [mul, toRat_ofRat_intCast hpos.le (by omega), toRat_ofRat_intCast (by norm_num) (by norm_num),
      ← Int.cast_mul, toRat_ofRat_intCast (by omega) (by omega)]
    push_cast
    rfl
  have hpos' : (0 : ℚ) < n := by exact_mod_cast hpos
  have hlt' : (n : ℚ) < 2000 := by exact_mod_cast hlt
  have hnonneg : (0 : ℚ) ≤ n * 50 / (1000 : ℤ) := by positivity
  have herror := abs_ofRat_sub_le (j := 46) (by decide) hnonneg (by norm_num; linarith)
  rw [div, hproduct, toRat_ofRat_intCast (by norm_num) (by norm_num)]
  refine ⟨toRat_nonneg (isNegative_ofRat hnonneg), ?_⟩
  have hle := (abs_le.mp herror).2
  push_cast at hle ⊢
  linarith

/-- A call adds the tokens of the clock, and almost nothing more. -/
theorem Filled.refill_le (h : tb.Filled) (now : Int) : toRat (tb.refill now).tokens ≤
    toRat tb.tokens + ((tb.refill now).lastTimeMs - tb.lastTimeMs) * (1 / 20 + 1 / 2 ^ 44) := by
  have hle := (h.refill now).tokens_le
  have htokens := toRat_nonneg h.nonneg
  by_cases hpos : 0 < now - tb.lastTimeMs
  · have htime : (tb.refill now).lastTimeMs = now := by
      rw [lastTimeMs_refill, max_eq_right (sub_pos.mp hpos).le]
    have hrefill : toRat (tb.refill now).tokens ≤ toRat (add tb.tokens
        (div (mul (ofRat (now - tb.lastTimeMs : ℤ)) (ofRat (50 : ℤ))) (ofRat (1000 : ℤ)))) := by
      simp only [DoubleBucket.refill]
      rw [if_pos hpos, h.rate]
      dsimp only
      split
      next hover => exact hover.le
      next => exact le_refl _
    rw [htime, ← Int.cast_sub]
    generalize now - tb.lastTimeMs = n at hpos hrefill ⊢
    have hpos' : (1 : ℚ) ≤ n := by exact_mod_cast hpos
    rcases lt_or_ge n 2000 with hlt | hge
    · obtain ⟨hadded, hadded_le⟩ := added_le hpos hlt
      have hlt' : (n : ℚ) < 2000 := by exact_mod_cast hlt
      rw [add] at hrefill
      generalize toRat (div (mul (ofRat n) (ofRat (50 : ℤ))) (ofRat (1000 : ℤ))) = added at *
      have hsum := abs_ofRat_sub_le (j := 45) (by decide) (add_nonneg htokens hadded) (by
        have := h.tokens_le
        norm_num at hadded_le ⊢
        linarith)
      have hsum_le := (abs_le.mp hsum).2
      norm_num at hadded_le hsum_le ⊢
      linarith
    · -- In two seconds the bucket is filled from empty.
      have hge' : (2000 : ℚ) ≤ n := by exact_mod_cast hge
      norm_num
      linarith
  · have hsame : tb.refill now = tb := by
      simp only [DoubleBucket.refill]
      rw [if_neg hpos]
    rw [hsame, sub_self, zero_mul, add_zero]

/-- A token that is taken is taken exactly. -/
theorem Filled.tokens_consume (h : tb.Filled) (now : Int) :
    toRat (tb.consume 1 now).2.tokens + (if (tb.consume 1 now).1 then 1 else 0) =
      toRat (tb.refill now).tokens := by
  have hrefill := h.refill now
  by_cases hle : toRat (ofRat (1 : ℤ)) ≤ toRat (tb.refill now).tokens
  · have hone : (1 : ℚ) ≤ toRat (tb.refill now).tokens := by
      rwa [toRat_ofRat_intCast (by norm_num) (by norm_num), Int.cast_one] at hle
    have hsub := toRat_sub_one hrefill.nonneg hone (hrefill.tokens_le.trans_lt (by norm_num))
    simp only [consume_of_le hle, if_true]
    rw [hsub, sub_add_cancel]
  · simp only [consume_of_lt hle, Bool.false_eq_true, if_false, add_zero]

theorem Filled.consume (h : tb.Filled) (now : Int) : (tb.consume 1 now).2.Filled := by
  have hrefill := h.refill now
  have htokens := h.tokens_consume now
  by_cases hle : toRat (ofRat (1 : ℤ)) ≤ toRat (tb.refill now).tokens
  · have hbound := hrefill.tokens_le
    simp only [consume_of_le hle, if_true] at htokens ⊢
    refine ⟨hrefill.rate, hrefill.capacity, isNegative_ofRat (sub_nonneg.mpr hle), ?_⟩
    simp only
    linarith
  · simp only [consume_of_lt hle]
    exact hrefill

/-- The tokens of a call come from the bucket or from the clock. -/
theorem Filled.consume_le (h : tb.Filled) (now : Int) :
    toRat (tb.consume 1 now).2.tokens + (if (tb.consume 1 now).1 then 1 else 0) ≤
      toRat tb.tokens +
        ((tb.consume 1 now).2.lastTimeMs - tb.lastTimeMs) * (1 / 20 + 1 / 2 ^ 44) := by
  rw [h.tokens_consume, lastTimeMs_consume]
  exact h.refill_le now

end DoubleBucket

end IotEdge
