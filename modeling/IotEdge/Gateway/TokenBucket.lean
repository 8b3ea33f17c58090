import Mathlib
import IotEdge.Lib.Saturating

/-!
# The token bucket

`token_bucket_consume` adds the tokens for the time since the last call, cuts
them at the capacity, and takes `count` of them if there are so many.  The tokens
are a `double`; here they are an exact rational number.

The tokens before each call are a saturating sum (`available_eq_level`), so the
call is admitted just when no window that ends in it would let too much through.
-/

namespace IotEdge

/-- The static variables of `token_bucket.c`. -/
structure TokenBucket where
  capacity : Int
  /-- `tb_rate`, in tokens a second. -/
  rate : Int
  tokens : ℚ
  lastTimeMs : Int
deriving DecidableEq

namespace TokenBucket

/-- `token_bucket_init`, at the clock reading `now`. -/
def init (capacity rate now : Int) : TokenBucket where
  capacity := capacity
  rate := rate
  tokens := capacity
  lastTimeMs := now

/-- The first half of `token_bucket_consume`, at the clock reading `now`. -/
def refill (tb : TokenBucket) (now : Int) : TokenBucket :=
  let elapsedMs := now - tb.lastTimeMs
  if 0 < elapsedMs then
    let tokens := tb.tokens + elapsedMs * tb.rate / 1000
    { tb with
      tokens := if tb.capacity < tokens then tb.capacity else tokens
      lastTimeMs := now }
  else tb

/-- `token_bucket_consume`, at the clock reading `now`. -/
def consume (tb : TokenBucket) (count now : Int) : Bool × TokenBucket :=
  let tb := tb.refill now
  if count ≤ tb.tokens then (true, { tb with tokens := tb.tokens - count }) else (false, tb)

/-! ## Runs -/

variable (capacity rate : Int) (t : ℕ → Int)

/-- The bucket after the calls at `t 1, ..., t k`, initialised at `t 0`. -/
def after : ℕ → TokenBucket
  | 0 => init capacity rate (t 0)
  | k + 1 => ((after k).consume 1 (t (k + 1))).2

/-- Whether call `k` is admitted.  Call 0 is the initialisation and is not. -/
def admitted : ℕ → Bool
  | 0 => false
  | k + 1 => ((after capacity rate t k).consume 1 (t (k + 1))).1

/-- The number of admitted calls among `s, ..., k - 1`. -/
def admittedCount (s k : ℕ) : ℕ :=
  ((Finset.Ico (max s 1) k).filter fun j => admitted capacity rate t j).card

/-- The tokens that call `k` finds.  Call 0 finds the full bucket. -/
def available : ℕ → ℚ
  | 0 => capacity
  | k + 1 => ((after capacity rate t k).refill (t (k + 1))).tokens

/-- The tokens that call `k` takes. -/
def taken (k : ℕ) : ℚ := if admitted capacity rate t k then 1 else 0

/-- How the tokens change from call `k` to the next, but for the capacity. -/
def change (k : ℕ) : ℚ := rate * (t (k + 1) - t k) / 1000 - taken capacity rate t k

variable {capacity rate : Int} {t : ℕ → Int}

/-! ## One call -/

@[simp] theorem capacity_refill (tb : TokenBucket) (now : Int) :
    (tb.refill now).capacity = tb.capacity := by
  rw [refill]
  split <;> rfl

@[simp] theorem rate_refill (tb : TokenBucket) (now : Int) :
    (tb.refill now).rate = tb.rate := by
  rw [refill]
  split <;> rfl

@[simp] theorem capacity_consume (tb : TokenBucket) (count now : Int) :
    (tb.consume count now).2.capacity = tb.capacity := by
  simp only [consume]
  split <;> simp

@[simp] theorem rate_consume (tb : TokenBucket) (count now : Int) :
    (tb.consume count now).2.rate = tb.rate := by
  simp only [consume]
  split <;> simp

@[simp] theorem lastTimeMs_consume (tb : TokenBucket) (count now : Int) :
    (tb.consume count now).2.lastTimeMs = (tb.refill now).lastTimeMs := by
  simp only [consume]
  split <;> rfl

/-- A clock that does not go back leaves its reading behind. -/
theorem lastTimeMs_refill {tb : TokenBucket} {now : Int} (h : tb.lastTimeMs ≤ now) :
    (tb.refill now).lastTimeMs = now := by
  simp only [refill]
  split <;> [rfl; show tb.lastTimeMs = now]
  omega

/-- Refilling adds the tokens of the elapsed time and cuts at the capacity. -/
theorem tokens_refill {tb : TokenBucket} {now : Int} (h : tb.lastTimeMs ≤ now)
    (hle : tb.tokens ≤ tb.capacity) :
    (tb.refill now).tokens =
      min (tb.capacity : ℚ) (tb.tokens + tb.rate * (now - tb.lastTimeMs) / 1000) := by
  simp only [refill]
  split
  next hpos =>
    have hcomm : tb.tokens + ((now - tb.lastTimeMs : Int) : ℚ) * tb.rate / 1000 =
        tb.tokens + tb.rate * (now - tb.lastTimeMs) / 1000 := by push_cast; ring
    simp only [hcomm]
    split
    next hover => exact (min_eq_left hover.le).symm
    next hfit => exact (min_eq_right (not_lt.mp hfit)).symm
  next hzero =>
    have heq : now = tb.lastTimeMs := by omega
    rw [heq, sub_self, mul_zero, zero_div, add_zero, min_eq_right hle]

/-- A call is admitted when it finds its tokens. -/
theorem consume_fst (tb : TokenBucket) (count now : Int) :
    (tb.consume count now).1 = true ↔ (count : ℚ) ≤ (tb.refill now).tokens := by
  simp only [consume]
  split
  next h => exact iff_of_true rfl h
  next h => exact iff_of_false (by simp) h

/-- What a call leaves. -/
theorem tokens_consume (tb : TokenBucket) (count now : Int) :
    (tb.consume count now).2.tokens =
      (tb.refill now).tokens - if (tb.consume count now).1 then (count : ℚ) else 0 := by
  simp only [consume]
  split <;> simp

/-! ## The tokens before each call -/

@[simp] theorem capacity_after (k : ℕ) : (after capacity rate t k).capacity = capacity := by
  induction k with
  | zero => rfl
  | succ k ih => rw [after, capacity_consume, ih]

@[simp] theorem rate_after (k : ℕ) : (after capacity rate t k).rate = rate := by
  induction k with
  | zero => rfl
  | succ k ih => rw [after, rate_consume, ih]

theorem lastTimeMs_after (ht : Monotone t) (k : ℕ) :
    (after capacity rate t k).lastTimeMs = t k := by
  induction k with
  | zero => rfl
  | succ k ih =>
      rw [after, lastTimeMs_consume, lastTimeMs_refill]
      rw [ih]
      exact ht (Nat.le_succ k)

/-- What call `k` leaves. -/
theorem tokens_after (k : ℕ) : (after capacity rate t k).tokens =
    available capacity rate t k - taken capacity rate t k := by
  cases k with
  | zero => simp [after, init, available, taken, admitted]
  | succ k =>
      rw [after, tokens_consume, available, taken, admitted]
      norm_num

theorem admitted_succ_iff (k : ℕ) : admitted capacity rate t (k + 1) = true ↔
    1 ≤ available capacity rate t (k + 1) := by
  rw [admitted, consume_fst, available, Int.cast_one]

theorem taken_nonneg (k : ℕ) : 0 ≤ taken capacity rate t k := by
  rw [taken]
  split <;> norm_num

/-- The tokens before the calls are a saturating sum. -/
theorem available_eq_level (ht : Monotone t) (k : ℕ) : available capacity rate t k =
    Saturating.level (capacity : ℚ) (change capacity rate t) k := by
  induction k with
  | zero => rfl
  | succ k ih =>
      have hlast : (after capacity rate t k).lastTimeMs = t k := lastTimeMs_after ht k
      have hcap : (after capacity rate t k).tokens ≤ capacity := by
        have hle : available capacity rate t k ≤ capacity := ih ▸ Saturating.level_le k
        have hnonneg : 0 ≤ taken capacity rate t k := taken_nonneg k
        rw [tokens_after]
        linarith
      rw [available, tokens_refill (by rw [hlast]; exact ht (Nat.le_succ k)) (by simpa using hcap),
        Saturating.level_succ, ← ih, capacity_after, rate_after, hlast, tokens_after, change]
      congr 1
      ring

/-! ## The contract -/

theorem admittedCount_self (k : ℕ) : admittedCount capacity rate t k k = 0 := by
  rw [admittedCount, Finset.Ico_eq_empty_of_le (le_max_left k 1), Finset.filter_empty,
    Finset.card_empty]

theorem admittedCount_succ {s k : ℕ} (hs : s ≤ k) :
    (admittedCount capacity rate t s (k + 1) : ℚ) =
      admittedCount capacity rate t s k + taken capacity rate t k := by
  rw [admittedCount, admittedCount, taken]
  cases k with
  | zero => simp [Nat.le_zero.mp hs, admitted]
  | succ k =>
      have hmax : max s 1 ≤ k + 1 := max_le hs (Nat.le_add_left 1 k)
      rw [Finset.card_filter, Finset.card_filter, Finset.sum_Ico_succ_top hmax]
      push_cast
      rfl

/-- What a window adds and takes. -/
theorem sum_change {s k : ℕ} (hs : s ≤ k) : ∑ j ∈ Finset.Ico s k, change capacity rate t j =
    rate * (t k - t s) / 1000 - admittedCount capacity rate t s k := by
  induction k, hs using Nat.le_induction with
  | base => simp [admittedCount_self]
  | succ k hs ih =>
      rw [Finset.sum_Ico_succ_top hs, ih, admittedCount_succ hs, change]
      ring

/-- The tokens before call `k` reach `x` when every window that ends in it
leaves `x`. -/
theorem le_available_iff (ht : Monotone t) {x : ℚ} {k : ℕ} : x ≤ available capacity rate t k ↔
    ∀ s ≤ k, admittedCount capacity rate t s k + x ≤ capacity + rate * (t k - t s) / 1000 := by
  rw [available_eq_level ht, Saturating.le_level_iff]
  refine forall₂_congr fun s hs => ?_
  rw [sum_change hs]
  constructor <;> intro h <;> linarith

/-- A call is admitted just when every window that ends in it has room for it. -/
theorem admitted_iff (ht : Monotone t) {k : ℕ} (hk : 1 ≤ k) : admitted capacity rate t k = true ↔
    ∀ s ≤ k, (admittedCount capacity rate t s k : ℚ) + 1 ≤
      capacity + rate * (t k - t s) / 1000 := by
  obtain ⟨j, rfl⟩ : ∃ j, k = j + 1 := ⟨k - 1, by omega⟩
  rw [admitted_succ_iff, le_available_iff ht]

/-- The bucket is never overdrawn and never over its capacity. -/
theorem tokens_mem (hC : 1 ≤ capacity) (hR : 0 ≤ rate) (ht : Monotone t) (k : ℕ) :
    0 ≤ (after capacity rate t k).tokens ∧ (after capacity rate t k).tokens ≤ capacity := by
  have hC' : (1 : ℚ) ≤ capacity := by exact_mod_cast hC
  have hR' : (0 : ℚ) ≤ rate := by exact_mod_cast hR
  induction k with
  | zero =>
      rw [after, init]
      exact ⟨by linarith, le_refl _⟩
  | succ k ih =>
      have hlast : (after capacity rate t k).lastTimeMs = t k := lastTimeMs_after ht k
      have hstep : t k ≤ t (k + 1) := ht (Nat.le_succ k)
      have hstep' : (0 : ℚ) ≤ t (k + 1) - t k := by
        have : (t k : ℚ) ≤ t (k + 1) := by exact_mod_cast hstep
        linarith
      have hcap : (after capacity rate t k).tokens ≤ (after capacity rate t k).capacity := by
        rw [capacity_after]
        exact ih.2
      have hrefill := tokens_refill (hlast.trans_le hstep) hcap
      rw [capacity_after, rate_after, hlast] at hrefill
      have hadd : (0 : ℚ) ≤ rate * (t (k + 1) - t k) / 1000 := by positivity
      have hnonneg : 0 ≤ available capacity rate t (k + 1) := by
        rw [available, hrefill]
        exact le_min (by linarith) (by linarith [ih.1])
      have hle : available capacity rate t (k + 1) ≤ capacity := by
        rw [available, hrefill]
        exact min_le_left _ _
      have htaken : 0 ≤ taken capacity rate t (k + 1) := taken_nonneg (k + 1)
      rw [tokens_after]
      refine ⟨?_, by linarith⟩
      rw [taken]
      split
      next hadm =>
        have := (admitted_succ_iff k).mp hadm
        linarith
      next => linarith

/-- The admitted calls up to `n` with a clock reading in `[a, a + T]`. -/
def window (capacity rate : Int) (t : ℕ → Int) (n : ℕ) (a T : ℚ) : Finset ℕ :=
  (Finset.Icc 1 n).filter fun k => admitted capacity rate t k ∧ a ≤ t k ∧ (t k : ℚ) ≤ a + T

/-- The admitted calls of a window lie between its first and its last. -/
theorem window_subset {n : ℕ} {a T : ℚ} (h : (window capacity rate t n a T).Nonempty) :
    window capacity rate t n a T ⊆
      insert ((window capacity rate t n a T).max' h)
        ((Finset.Ico (max ((window capacity rate t n a T).min' h) 1)
          ((window capacity rate t n a T).max' h)).filter fun j => admitted capacity rate t j) := by
  intro k hk
  have hmin := Finset.min'_le _ k hk
  have hmax := Finset.le_max' _ k hk
  obtain ⟨hrange, hadm, -, -⟩ := Finset.mem_filter.mp hk
  rcases hmax.lt_or_eq with hlt | heq
  · refine Finset.mem_insert_of_mem (Finset.mem_filter.mpr ⟨Finset.mem_Ico.mpr ⟨?_, hlt⟩, hadm⟩)
    exact max_le hmin (Finset.mem_Icc.mp hrange).1
  · exact heq ▸ Finset.mem_insert_self _ _

/-- No window of length `T` lets more than `C + R * T / 1000` calls through. -/
theorem card_window_le (hC : 1 ≤ capacity) (hR : 0 ≤ rate) (ht : Monotone t) (n : ℕ) (a T : ℚ)
    (hT : 0 ≤ T) : ((window capacity rate t n a T).card : ℚ) ≤ capacity + rate * T / 1000 := by
  have hR' : (0 : ℚ) ≤ rate := by exact_mod_cast hR
  rcases (window capacity rate t n a T).eq_empty_or_nonempty with hempty | hne
  · have hC' : (1 : ℚ) ≤ capacity := by exact_mod_cast hC
    rw [hempty, Finset.card_empty, Nat.cast_zero]
    positivity
  · have hfirst := Finset.min'_mem _ hne
    have hlast := Finset.max'_mem _ hne
    have hsub := Finset.card_le_card (window_subset hne)
    set first := (window capacity rate t n a T).min' hne
    set last := (window capacity rate t n a T).max' hne
    obtain ⟨hrange, hadm, -, hend⟩ := Finset.mem_filter.mp hlast
    obtain ⟨-, -, hstart, -⟩ := Finset.mem_filter.mp hfirst
    have hcount : ((window capacity rate t n a T).card : ℚ) ≤
        admittedCount capacity rate t first last + 1 := by
      exact_mod_cast hsub.trans (Finset.card_insert_le _ _)
    have hroom := (admitted_iff ht (Finset.mem_Icc.mp hrange).1).mp hadm first
      (Finset.min'_le_max' _ hne)
    have hlength : (rate : ℚ) * (t last - t first) / 1000 ≤ rate * T / 1000 := by
      have : (t last : ℚ) - t first ≤ T := by linarith
      gcongr
    linarith

/-- The bucket enforces its traffic contract, and drops nothing else. -/
theorem token_bucket_contract {capacity rate : Int} (hC : 1 ≤ capacity) (hR : 0 ≤ rate)
    {t : ℕ → Int} (ht : Monotone t) :
    (∀ k, 0 ≤ (after capacity rate t k).tokens ∧ (after capacity rate t k).tokens ≤ capacity) ∧
      (∀ k, 1 ≤ k → (admitted capacity rate t k = true ↔
        ∀ s ≤ k, (admittedCount capacity rate t s k : ℚ) + 1 ≤
          capacity + rate * (t k - t s) / 1000)) ∧
      ∀ n a T, 0 ≤ T →
        ((window capacity rate t n a T).card : ℚ) ≤ capacity + rate * T / 1000 :=
  ⟨tokens_mem hC hR ht, fun _ => admitted_iff ht, card_window_le hC hR ht⟩

/-- The bucket of the gateway, asked once a millisecond. -/
theorem token_bucket_contract_gateway :
    admitted 100 50 (fun k => k) 1 = true ↔ ∀ s ≤ 1,
      (admittedCount 100 50 (fun k => k) s 1 : ℚ) + 1 ≤ 100 + 50 * (1 - s) / 1000 := by
  have h := (token_bucket_contract (show (1 : Int) ≤ 100 by decide) (show (0 : Int) ≤ 50 by decide)
    (t := fun k => (k : Int)) fun _ _ hle => Int.ofNat_le.mpr hle).2.1 1 (le_refl 1)
  exact_mod_cast h

end TokenBucket

end IotEdge
