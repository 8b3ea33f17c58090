import IotEdge.Gateway.TokenBucket

/-!
# Clock steps

`get_time_ms` reads the wall clock, which can be set back.  Then `elapsed_ms` is negative
and `token_bucket_consume` adds nothing, and `tb_last_time_ms` stays where it was.  So no
token is added until the clock has come to the latest reading again, however long that
takes.

`recovers_iff` compares this with a limiter that counts from the call before.
-/

namespace IotEdge

namespace TokenBucket

/-- A call of `token_bucket_consume`. -/
structure Call where
  count : Int
  /-- What `get_time_ms` returns. -/
  now : Int

/-- The bucket after some calls. -/
def consumeAll (tb : TokenBucket) (calls : List Call) : TokenBucket :=
  calls.foldl (fun tb call => (tb.consume call.count call.now).2) tb

/-! ## The reference time -/

theorem lastTimeMs_refill_eq (tb : TokenBucket) (now : Int) :
    (tb.refill now).lastTimeMs = max tb.lastTimeMs now := by
  simp only [refill]
  split
  next hpos => exact (max_eq_right (sub_pos.mp hpos).le).symm
  next hstay => exact (max_eq_left (by omega)).symm

/-- The reference time is the latest reading. -/
theorem lastTimeMs_consumeAll_le_iff {tb : TokenBucket} {calls : List Call} {x : Int} :
    (tb.consumeAll calls).lastTimeMs ≤ x ↔ tb.lastTimeMs ≤ x ∧ ∀ call ∈ calls, call.now ≤ x := by
  induction calls generalizing tb with
  | nil => simp [consumeAll]
  | cons call calls ih =>
      rw [consumeAll, List.foldl_cons, ← consumeAll, ih, lastTimeMs_consume,
        lastTimeMs_refill_eq, max_le_iff, List.forall_mem_cons, and_assoc]

/-! ## Calls that find tokens -/

theorem tokens_refill_nonneg {tb : TokenBucket} (hC : 0 ≤ tb.capacity) (hR : 0 ≤ tb.rate)
    (h : 0 ≤ tb.tokens) (now : Int) : 0 ≤ (tb.refill now).tokens := by
  have hC' : (0 : ℚ) ≤ tb.capacity := by exact_mod_cast hC
  have hR' : (0 : ℚ) ≤ tb.rate := by exact_mod_cast hR
  simp only [refill]
  split
  next hpos =>
    have hpos' : (0 : ℚ) < ((now - tb.lastTimeMs : Int) : ℚ) := by exact_mod_cast hpos
    dsimp only
    split
    next => exact hC'
    next => positivity
  next => exact h

/-- The bucket is never overdrawn, whatever the clock shows. -/
theorem tokens_consume_nonneg {tb : TokenBucket} (hC : 0 ≤ tb.capacity) (hR : 0 ≤ tb.rate)
    (h : 0 ≤ tb.tokens) (count now : Int) : 0 ≤ (tb.consume count now).2.tokens := by
  simp only [consume]
  split
  next hle =>
    dsimp only
    linarith
  next => exact tokens_refill_nonneg hC hR h now

@[simp] theorem capacity_consumeAll (tb : TokenBucket) (calls : List Call) :
    (tb.consumeAll calls).capacity = tb.capacity := by
  induction calls generalizing tb with
  | nil => rfl
  | cons call calls ih => rw [consumeAll, List.foldl_cons, ← consumeAll, ih, capacity_consume]

@[simp] theorem rate_consumeAll (tb : TokenBucket) (calls : List Call) :
    (tb.consumeAll calls).rate = tb.rate := by
  induction calls generalizing tb with
  | nil => rfl
  | cons call calls ih => rw [consumeAll, List.foldl_cons, ← consumeAll, ih, rate_consume]

theorem tokens_consumeAll_nonneg {tb : TokenBucket} (hC : 0 ≤ tb.capacity) (hR : 0 ≤ tb.rate)
    (h : 0 ≤ tb.tokens) (calls : List Call) : 0 ≤ (tb.consumeAll calls).tokens := by
  induction calls generalizing tb with
  | nil => exact h
  | cons call calls ih =>
      rw [consumeAll, List.foldl_cons, ← consumeAll]
      exact ih (by rwa [capacity_consume]) (by rwa [rate_consume])
        (tokens_consume_nonneg hC hR h _ _)

/-- A call finds the tokens of the time since the reference time, up to the capacity. -/
theorem consume_admitted {tb : TokenBucket} (h : 0 ≤ tb.tokens) {u v n : Int}
    (hu : tb.lastTimeMs ≤ u) (huv : u < v) (hn : 1000 * n ≤ (v - u) * tb.rate)
    (hR : 0 ≤ tb.rate) (hcap : n ≤ tb.capacity) : (tb.consume n v).1 = true := by
  rw [consume_fst]
  simp only [refill]
  rw [if_pos (by omega)]
  dsimp only
  split
  next => exact_mod_cast hcap
  next =>
    have hlonger : (v - u) * tb.rate ≤ (v - tb.lastTimeMs) * tb.rate :=
      mul_le_mul_of_nonneg_right (by omega) hR
    have hn' : (1000 : ℚ) * n ≤ ((v - tb.lastTimeMs : Int) : ℚ) * tb.rate := by
      exact_mod_cast hn.trans hlonger
    linarith

/-! ## Calls that find none -/

/-- A full bucket stays full until something is taken. -/
theorem tokens_refill_full {tb : TokenBucket} (h : tb.tokens = tb.capacity) (hR : 0 ≤ tb.rate)
    (now : Int) : (tb.refill now).tokens = tb.capacity := by
  have hR' : (0 : ℚ) ≤ tb.rate := by exact_mod_cast hR
  simp only [refill]
  split
  next hpos =>
    have hpos' : (0 : ℚ) < ((now - tb.lastTimeMs : Int) : ℚ) := by exact_mod_cast hpos
    have hadd : (0 : ℚ) ≤ ((now - tb.lastTimeMs : Int) : ℚ) * tb.rate / 1000 := by positivity
    dsimp only
    split
    next => rfl
    next hle => linarith
  next => exact h

/-- Calls that take nothing leave the bucket full. -/
theorem tokens_consumeAll_full {tb : TokenBucket} (h : tb.tokens = tb.capacity)
    (hC : 0 ≤ tb.capacity) (hR : 0 ≤ tb.rate) (readings : List Int) :
    (tb.consumeAll (readings.map (Call.mk 0))).tokens = tb.capacity := by
  induction readings generalizing tb with
  | nil => exact h
  | cons now readings ih =>
      have hfull := tokens_refill_full h hR now
      have hC' : (0 : ℚ) ≤ tb.capacity := by exact_mod_cast hC
      have hkeep : (tb.consume 0 now).2.tokens = tb.capacity := by
        rw [tokens_consume, hfull]
        simp
      rw [List.map_cons, consumeAll, List.foldl_cons, ← consumeAll, ih, capacity_consume]
      · rw [hkeep, capacity_consume]
      · rwa [capacity_consume]
      · rwa [rate_consume]

/-- A call at a time at which less than one token has come since the reference time. -/
theorem consume_refused {tb : TokenBucket} (h : tb.tokens = 0) (hC : 1 ≤ tb.capacity) {now : Int}
    (hnow : (now - tb.lastTimeMs) * tb.rate < 1000) : (tb.consume 1 now).1 = false := by
  have hnow' : ((now - tb.lastTimeMs : Int) : ℚ) * tb.rate < 1000 := by exact_mod_cast hnow
  rw [← Bool.not_eq_true, consume_fst, Int.cast_one, not_le]
  simp only [refill]
  split
  next =>
    dsimp only
    rw [h]
    split
    next hover =>
      have hC' : (1 : ℚ) ≤ tb.capacity := by exact_mod_cast hC
      linarith
    next => linarith
  next =>
    rw [h]
    norm_num

/-- The calls at some readings that take nothing but the last one, which takes everything. -/
def drain (capacity : Int) (readings : List Int) (u : Int) : List Call :=
  readings.map (Call.mk 0) ++ [⟨capacity, u⟩]

theorem tokens_drain {capacity rate : Int} (hC : 0 ≤ capacity) (hR : 0 ≤ rate) (start : Int)
    (readings : List Int) (u : Int) :
    ((init capacity rate start).consumeAll (drain capacity readings u)).tokens = 0 := by
  have hstart : (init capacity rate start).tokens = (init capacity rate start).capacity := rfl
  have hfull := tokens_consumeAll_full hstart hC hR readings
  have hrate : 0 ≤ ((init capacity rate start).consumeAll (readings.map (Call.mk 0))).rate := by
    rwa [rate_consumeAll]
  have hcapacity : ((init capacity rate start).consumeAll
      (readings.map (Call.mk 0))).capacity = capacity := capacity_consumeAll _ _
  rw [drain, consumeAll, List.foldl_append, List.foldl_cons, List.foldl_nil, ← consumeAll]
  dsimp only
  generalize (init capacity rate start).consumeAll (readings.map (Call.mk 0)) = tb at *
  have htokens := tokens_refill_full (hfull.trans (congrArg _ hcapacity.symm)) hrate u
  have hadmitted : (tb.consume capacity u).1 = true := by
    rw [consume_fst, htokens, hcapacity]
  rw [tokens_consume, if_pos hadmitted, htokens, hcapacity, sub_self]

/-- With a reference time later than `u`, a drained bucket refuses a call for which one
token has come since `u`. -/
theorem exists_refused {tb : TokenBucket} (h : tb.tokens = 0) (hC : 1 ≤ tb.capacity)
    (hR : 1 ≤ tb.rate) {u : Int} (hu : u < tb.lastTimeMs) :
    ∃ v, u < v ∧ 1000 * 1 ≤ (v - u) * tb.rate ∧ (tb.consume 1 v).1 = false := by
  have hless : 999 / tb.rate * tb.rate ≤ 999 := Int.ediv_mul_le 999 (by omega)
  have hmore : 999 < (999 / tb.rate + 1) * tb.rate := Int.lt_ediv_add_one_mul_self 999 (by omega)
  have hnonneg : 0 ≤ 999 / tb.rate := Int.ediv_nonneg (by decide) (by omega)
  have helapsed : (999 / tb.rate + 1) * tb.rate ≤ (tb.lastTimeMs + 999 / tb.rate - u) * tb.rate :=
    mul_le_mul_of_nonneg_right (by omega) (by omega)
  refine ⟨tb.lastTimeMs + 999 / tb.rate, by omega, by omega, consume_refused h hC ?_⟩
  rw [add_sub_cancel_left]
  omega

/-! ## Recovery -/

/-- The reference time is the last reading if no reading was later. -/
theorem lastTimeMs_le_iff {capacity rate start u : Int} {readings : List Int} {calls : List Call}
    (hcalls : calls.map Call.now = readings ++ [u]) :
    ((init capacity rate start).consumeAll calls).lastTimeMs ≤ u ↔
      ∀ reading ∈ start :: readings, reading ≤ u := by
  have hall : (∀ call ∈ calls, call.now ≤ u) ↔ ∀ reading ∈ readings ++ [u], reading ≤ u := by
    rw [← hcalls, List.forall_mem_map]
  rw [lastTimeMs_consumeAll_le_iff, hall, List.forall_mem_append, List.forall_mem_singleton,
    List.forall_mem_cons]
  exact and_congr_right fun _ => and_iff_left (le_refl u)

/-- Whatever the calls took, a call is admitted when the time since the call before is
enough for its tokens: this holds for calls at the readings `readings` and `u`, just when
no reading was later than `u`. -/
theorem recovers_iff {capacity rate : Int} (hC : 1 ≤ capacity) (hR : 1 ≤ rate) (start : Int)
    (readings : List Int) (u : Int) :
    (∀ calls : List Call, calls.map Call.now = readings ++ [u] →
      ∀ v n, u < v → 1000 * n ≤ (v - u) * rate → 0 ≤ n → n ≤ capacity →
        (((init capacity rate start).consumeAll calls).consume n v).1 = true) ↔
      ∀ reading ∈ start :: readings, reading ≤ u := by
  have hcapacity : ∀ calls, ((init capacity rate start).consumeAll calls).capacity = capacity :=
    capacity_consumeAll _
  have hrate : ∀ calls, ((init capacity rate start).consumeAll calls).rate = rate :=
    rate_consumeAll _
  constructor
  · intro h
    have hdrain : (drain capacity readings u).map Call.now = readings ++ [u] := by
      simp [drain, Function.comp_def]
    rw [← @lastTimeMs_le_iff capacity rate start u readings _ hdrain]
    by_contra hlate
    obtain ⟨v, huv, hn, hrefused⟩ := exists_refused
      (tokens_drain (by omega) (by omega) start readings u) (by rwa [hcapacity])
      (by rwa [hrate]) (not_le.mp hlate)
    rw [hrate] at hn
    rw [h _ hdrain v 1 huv hn (by decide) hC] at hrefused
    cases hrefused
  · intro hlatest calls hcalls v n huv hn _ hcap
    have htokens : (0 : ℚ) ≤ (init capacity rate start).tokens := by
      show (0 : ℚ) ≤ capacity
      exact_mod_cast (show (0 : Int) ≤ capacity by omega)
    refine consume_admitted (tokens_consumeAll_nonneg ?_ ?_ htokens calls)
      ((lastTimeMs_le_iff hcalls).mpr hlatest) huv ?_ ?_ ?_
    · show (0 : Int) ≤ capacity
      omega
    · show (0 : Int) ≤ rate
      omega
    · rwa [hrate]
    · rw [hrate]
      omega
    · rwa [hcapacity]

/-- The bucket of the gateway, emptied by one call. -/
theorem recovers_iff_gateway :
    (((init 100 50 1000).consumeAll [⟨100, 2000⟩]).consume 1 2020).1 = true :=
  (recovers_iff (show (1 : Int) ≤ 100 by decide) (show (1 : Int) ≤ 50 by decide) 1000 [] 2000).mpr
    (by decide) [⟨100, 2000⟩] rfl 2020 1 (by decide) (by decide) (by decide) (by decide)

/-- A bucket with one token, set up at 10 s.  The clock is set back to 0 s and the token is
taken.  A second later there is no token. -/
theorem clock_set_back : ¬ ∀ (capacity rate : Int), 1 ≤ capacity → 1 ≤ rate →
    ∀ (start : Int) (calls : List Call) (last : Call) (v n : Int), last.now < v →
      1000 * n ≤ (v - last.now) * rate → 0 ≤ n → n ≤ capacity →
        (((init capacity rate start).consumeAll (calls ++ [last])).consume n v).1 = true := by
  intro h
  have hadmitted := h 1 1 (by decide) (by decide) 10000 [] ⟨1, 0⟩ 1000 1 (by decide) (by decide)
    (by decide) (by decide)
  rw [consume_fst] at hadmitted
  norm_num [consumeAll, consume, refill, init] at hadmitted

end TokenBucket

end IotEdge
