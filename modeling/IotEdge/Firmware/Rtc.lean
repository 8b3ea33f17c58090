import IotEdge.Lib.Calendar

/-!
# The clock

`set_time` writes the seconds since 1970 into the counter of the clock, and `conv_time` reads
a date and a time back out of it.  Years and months are summed up on the one side and peeled
off on the other.

The operations on 32-bit numbers are a parameter of the sum, so that one computation can be
followed with and without a check that it does not wrap.
-/

namespace IotEdge.Rtc

open Calendar

/-! ## The source -/

/-- `struct time_st`. -/
structure TimeSt where
  Y : Int
  M : Int
  D : Int
  W : Int
  h : Int
  m : Int
  s : Int
  deriving DecidableEq, Repr

/-- The registers of the counter. -/
structure Registers where
  cnth : UInt16
  cntl : UInt16
  deriving DecidableEq, Repr

/-- `RTC_SetCounter`. -/
def setCounter (counterValue : UInt32) : Registers :=
  ⟨(counterValue >>> 16).toUInt16, (counterValue &&& 0xFFFF).toUInt16⟩

/-- `RTC_GetCounter`. -/
def getCounter (registers : Registers) : UInt32 :=
  registers.cnth.toUInt32 <<< 16 ||| registers.cntl.toUInt32

/-- `monthTable`. -/
def monthTable : List UInt8 := [31, 28, 31, 30, 31, 30, 31, 31, 30, 31, 30, 31]

/-- `isLeapYear`. -/
def isLeapYear (y : UInt16) : Bool := y % 4 = 0 && y % 100 ≠ 0 || y % 400 = 0

/-- The operations on 32-bit numbers. -/
structure Arith where
  add : UInt32 → UInt32 → Option UInt32
  mul : UInt32 → UInt32 → Option UInt32

/-- The operations of the language. -/
def wrapping : Arith := ⟨fun a b => some (a + b), fun a b => some (a * b)⟩

/-- They fail when they wrap. -/
def checked : Arith where
  add a b := if a.toNat + b.toNat < 2 ^ 32 then some (a + b) else none
  mul a b := if a.toNat * b.toNat < 2 ^ 32 then some (a * b) else none

/-- The years of `set_time`. -/
def addYears (ops : Arith) (t : TimeSt) (secCount : UInt32) : Option UInt32 :=
  (List.range' 1970 (t.Y - 1970).toNat).foldlM (fun secCount i =>
    ops.add secCount (if isLeapYear (.ofNat i) then 31622400 else 31536000)) secCount

/-- The months.  There is nothing behind the table. -/
def addMonths (ops : Arith) (t : TimeSt) (secCount : UInt32) : Option UInt32 :=
  (List.range (t.M - 1).toNat).foldlM (fun secCount i => do
    let days ← monthTable[i]?
    let seconds ← ops.mul days.toUInt32 86400
    let secCount ← ops.add secCount seconds
    if isLeapYear (.ofInt t.Y) && i == 1 then ops.add secCount 86400 else some secCount) secCount

/-- The seconds that `set_time` counts. -/
def secCount (ops : Arith) (t : TimeSt) : Option UInt32 := do
  let secCount ← addYears ops t 0
  let secCount ← addMonths ops t secCount
  let days ← ops.mul (.ofInt (t.D - 1)) 86400
  let secCount ← ops.add secCount days
  let hours ← ops.mul (.ofInt t.h) 3600
  let secCount ← ops.add secCount hours
  let minutes ← ops.mul (.ofInt t.m) 60
  let secCount ← ops.add secCount minutes
  ops.add secCount (.ofInt t.s)

/-- `set_time`. -/
def setTime (registers : Registers) (t : TimeSt) : Option Registers :=
  if t.Y < 1970 ∨ t.Y > 2099 then some registers
  else (secCount wrapping t).map setCounter

/-- The loop of `conv_time` over the years. -/
def yearLoop (count tmp : Nat) : Nat × Nat :=
  if 365 ≤ count then
    if isLeapYear (.ofNat tmp) then
      if 366 ≤ count then yearLoop (count - 366) (tmp + 1) else (count, tmp + 1)
    else yearLoop (count - 365) (tmp + 1)
  else (count, tmp)
termination_by count
decreasing_by
  · omega
  · omega

theorem pos_of_monthTable {i : Nat} {days : UInt8} (h : monthTable[i]? = some days) :
    0 < days.toNat := by
  have hall : monthTable.all fun days => 0 < days.toNat := by decide
  exact of_decide_eq_true (List.all_eq_true.mp hall days (List.mem_of_getElem? h))

/-- The loop over the months. -/
def monthLoop (Y : Int) (count tmp : Nat) : Option (Nat × Nat) :=
  if 28 ≤ count then
    if isLeapYear (.ofInt Y) && tmp == 1 then
      if 29 ≤ count then monthLoop Y (count - 29) (tmp + 1) else some (count, tmp)
    else
      match _ : monthTable[tmp]? with
      | none => none
      | some days =>
          if days.toNat ≤ count then monthLoop Y (count - days.toNat) (tmp + 1)
          else some (count, tmp)
  else some (count, tmp)
termination_by count
decreasing_by
  · omega
  · have := pos_of_monthTable ‹_›
    omega

/-- The date of `conv_time`. -/
def convDate (count : Nat) (t : TimeSt) : Option TimeSt :=
  if count ≠ 0 then do
    let year := yearLoop count 1970
    let t := { t with Y := year.2 }
    let month ← monthLoop t.Y year.1 0
    return { t with M := month.2 + 1, D := month.1 + 1 }
  else some t

/-- `conv_time`. -/
def convTime (registers : Registers) (t : TimeSt) : Option TimeSt := do
  let timeCount := (getCounter registers).toNat
  let count := timeCount / 86400
  let t ← convDate count { t with W := ((4 + count) % 7 : Nat) }
  let count := timeCount % 86400
  return { t with
    h := (count / 3600 : Nat)
    m := (count % 3600 / 60 : Nat)
    s := (count % 3600 % 60 : Nat) }

/-! ## Numbers -/

@[simp] theorem getCounter_setCounter (n : UInt32) : getCounter (setCounter n) = n := by
  have hn := n.toNat_lt
  have hhigh : (n >>> 16).toUInt16.toNat = n.toNat / 2 ^ 16 := by
    rw [UInt32.toNat_toUInt16, UInt32.toNat_shiftRight, show UInt32.toNat 16 % 32 = 16 from rfl,
      Nat.shiftRight_eq_div_pow]
    exact Nat.mod_eq_of_lt (by omega)
  have hlow : (n &&& 0xFFFF).toUInt16.toNat = n.toNat % 2 ^ 16 := by
    rw [UInt32.toNat_toUInt16, UInt32.toNat_and, show UInt32.toNat 0xFFFF = 2 ^ 16 - 1 from rfl,
      Nat.and_two_pow_sub_one_eq_mod, Nat.mod_mod]
  have hword : n.toNat / 2 ^ 16 * 2 ^ 16 % 2 ^ 32 = 2 ^ 16 * (n.toNat / 2 ^ 16) := by omega
  apply UInt32.toNat_inj.mp
  rw [getCounter, setCounter, UInt32.toNat_or, UInt32.toNat_shiftLeft, UInt16.toNat_toUInt32,
    UInt16.toNat_toUInt32, hhigh, hlow, show UInt32.toNat 16 % 32 = 16 from rfl, Nat.shiftLeft_eq,
    hword, ← Nat.two_pow_add_eq_or_of_lt (Nat.mod_lt _ (by decide)), Nat.div_add_mod]

theorem isLeapYear_ofNat {year : Nat} (h : year < 65536) :
    isLeapYear (.ofNat year) = decide (IsLeap year) := by
  have hyear : (UInt16.ofNat year).toNat = year := UInt16.toNat_ofNat_of_lt' h
  rw [Bool.eq_iff_iff, decide_eq_true_iff, IsLeap]
  simp [isLeapYear, ← UInt16.toNat_inj, hyear]

theorem isLeapYear_ofInt {year : Nat} (h : year < 65536) :
    isLeapYear (.ofInt year) = decide (IsLeap year) := by
  have hyear : ((year : Int) % 2 ^ 16).toNat = year := by omega
  rw [UInt16.ofInt, hyear, isLeapYear_ofNat h]

theorem ofInt_natCast {n : Nat} (h : n < 2 ^ 32) : UInt32.ofInt n = .ofNat n := by
  have hn : ((n : Int) % 2 ^ 32).toNat = n := by omega
  rw [UInt32.ofInt, hn]

/-- The table holds the months, but for the leap day. -/
theorem monthTable_eq (year : Nat) {i : Nat} (h : i < 12) :
    ∃ days, monthTable[i]? = some days ∧
      days.toNat + (if IsLeap year ∧ i = 1 then 1 else 0) = monthLength year (i + 1) := by
  have htable : ∀ i < 12, ∃ days,
      monthTable[i]? = some days ∧ days.toNat = monthLength 1970 (i + 1) := by
    decide
  obtain ⟨days, hdays, hlength⟩ := htable i h
  refine ⟨days, hdays, ?_⟩
  have hleap : ¬ IsLeap 1970 := by decide
  rw [hlength]
  by_cases hyear : IsLeap year
  · simp only [monthLength, hleap, hyear, if_true, if_false, true_and]
    split_ifs <;> omega
  · simp only [monthLength, hleap, hyear, if_false, false_and]
    split_ifs <;> omega

/-! ## Encoding -/

/-- Operations that are exact as long as nothing wraps. -/
structure Arith.Exact (ops : Arith) : Prop where
  add : ∀ {a b : Nat}, a + b < 2 ^ 32 → ops.add (.ofNat a) (.ofNat b) = some (.ofNat (a + b))
  mul : ∀ {a b : Nat}, a * b < 2 ^ 32 → ops.mul (.ofNat a) (.ofNat b) = some (.ofNat (a * b))

theorem wrapping_exact : wrapping.Exact :=
  ⟨fun {a b} _ => congrArg some (UInt32.ofNat_add a b).symm,
    fun {a b} _ => congrArg some (UInt32.ofNat_mul a b).symm⟩

theorem checked_exact : checked.Exact := by
  refine ⟨fun {a b} h => ?_, fun {a b} h => ?_⟩
  · have hle : (UInt32.ofNat a).toNat + (UInt32.ofNat b).toNat ≤ a + b :=
      Nat.add_le_add (Nat.mod_le ..) (Nat.mod_le ..)
    rw [UInt32.ofNat_add]
    exact if_pos (hle.trans_lt h)
  · have hle : (UInt32.ofNat a).toNat * (UInt32.ofNat b).toNat ≤ a * b :=
      Nat.mul_le_mul (Nat.mod_le ..) (Nat.mod_le ..)
    rw [UInt32.ofNat_mul]
    exact if_pos (hle.trans_lt h)

theorem sum_yearLength_le {year : Nat} (h : year ≤ 2100) :
    ∑ y ∈ Finset.Ico 1970 year, yearLength y ≤ 47482 := by
  have hlast := sum_yearLength (show 1969 ≤ 2099 by omega)
  rw [show 1969 + 1 = 1970 from rfl, show 2099 + 1 = 2100 from rfl] at hlast
  have hleaps : leapYears 2099 = leapYears 1969 + 32 := by simp [leapYears]
  have hle : ∑ y ∈ Finset.Ico 1970 year, yearLength y ≤ ∑ y ∈ Finset.Ico 1970 2100, yearLength y :=
    Finset.sum_le_sum_of_subset (Finset.Ico_subset_Ico_right h)
  omega

variable {ops : Arith}

/-- The years are summed up. -/
theorem addYears_eq (hops : ops.Exact) {t : TimeSt} {year : Nat} (hyear : t.Y = year)
    (hfirst : 1970 ≤ year) (hlast : year ≤ 2099) : addYears ops t 0 =
      some (.ofNat (86400 * ∑ y ∈ Finset.Ico 1970 year, yearLength y)) := by
  obtain ⟨n, rfl⟩ := Nat.exists_eq_add_of_le hfirst
  have hn : (t.Y - 1970).toNat = n := by omega
  rw [addYears, hn]
  clear hyear hfirst hn
  induction n with
  | zero => rfl
  | succ n ih =>
      have hbound := sum_yearLength_le (show 1970 + (n + 1) ≤ 2100 by omega)
      have hsplit : ∑ y ∈ Finset.Ico 1970 (1970 + (n + 1)), yearLength y =
          ∑ y ∈ Finset.Ico 1970 (1970 + n), yearLength y + yearLength (1970 + n) :=
        Finset.sum_Ico_succ_top (Nat.le_add_right 1970 n) _
      have hseconds : (if isLeapYear (.ofNat (1970 + n)) then 31622400 else 31536000 : UInt32) =
          .ofNat (86400 * yearLength (1970 + n)) := by
        have hyear : 1970 + n < 65536 := by omega
        rw [isLeapYear_ofNat hyear, yearLength]
        by_cases hleap : IsLeap (1970 + n) <;> simp [hleap]
      rw [List.range'_concat, List.foldlM_append, ih (by omega)]
      simp only [Nat.one_mul, List.foldlM_cons, List.foldlM_nil, Option.bind_eq_bind,
        Option.bind_some]
      rw [hseconds, hops.add (by omega), ← Nat.mul_add, ← hsplit]
      rfl

/-- The months are added to them. -/
theorem addMonths_eq (hops : ops.Exact) {t : TimeSt} {year month n : Nat} (hyear : t.Y = year)
    (hmonth : t.M = month) (hlast : year ≤ 2099) (hpos : 1 ≤ month) (hle : month ≤ 12)
    (hn : n + 86400 * yearLength year < 2 ^ 32) :
    addMonths ops t (.ofNat n) =
      some (.ofNat (n + 86400 * ∑ m ∈ Finset.Ico 1 month, monthLength year m)) := by
  obtain ⟨k, rfl⟩ := Nat.exists_eq_add_of_le' hpos
  have hk : (t.M - 1).toNat = k := by omega
  rw [addMonths, hk, hyear]
  clear hyear hmonth hpos hk
  induction k with
  | zero => rfl
  | succ k ih =>
      have hsplit : ∑ m ∈ Finset.Ico 1 (k + 1 + 1), monthLength year m =
          ∑ m ∈ Finset.Ico 1 (k + 1), monthLength year m + monthLength year (k + 1) :=
        Finset.sum_Ico_succ_top (by omega) _
      have hbound : ∑ m ∈ Finset.Ico 1 (k + 1 + 1), monthLength year m ≤ yearLength year := by
        rw [← sum_monthLength]
        exact Finset.sum_le_sum_of_subset (Finset.Ico_subset_Ico_right (by omega))
      obtain ⟨days, hdays, hlength⟩ := monthTable_eq year (i := k) (by omega)
      rw [List.range_succ, List.foldlM_append, ih (by omega)]
      simp only [List.foldlM_cons, List.foldlM_nil, Option.bind_eq_bind, Option.bind_some, hdays]
      have hyear : year < 65536 := by omega
      have h86400 : (86400 : UInt32) = .ofNat 86400 := rfl
      rw [← UInt32.ofNat_uInt8ToNat, h86400, hops.mul (by omega), Option.bind_some,
        hops.add (by omega), Option.bind_some, isLeapYear_ofInt hyear]
      by_cases hleap : IsLeap year ∧ k = 1
      · rw [if_pos hleap] at hlength
        rw [if_pos (by simpa using hleap), hops.add (by omega), hsplit, ← hlength]
        exact congrArg (fun n => some (UInt32.ofNat n)) (by ring)
      · rw [if_neg hleap] at hlength
        rw [if_neg (by simpa using hleap), hsplit, ← hlength]
        exact congrArg (fun n => some (UInt32.ofNat n)) (by ring)

/-- A date and a time as the source holds them. -/
def timeSt (t : DateTime) (W : Int) : TimeSt :=
  ⟨t.year, t.month, t.day, W, t.hour, t.minute, t.second⟩

theorem number_lt {d : Date} (hfirst : 1970 ≤ d.year) (hlast : d.year ≤ 2099) :
    d.number 1970 < 47482 :=
  (d.number_lt_year hfirst (Nat.lt_succ_of_le hlast)).trans_le
    (sum_yearLength_le (Nat.le_refl 2100))

/-- The sum is the number of seconds, and nothing wraps. -/
theorem secCount_eq (hops : ops.Exact) {t : DateTime} (hfirst : 1970 ≤ t.year)
    (hlast : t.year ≤ 2099) (W : Int) :
    secCount ops (timeSt t W) = some (.ofNat (t.seconds 1970)) := by
  have hpos := t.day_pos
  have hhour := t.hour_lt
  have hminute := t.minute_lt
  have hsecond := t.second_lt
  have hyears := sum_yearLength_le (show t.year ≤ 2100 by omega)
  have hnumber := number_lt hfirst hlast
  have hday := t.day_le.trans (monthLength_le _ _)
  have hlength : yearLength t.year ≤ 366 := by
    rw [yearLength]
    split_ifs <;> omega
  have h86400 : (86400 : UInt32) = .ofNat 86400 := rfl
  have h3600 : (3600 : UInt32) = .ofNat 3600 := rfl
  have h60 : (60 : UInt32) = .ofNat 60 := rfl
  have hcast : (t.day : Int) - 1 = ((t.day - 1 : Nat) : Int) := by omega
  rw [Date.number] at hnumber
  rw [secCount, addYears_eq hops rfl hfirst hlast, Option.bind_eq_bind, Option.bind_some,
    addMonths_eq hops rfl rfl hlast t.month_pos t.month_le (by omega)]
  simp only [timeSt, hcast, Option.bind_some, h86400, h3600, h60]
  rw [ofInt_natCast (by omega), ofInt_natCast (by omega), ofInt_natCast (by omega),
    ofInt_natCast (by omega), hops.mul (by omega), Option.bind_some, hops.add (by omega),
    Option.bind_some, hops.mul (by omega), Option.bind_some, hops.add (by omega), Option.bind_some,
    hops.mul (by omega), Option.bind_some, hops.add (by omega), Option.bind_some,
    hops.add (by omega)]
  refine congrArg (fun n => some (UInt32.ofNat n)) ?_
  rw [DateTime.seconds, DateTime.secondOfDay, Date.number]
  ring

theorem seconds_lt {t : DateTime} (hfirst : 1970 ≤ t.year) (hlast : t.year ≤ 2099) :
    t.seconds 1970 < 2 ^ 32 := by
  have hnumber := number_lt hfirst hlast
  have hday := t.secondOfDay_lt
  rw [DateTime.seconds]
  omega

/-- The counter that `set_time` writes. -/
theorem setTime_eq {t : DateTime} (hfirst : 1970 ≤ t.year) (hlast : t.year ≤ 2099) (W : Int)
    (registers : Registers) :
    setTime registers (timeSt t W) = some (setCounter (.ofNat (t.seconds 1970))) := by
  have hrange : ¬ ((timeSt t W).Y < 1970 ∨ (timeSt t W).Y > 2099) := by
    simp only [timeSt]
    omega
  rw [setTime, if_neg hrange, secCount_eq wrapping_exact hfirst hlast]
  rfl

/-! ## Decoding -/

/-- A year is peeled off.  On the last day of a leap year the loop goes on to the next year. -/
theorem yearLoop_step {count year : Nat} (h : year < 65536) :
    yearLoop count year =
      if yearLength year ≤ count then yearLoop (count - yearLength year) (year + 1)
      else if IsLeap year ∧ count = 365 then (365, year + 1)
      else (count, year) := by
  rw [yearLoop, isLeapYear_ofNat h, yearLength]
  by_cases hleap : IsLeap year
  · simp only [hleap, decide_true, if_true, true_and]
    rcases lt_trichotomy count 365 with hlt | rfl | hgt
    · rw [if_neg (by omega), if_neg (by omega), if_neg (by omega)]
    · rfl
    · rw [if_pos (by omega), if_pos (by omega), if_pos (by omega)]
  · simp only [hleap, decide_false, Bool.false_eq_true, if_false, false_and]

/-- A month is peeled off. -/
theorem monthLoop_step {count year tmp : Nat} (hyear : year < 65536) (h : tmp < 12) :
    monthLoop year count tmp =
      if monthLength year (tmp + 1) ≤ count then
        monthLoop year (count - monthLength year (tmp + 1)) (tmp + 1)
      else some (count, tmp) := by
  obtain ⟨days, hdays, hlength⟩ := monthTable_eq year h
  have hle := le_monthLength year (tmp + 1)
  rw [monthLoop, isLeapYear_ofInt hyear]
  by_cases hcount : 28 ≤ count
  · rw [if_pos hcount]
    by_cases hleap : IsLeap year ∧ tmp = 1
    · obtain ⟨hleap, rfl⟩ := hleap
      have hfebruary : monthLength year (1 + 1) = 29 := by simp [monthLength, hleap]
      rw [if_pos (by simpa using hleap), hfebruary]
    · rw [if_neg hleap, Nat.add_zero] at hlength
      rw [if_neg (by simpa using hleap), ← hlength]
      split
      next hnone =>
        rw [hdays] at hnone
        cases hnone
      next days' hdays' =>
        rw [hdays, Option.some.injEq] at hdays'
        rw [hdays']
  · rw [if_neg hcount, if_neg (by omega)]

/-- All the years before a year are peeled off. -/
theorem yearLoop_eq {first year r : Nat} (h : first ≤ year) (hlast : year < 65536)
    (hr : r < yearLength year) :
    yearLoop (∑ y ∈ Finset.Ico first year, yearLength y + r) first =
      if IsLeap year ∧ r = 365 then (365, year + 1) else (r, year) := by
  induction h using Nat.decreasingInduction with
  | self =>
      rw [Finset.Ico_self, Finset.sum_empty, Nat.zero_add, yearLoop_step hlast,
        if_neg (Nat.not_le_of_lt hr)]
  | of_succ first hlt ih =>
      rw [yearLoop_step (by omega), Finset.sum_eq_sum_Ico_succ_bot hlt, if_pos (by omega),
        Nat.add_assoc, Nat.add_sub_cancel_left, ih]

/-- All the months before a month are peeled off. -/
theorem monthLoop_eq {year month tmp r : Nat} (h : tmp + 1 ≤ month) (hyear : year < 65536)
    (hmonth : month ≤ 13) (hr : r < 28 ∨ month ≤ 12 ∧ r < monthLength year month) :
    monthLoop year (∑ m ∈ Finset.Ico (tmp + 1) month, monthLength year m + r) tmp =
      some (r, month - 1) := by
  obtain ⟨n, hn⟩ : ∃ n, month = tmp + 1 + n := Nat.exists_eq_add_of_le h
  induction n generalizing tmp with
  | zero =>
      subst hn
      rw [Nat.add_zero, Finset.Ico_self, Finset.sum_empty, Nat.zero_add]
      rcases hr with hr | ⟨hlast, hr⟩
      · rw [monthLoop, if_neg (by omega)]
        rfl
      · rw [monthLoop_step hyear (by omega), if_neg (Nat.not_le_of_lt hr)]
        rfl
  | succ n ih =>
      rw [monthLoop_step hyear (by omega), Finset.sum_eq_sum_Ico_succ_bot (by omega),
        if_pos (by omega), Nat.add_assoc, Nat.add_sub_cancel_left, ih (by omega) (by omega)]

/-- Twelve months are peeled off of a year without a leap day. -/
theorem monthLoop_year {year : Nat} (hyear : year < 65536) (h : ¬ IsLeap year) :
    monthLoop year 365 0 = some (0, 12) := by
  have hlength := sum_monthLength year
  rw [yearLength, if_neg h] at hlength
  have hloop :
      monthLoop year (∑ m ∈ Finset.Ico (0 + 1) 13, monthLength year m + 0) 0 = some (0, 12) :=
    monthLoop_eq (by decide) hyear (by decide) (.inl (by decide))
  rwa [hlength] at hloop

/-- The 366th day of a year is the last day of a leap year. -/
theorem leapDayLast_iff (d : Date) :
    IsLeap d.year ∧
      ∑ month ∈ Finset.Ico 1 d.month, monthLength d.year month + (d.day - 1) = 365 ↔
        IsLeap d.year ∧ d.month = 12 ∧ d.day = 31 := by
  refine and_congr_right fun hleap => ?_
  have hpos := d.day_pos
  rw [← d.lastDay_iff, yearLength, if_pos hleap]
  omega

/-- All the months before that of a date are peeled off. -/
theorem monthLoop_date (d : Date) (hyear : d.year < 65536) :
    monthLoop d.year (∑ m ∈ Finset.Ico 1 d.month, monthLength d.year m + (d.day - 1)) 0 =
      some (d.day - 1, d.month - 1) := by
  have hpos := d.day_pos
  have hday : d.day - 1 < monthLength d.year d.month :=
    (Nat.sub_lt hpos Nat.one_pos).trans_le d.day_le
  exact monthLoop_eq d.month_pos hyear (d.month_le.trans (by decide)) (.inr ⟨d.month_le, hday⟩)

/-- The date that is read. -/
theorem convDate_eq {d : Date} (hfirst : 1970 ≤ d.year) (hlast : d.year ≤ 2099)
    (hzero : d.number 1970 ≠ 0) (t : TimeSt) : convDate (d.number 1970) t =
      if IsLeap d.year ∧ d.month = 12 ∧ d.day = 31 then
        some { t with Y := d.year + 1, M := 13, D := 1 }
      else some { t with Y := d.year, M := d.month, D := d.day } := by
  have hsplit : d.number 1970 = ∑ year ∈ Finset.Ico 1970 d.year, yearLength year +
      (∑ month ∈ Finset.Ico 1 d.month, monthLength d.year month + (d.day - 1)) := Nat.add_assoc ..
  rw [convDate, if_pos hzero, hsplit, yearLoop_eq hfirst (by omega) d.dayOfYear_lt]
  simp only [leapDayLast_iff]
  split
  next hlastDay =>
    -- the next year is not a leap year, and its twelve months have 365 days
    have hnext : ¬ IsLeap (d.year + 1) := by
      have hleap := hlastDay.1
      rw [IsLeap] at hleap ⊢
      omega
    dsimp only
    rw [monthLoop_year (by omega) hnext]
    rfl
  next hday =>
    have hmonth : ((d.month - 1 : Nat) : Int) + 1 = d.month := by
      have := d.month_pos
      omega
    have hcast : ((d.day - 1 : Nat) : Int) + 1 = d.day := by
      have := d.day_pos
      omega
    rw [← hmonth, ← hcast]
    dsimp only
    rw [monthLoop_date d (by omega)]
    rfl

/-- The date is not the last day of a leap year, and if it is the first day it was there
before. -/
def RoundTrips (d : Date) (t₀ : TimeSt) : Prop :=
  ¬ (IsLeap d.year ∧ d.month = 12 ∧ d.day = 31) ∧
    (d = .newYear 1970 → t₀.Y = 1970 ∧ t₀.M = 1 ∧ t₀.D = 1)

/-- On the first day no date is read. -/
theorem convDate_spec {d : Date} (hfirst : 1970 ≤ d.year) (hlast : d.year ≤ 2099) (t : TimeSt) :
    ∃ t', convDate (d.number 1970) t = some t' ∧ t'.W = t.W ∧
      (t'.Y = d.year ∧ t'.M = d.month ∧ t'.D = d.day ↔ RoundTrips d t) := by
  by_cases hzero : d.number 1970 = 0
  · have hd : d = .newYear 1970 := by
      refine Date.number_inj hfirst (Nat.le_refl 1970) ?_
      rw [hzero, Date.number_newYear]
    rw [convDate, if_neg (not_not_intro hzero)]
    refine ⟨t, rfl, rfl, ?_⟩
    subst hd
    have hleap : ¬ (IsLeap 1970 ∧ 1 = 12 ∧ 1 = 31) := by decide
    exact ⟨fun h => ⟨hleap, fun _ => h⟩, fun h => h.2 rfl⟩
  · have hd : d ≠ .newYear 1970 := by
      rintro rfl
      exact hzero (Date.number_newYear 1970)
    rw [convDate_eq hfirst hlast hzero]
    by_cases hlastDay : IsLeap d.year ∧ d.month = 12 ∧ d.day = 31
    · rw [if_pos hlastDay]
      refine ⟨_, rfl, rfl, iff_of_false (fun h => ?_) fun h => h.1 hlastDay⟩
      have hyear := h.1
      dsimp only at hyear
      omega
    · rw [if_neg hlastDay]
      exact ⟨_, rfl, rfl, iff_of_true ⟨rfl, rfl, rfl⟩ ⟨hlastDay, fun h => absurd h hd⟩⟩

/-- The fields of a date and a time, but for the weekday. -/
def Shows (t' : TimeSt) (t : DateTime) : Prop :=
  (t'.Y = t.year ∧ t'.M = t.month ∧ t'.D = t.day) ∧
    t'.h = t.hour ∧ t'.m = t.minute ∧ t'.s = t.second

/-- What is read from the counter. -/
theorem convTime_spec {t : DateTime} (hfirst : 1970 ≤ t.year) (hlast : t.year ≤ 2099)
    {registers : Registers} (hcounter : (getCounter registers).toNat = t.seconds 1970)
    (t₀ : TimeSt) :
    ∃ t', convTime registers t₀ = some t' ∧ (t'.h = t.hour ∧ t'.m = t.minute ∧ t'.s = t.second) ∧
      t'.W = t.weekday 1970 4 ∧ (Shows t' t ↔ RoundTrips t.toDate t₀) := by
  have hday := t.secondOfDay_lt
  have hdays : t.seconds 1970 / 86400 = t.number 1970 := by
    rw [DateTime.seconds]
    omega
  have htime : t.seconds 1970 % 86400 = t.secondOfDay := by
    rw [DateTime.seconds]
    omega
  obtain ⟨t₁, hdate, hweekday, hiff⟩ :=
    convDate_spec hfirst hlast { t₀ with W := ((4 + t.number 1970) % 7 : Nat) }
  have hclock : (t.secondOfDay / 3600 = t.hour ∧ t.secondOfDay % 3600 / 60 = t.minute) ∧
      t.secondOfDay % 3600 % 60 = t.second := by
    have hminute := t.minute_lt
    have hsecond := t.second_lt
    rw [DateTime.secondOfDay]
    omega
  refine ⟨{ t₁ with h := t.hour, m := t.minute, s := t.second }, ?_, ⟨rfl, rfl, rfl⟩, ?_, ?_⟩
  · simp only [convTime, hcounter, hdays, htime, Option.bind_eq_bind]
    rw [hdate, ← hclock.1.1, ← hclock.1.2, ← hclock.2]
    rfl
  · exact hweekday
  · exact (and_iff_left ⟨rfl, rfl, rfl⟩).trans hiff

/-! ## The clock -/

/-- The seconds before the year 2100. -/
def range : Nat := 86400 * (Date.newYear 2100).number 1970

theorem year_le_of_seconds_lt {t : DateTime} (h : t.seconds 1970 < range) : t.year ≤ 2099 := by
  by_contra hyear
  have hle : (Date.newYear 2100).number 1970 ≤ t.number 1970 :=
    t.newYear_le (by omega)
  rw [DateTime.seconds, range] at h
  omega

/-- What is set and read back. -/
theorem setTime_spec {t : DateTime} (hfirst : 1970 ≤ t.year) (hlast : t.year ≤ 2099) (W : Int)
    (registers : Registers) :
    ∃ registers', setTime registers (timeSt t W) = some registers' ∧
      (getCounter registers').toNat = t.seconds 1970 := by
  refine ⟨_, setTime_eq hfirst hlast W registers, ?_⟩
  rw [getCounter_setCounter]
  exact UInt32.toNat_ofNat_of_lt' (seconds_lt hfirst hlast)

theorem roundTrip_spec {t : DateTime} (hfirst : 1970 ≤ t.year) (hlast : t.year ≤ 2099) (W : Int)
    (registers : Registers) (t₀ : TimeSt) :
    ∃ registers' t', setTime registers (timeSt t W) = some registers' ∧
      convTime registers' t₀ = some t' ∧ (Shows t' t ↔ RoundTrips t.toDate t₀) := by
  obtain ⟨registers', hset, hcounter⟩ := setTime_spec hfirst hlast W registers
  obtain ⟨t', hconv, -, -, hiff⟩ := convTime_spec hfirst hlast hcounter t₀
  exact ⟨registers', t', hset, hconv, hiff⟩

/-- A date and a time that are set are read back, and a counter is read as its date and time, just
when the date is not the last day of a leap year, and on the first day it was there before. -/
theorem conv_time_iff (t₀ : TimeSt) :
    (∀ (t : DateTime) (W : Int) (registers : Registers), 1970 ≤ t.year → t.year ≤ 2099 →
      ∃ registers' t', setTime registers (timeSt t W) = some registers' ∧
        convTime registers' t₀ = some t' ∧ (Shows t' t ↔ RoundTrips t.toDate t₀)) ∧
    (∀ registers : Registers, (getCounter registers).toNat < range →
      ∃ t : DateTime, (1970 ≤ t.year ∧ t.year ≤ 2099) ∧
        t.seconds 1970 = (getCounter registers).toNat ∧
        ∃ t', convTime registers t₀ = some t' ∧ (Shows t' t ↔ RoundTrips t.toDate t₀)) := by
  constructor
  · intro t W registers hfirst hlast
    exact roundTrip_spec hfirst hlast W registers t₀
  · intro registers hcounter
    obtain ⟨t, hfirst, hseconds⟩ := DateTime.exists_seconds 1970 (getCounter registers).toNat
    have hlast : t.year ≤ 2099 := year_le_of_seconds_lt (hseconds.trans_lt hcounter)
    obtain ⟨t', hconv, -, -, hiff⟩ := convTime_spec hfirst hlast hseconds.symm t₀
    exact ⟨t, ⟨hfirst, hlast⟩, hseconds, t', hconv, hiff⟩

/-- A leap day, with a structure that was never written. -/
theorem conv_time_leap_day :
    let t : DateTime := ⟨⟨2024, 2, 29, by decide, by decide, by decide, by decide⟩, 12, 34, 56,
      by decide, by decide, by decide⟩
    ∃ registers t', setTime ⟨0, 0⟩ (timeSt t 0) = some registers ∧
      convTime registers ⟨0, 0, 0, 0, 0, 0, 0⟩ = some t' ∧ Shows t' t := by
  intro t
  obtain ⟨registers, t', hset, hconv, hiff⟩ :=
    (conv_time_iff ⟨0, 0, 0, 0, 0, 0, 0⟩).1 t 0 ⟨0, 0⟩ (by decide) (by decide)
  refine ⟨registers, t', hset, hconv, hiff.mpr ⟨by decide, fun hfirst => ?_⟩⟩
  exact absurd (congrArg Date.month hfirst) (by decide)

/-- The last day of a leap year is read as the 1st of a 13th month. -/
theorem conv_time_new_years_eve :
    ¬ ∀ (t₀ : TimeSt) (t : DateTime) (W : Int) (registers : Registers), 1970 ≤ t.year →
      t.year ≤ 2099 →
      ∃ registers' t', setTime registers (timeSt t W) = some registers' ∧
        convTime registers' t₀ = some t' ∧ Shows t' t := by
  intro h
  let t₀ : TimeSt := ⟨1972, 12, 30, 6, 23, 59, 59⟩
  let t : DateTime := ⟨⟨1972, 12, 31, by decide, by decide, by decide, by decide⟩, 0, 0, 0,
    by decide, by decide, by decide⟩
  have hfirst : 1970 ≤ t.year := by decide
  have hlast : t.year ≤ 2099 := by decide
  obtain ⟨registers, t', hset, hconv, hshows⟩ := h t₀ t 0 ⟨0, 0⟩ hfirst hlast
  obtain ⟨registers', t'', hset', hconv', hiff⟩ := roundTrip_spec hfirst hlast 0 ⟨0, 0⟩ t₀
  rw [hset', Option.some.injEq] at hset
  rw [← hset, hconv', Option.some.injEq] at hconv
  rw [← hconv, hiff] at hshows
  exact hshows.1 (by decide)

/-- The counter holds the seconds of the calendar, without a step that wraps, and grows with the
date and the time.  The time of the day and the weekday are read back. -/
theorem set_time_gregorian {t : DateTime} (hfirst : 1970 ≤ t.year) (hlast : t.year ≤ 2099) (W : Int)
    (registers : Registers) (t₀ : TimeSt) :
    secCount checked (timeSt t W) = some (.ofNat (t.seconds 1970)) ∧
    ∃ registers', setTime registers (timeSt t W) = some registers' ∧
      (getCounter registers').toNat = t.seconds 1970 ∧
      (∀ (t' : DateTime) (W' : Int), 1970 ≤ t'.year → t'.year ≤ 2099 → t.Before t' →
        ∃ registers'', setTime registers (timeSt t' W') = some registers'' ∧
          getCounter registers' < getCounter registers'') ∧
      ∃ t', convTime registers' t₀ = some t' ∧
        (t'.h = t.hour ∧ t'.m = t.minute ∧ t'.s = t.second) ∧ t'.W = t.weekday 1970 4 := by
  obtain ⟨registers', hset, hcounter⟩ := setTime_spec hfirst hlast W registers
  obtain ⟨t', hconv, htime, hweekday, -⟩ := convTime_spec hfirst hlast hcounter t₀
  refine ⟨secCount_eq checked_exact hfirst hlast W, registers', hset, hcounter, ?_, t', hconv,
    htime, hweekday⟩
  intro u W' hfirst' hlast' hbefore
  obtain ⟨registers'', hset', hcounter'⟩ := setTime_spec hfirst' hlast' W' registers
  refine ⟨registers'', hset', UInt32.lt_iff_toNat_lt.mpr ?_⟩
  rw [hcounter, hcounter']
  exact DateTime.seconds_lt_seconds hfirst hbefore

/-- The last second of the range. -/
theorem set_time_gregorian_last :
    let t : DateTime := ⟨⟨2099, 12, 31, by decide, by decide, by decide, by decide⟩, 23, 59, 59,
      by decide, by decide, by decide⟩
    ∃ registers, setTime ⟨0, 0⟩ (timeSt t 4) = some registers ∧
      (getCounter registers).toNat = t.seconds 1970 := by
  intro t
  have hfirst : 1970 ≤ t.year := by decide
  have hlast : t.year ≤ 2099 := by decide
  obtain ⟨-, registers, hset, hcounter, -⟩ :=
    set_time_gregorian hfirst hlast 4 ⟨0, 0⟩ ⟨0, 0, 0, 0, 0, 0, 0⟩
  exact ⟨registers, hset, hcounter⟩

end IotEdge.Rtc
