import Mathlib

/-!
# The Gregorian calendar

The dates of the proleptic Gregorian calendar, and the number of days that passed since the
first day of some year, the epoch.  The number is a sum over years and months; it counts the
steps from each day to the next one (`Date.number_next`), and grows with the date
(`Date.number_lt_number`).
-/

namespace Calendar

/-! ## Years and months -/

/-- Every fourth year is a leap year, but of the centuries only every fourth one. -/
def IsLeap (year : ℕ) : Prop := year % 4 = 0 ∧ year % 100 ≠ 0 ∨ year % 400 = 0

instance : DecidablePred IsLeap := fun _ => inferInstanceAs (Decidable (_ ∨ _))

/-- The days of a month, where January is 1. -/
def monthLength (year month : ℕ) : ℕ :=
  if month = 2 then if IsLeap year then 29 else 28
  else if month = 4 ∨ month = 6 ∨ month = 9 ∨ month = 11 then 30
  else 31

def yearLength (year : ℕ) : ℕ := if IsLeap year then 366 else 365

theorem le_monthLength (year month : ℕ) : 28 ≤ monthLength year month := by
  rw [monthLength]
  split_ifs <;> omega

theorem monthLength_le (year month : ℕ) : monthLength year month ≤ 31 := by
  rw [monthLength]
  split_ifs <;> omega

theorem sum_monthLength (year : ℕ) :
    ∑ month ∈ Finset.Ico 1 13, monthLength year month = yearLength year := by
  by_cases h : IsLeap year
  · simp [Finset.sum_Ico_succ_top, monthLength, yearLength, h]
  · simp [Finset.sum_Ico_succ_top, monthLength, yearLength, h]

/-- The leap years up to a year. -/
def leapYears (year : ℕ) : ℕ := year / 4 - year / 100 + year / 400

/-- A leap day in every fourth year, but not in the centuries, and yet in every fourth of these. -/
theorem yearLength_eq (year : ℕ) : yearLength year + (if 100 ∣ year then 1 else 0) =
    365 + (if 4 ∣ year then 1 else 0) + if 400 ∣ year then 1 else 0 := by
  rw [yearLength]
  split
  next h =>
    rcases h with ⟨hfourth, hcentury⟩ | h
    · have h4 : 4 ∣ year := Nat.dvd_of_mod_eq_zero hfourth
      have h100 : ¬ 100 ∣ year := fun h => hcentury (Nat.mod_eq_zero_of_dvd h)
      have h400 : ¬ 400 ∣ year := fun h => h100 ((by decide : 100 ∣ 400).trans h)
      rw [if_pos h4, if_neg h100, if_neg h400]
    · have h400 : 400 ∣ year := Nat.dvd_of_mod_eq_zero h
      have h100 : 100 ∣ year := (by decide : 100 ∣ 400).trans h400
      have h4 : 4 ∣ year := (by decide : 4 ∣ 400).trans h400
      rw [if_pos h4, if_pos h100, if_pos h400]
  next h =>
    rw [IsLeap, not_or, not_and_not_right, ← Nat.dvd_iff_mod_eq_zero, ← Nat.dvd_iff_mod_eq_zero,
      ← Nat.dvd_iff_mod_eq_zero] at h
    have h4 : 4 ∣ year ↔ 100 ∣ year := ⟨h.1, (by decide : 4 ∣ 100).trans⟩
    rw [if_neg h.2, Nat.add_zero]
    simp only [h4]

theorem yearLength_succ (year : ℕ) :
    yearLength (year + 1) + leapYears year = 365 + leapYears (year + 1) := by
  have hle : ∀ y, y / 100 ≤ y / 4 := fun _ => Nat.div_le_div_left (by decide) (by decide)
  have hyear := yearLength_eq (year + 1)
  have hbefore := hle year
  have hafter := hle (year + 1)
  rw [Nat.succ_div, Nat.succ_div] at hafter
  rw [leapYears, leapYears, Nat.succ_div, Nat.succ_div, Nat.succ_div]
  omega

/-- The years before a year, in closed form. -/
theorem sum_yearLength {epoch year : ℕ} (h : epoch ≤ year) :
    ∑ y ∈ Finset.Ico (epoch + 1) (year + 1), yearLength y + leapYears epoch =
      365 * (year - epoch) + leapYears year := by
  induction year, h using Nat.le_induction with
  | base => simp
  | succ year h ih =>
      have hyear := yearLength_succ year
      rw [Finset.sum_Ico_succ_top (by omega)]
      omega

/-! ## Dates -/

/-- A date of the calendar. -/
@[ext]
structure Date where
  year : ℕ
  month : ℕ
  day : ℕ
  month_pos : 1 ≤ month
  month_le : month ≤ 12
  day_pos : 1 ≤ day
  day_le : day ≤ monthLength year month
  deriving DecidableEq, Repr

namespace Date

/-- The first day of a year. -/
def newYear (year : ℕ) : Date :=
  ⟨year, 1, 1, Nat.le_refl 1, by omega, Nat.le_refl 1, by have := le_monthLength year 1; omega⟩

/-- The next day. -/
def next (d : Date) : Date :=
  if h : d.day < monthLength d.year d.month then
    { d with day := d.day + 1, day_pos := by omega, day_le := h }
  else if h : d.month < 12 then
    ⟨d.year, d.month + 1, 1, by omega, h, Nat.le_refl 1, by
      have := le_monthLength d.year (d.month + 1)
      omega⟩
  else newYear (d.year + 1)

/-- The days since the first day of the epoch. -/
def number (epoch : ℕ) (d : Date) : ℕ :=
  ∑ year ∈ Finset.Ico epoch d.year, yearLength year +
    ∑ month ∈ Finset.Ico 1 d.month, monthLength d.year month + (d.day - 1)

/-- One date is before another. -/
def Before (a b : Date) : Prop :=
  a.year < b.year ∨ a.year = b.year ∧ (a.month < b.month ∨ a.month = b.month ∧ a.day < b.day)

variable {epoch : ℕ}

@[simp] theorem number_newYear (epoch : ℕ) : (newYear epoch).number epoch = 0 := by
  simp [number, newYear]

/-- The number counts the days. -/
theorem number_next {d : Date} (h : epoch ≤ d.year) :
    d.next.number epoch = d.number epoch + 1 := by
  have hpos := d.day_pos
  have hle := d.day_le
  have hmonth := d.month_le
  rw [next]
  split_ifs with hday hlast
  · simp only [number]
    omega
  · simp only [number]
    rw [Finset.sum_Ico_succ_top d.month_pos]
    omega
  · have hdecember : d.month = 12 := by omega
    have hyear := sum_monthLength d.year
    rw [Finset.sum_Ico_succ_top (by omega)] at hyear
    rw [hdecember] at hday hle
    simp only [number, newYear, hdecember, Finset.sum_Ico_succ_top h, Finset.Ico_self,
      Finset.sum_empty]
    omega

theorem year_le_next (d : Date) : d.year ≤ d.next.year := by
  rw [next]
  split_ifs
  · exact Nat.le_refl _
  · exact Nat.le_refl _
  · exact Nat.le_succ _

/-- Every number is the number of a date. -/
theorem exists_number (epoch n : ℕ) : ∃ d : Date, epoch ≤ d.year ∧ d.number epoch = n := by
  induction n with
  | zero => exact ⟨newYear epoch, Nat.le_refl epoch, number_newYear epoch⟩
  | succ n ih =>
      obtain ⟨d, hyear, hnumber⟩ := ih
      exact ⟨d.next, hyear.trans d.year_le_next, by rw [number_next hyear, hnumber]⟩

/-- The days of a year before the end of a month. -/
theorem day_lt (d : Date) : ∑ month ∈ Finset.Ico 1 d.month, monthLength d.year month + (d.day - 1) <
    ∑ month ∈ Finset.Ico 1 (d.month + 1), monthLength d.year month := by
  have hpos := d.day_pos
  have hle := d.day_le
  rw [Finset.sum_Ico_succ_top d.month_pos]
  omega

theorem dayOfYear_lt (d : Date) :
    ∑ month ∈ Finset.Ico 1 d.month, monthLength d.year month + (d.day - 1) < yearLength d.year := by
  refine d.day_lt.trans_le ?_
  rw [← sum_monthLength]
  refine Finset.sum_le_sum_of_subset (Finset.Ico_subset_Ico_right ?_)
  have := d.month_le
  omega

/-- The last day of a year is the 31st of December. -/
theorem lastDay_iff (d : Date) :
    ∑ month ∈ Finset.Ico 1 d.month, monthLength d.year month + d.day = yearLength d.year ↔
      d.month = 12 ∧ d.day = 31 := by
  have hpos := d.day_pos
  have hday := d.day_lt
  have hle := d.month_le
  have hyear := sum_monthLength d.year
  rw [Finset.sum_Ico_succ_top (by omega), show monthLength d.year 12 = 31 from rfl] at hyear
  rcases Nat.lt_or_ge d.month 12 with hlt | hge
  · have hmonths : ∑ month ∈ Finset.Ico 1 (d.month + 1), monthLength d.year month ≤
        ∑ month ∈ Finset.Ico 1 12, monthLength d.year month :=
      Finset.sum_le_sum_of_subset (Finset.Ico_subset_Ico_right hlt)
    omega
  · rw [show d.month = 12 by omega]
    omega

/-- All days of a year are before the next year. -/
theorem number_lt_year (d : Date) {year : ℕ} (h : epoch ≤ d.year) (hyear : d.year < year) :
    d.number epoch < ∑ y ∈ Finset.Ico epoch year, yearLength y := by
  have hday := d.dayOfYear_lt
  calc d.number epoch < ∑ y ∈ Finset.Ico epoch (d.year + 1), yearLength y := by
        rw [number, Finset.sum_Ico_succ_top h]
        omega
    _ ≤ ∑ y ∈ Finset.Ico epoch year, yearLength y :=
        Finset.sum_le_sum_of_subset (Finset.Ico_subset_Ico_right hyear)

/-- No day of a later year is before the first day of a year. -/
theorem newYear_le (d : Date) {year : ℕ} (h : year ≤ d.year) :
    (newYear year).number epoch ≤ d.number epoch := by
  have hle : ∑ y ∈ Finset.Ico epoch year, yearLength y ≤
      ∑ y ∈ Finset.Ico epoch d.year, yearLength y :=
    Finset.sum_le_sum_of_subset (Finset.Ico_subset_Ico_right h)
  simp only [number, newYear, Finset.Ico_self, Finset.sum_empty]
  omega

/-- The number grows with the date. -/
theorem number_lt_number {a b : Date} (h : epoch ≤ a.year) (hab : a.Before b) :
    a.number epoch < b.number epoch := by
  rcases hab with hyear | ⟨hyear, hmonth | ⟨hmonth, hday⟩⟩
  · refine (a.number_lt_year h hyear).trans_le ?_
    rw [number]
    omega
  · have hlt := a.day_lt
    have hle : ∑ month ∈ Finset.Ico 1 (a.month + 1), monthLength b.year month ≤
        ∑ month ∈ Finset.Ico 1 b.month, monthLength b.year month :=
      Finset.sum_le_sum_of_subset (Finset.Ico_subset_Ico_right hmonth)
    simp only [number, hyear] at hlt ⊢
    omega
  · have hpos := a.day_pos
    simp only [number, hyear, hmonth]
    omega

/-- Different dates have different numbers. -/
theorem before_or_before {a b : Date} (h : a ≠ b) : a.Before b ∨ b.Before a := by
  by_contra hno
  simp only [Before, not_or] at hno
  exact h (Date.ext (by omega) (by omega) (by omega))

theorem number_inj {a b : Date} (ha : epoch ≤ a.year) (hb : epoch ≤ b.year)
    (h : a.number epoch = b.number epoch) : a = b := by
  by_contra hne
  rcases before_or_before hne with hab | hba
  · exact (number_lt_number ha hab).ne h
  · exact (number_lt_number hb hba).ne' h

/-- The weekday, where Sunday is 0 and the first day of the epoch was some weekday. -/
def weekday (epoch first : ℕ) (d : Date) : ℕ := (first + d.number epoch) % 7

end Date

/-! ## Times -/

/-- A date and the time of the day. -/
@[ext]
structure DateTime extends Date where
  hour : ℕ
  minute : ℕ
  second : ℕ
  hour_lt : hour < 24
  minute_lt : minute < 60
  second_lt : second < 60
  deriving DecidableEq, Repr

namespace DateTime

/-- The seconds since midnight. -/
def secondOfDay (t : DateTime) : ℕ := 3600 * t.hour + 60 * t.minute + t.second

/-- The seconds since the beginning of the epoch. -/
def seconds (epoch : ℕ) (t : DateTime) : ℕ := 86400 * t.number epoch + t.secondOfDay

/-- One time is before another. -/
def Before (a b : DateTime) : Prop :=
  a.toDate.Before b.toDate ∨ a.toDate = b.toDate ∧ (a.hour < b.hour ∨ a.hour = b.hour ∧
    (a.minute < b.minute ∨ a.minute = b.minute ∧ a.second < b.second))

theorem secondOfDay_lt (t : DateTime) : t.secondOfDay < 86400 := by
  have hhour := t.hour_lt
  have hminute := t.minute_lt
  have hsecond := t.second_lt
  rw [secondOfDay]
  omega

variable {epoch : ℕ}

/-- The seconds grow with the time. -/
theorem seconds_lt_seconds {a b : DateTime} (h : epoch ≤ a.year) (hab : a.Before b) :
    a.seconds epoch < b.seconds epoch := by
  rcases hab with hdate | ⟨hdate, htime⟩
  · have hlt := Date.number_lt_number h hdate
    have hday := a.secondOfDay_lt
    rw [seconds, seconds]
    omega
  · have hminute := a.minute_lt
    have hsecond := a.second_lt
    rw [seconds, seconds, hdate, secondOfDay, secondOfDay]
    omega

/-- Every second is the second of a time. -/
theorem exists_seconds (epoch n : ℕ) : ∃ t : DateTime, epoch ≤ t.year ∧ t.seconds epoch = n := by
  obtain ⟨d, hyear, hnumber⟩ := Date.exists_number epoch (n / 86400)
  refine ⟨⟨d, n % 86400 / 3600, n % 3600 / 60, n % 60, by omega, by omega, by omega⟩, hyear, ?_⟩
  simp only [seconds, secondOfDay, hnumber]
  omega

end DateTime

end Calendar
