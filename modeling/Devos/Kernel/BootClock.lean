import Devos.Basic
import Devos.Library.Gregorian
import Mathlib.Algebra.Order.BigOperators.Group.Finset
import Mathlib.Data.Int.Notation
import Mathlib.Tactic.IntervalCases

/-! The clock at boot: `time_init` reads the real-time clock, and `kernel_mktime` counts the seconds since 1970. -/

namespace Devos.Kernel

open Gregorian

abbrev minute : ℤ := 60
abbrev hour : ℤ := 60 * minute
abbrev day : ℤ := 24 * hour
abbrev year : ℤ := 365 * day

/-- With the 29 days of a leap year. -/
def month : List ℤ :=
  [0, day * 31, day * (31 + 29), day * (31 + 29 + 31), day * (31 + 29 + 31 + 30), day * (31 + 29 + 31 + 30 + 31),
    day * (31 + 29 + 31 + 30 + 31 + 30), day * (31 + 29 + 31 + 30 + 31 + 30 + 31),
    day * (31 + 29 + 31 + 30 + 31 + 30 + 31 + 31), day * (31 + 29 + 31 + 30 + 31 + 30 + 31 + 31 + 30),
    day * (31 + 29 + 31 + 30 + 31 + 30 + 31 + 31 + 30 + 31), day * (31 + 29 + 31 + 30 + 31 + 30 + 31 + 31 + 30 + 31 + 30)]

structure Tm where
  tmSec : ℤ
  tmMin : ℤ
  tmHour : ℤ
  tmMday : ℤ
  tmMon : ℤ
  tmYear : ℤ

-- sums of longs wrap the same in any order, so it is done once at the end
def kernelMktime (tm : Tm) : Except Fault ℤ :=
  let y := tm.tmYear - 70
  let res := year * y + day * (y + 1).tdiv 4
  if 0 ≤ tm.tmMon ∧ tm.tmMon < 12 then
    let res := res + month.getD tm.tmMon.toNat 0
    let res := if 1 < tm.tmMon ∧ (y + 2).tmod 4 ≠ 0 then res - day else res
    .ok ((res + day * (tm.tmMday - 1) + hour * tm.tmHour + minute * tm.tmMin + tm.tmSec).bmod (2 ^ 32))
  else .error .badPointer

/-- `((val)&15) + ((val)>>4)*10` -/
def bcdToBin (val : ℤ) : ℤ := val % 16 + val / 16 * 10

/-- The registers as a pass of the loop reads them; `again` is the second reading of the seconds. -/
structure Registers where
  sec : Byte
  min : Byte
  hour : Byte
  mday : Byte
  mon : Byte
  year : Byte
  again : Byte

/-- The month is made to count from 0 before it is decoded. -/
def Registers.tm (r : Registers) : Tm where
  tmSec := bcdToBin r.sec.toNat
  tmMin := bcdToBin r.min.toNat
  tmHour := bcdToBin r.hour.toNat
  tmMday := bcdToBin r.mday.toNat
  tmMon := bcdToBin (r.mon.toNat - 1)
  tmYear := bcdToBin r.year.toNat

/-- `startup_time` after `time_init`; `none` while the seconds change in every pass. -/
def timeInit : List Registers → Option (Except Fault ℤ)
  | [] => none
  | r :: rs => if r.sec ≠ r.again then timeInit rs else some (kernelMktime r.tm)

structure Moment where
  date : Date
  hour : Fin 24
  min : Fin 60
  sec : Fin 60
  since : 1970 ≤ date.year
  before : date.year ≤ 1999

def bcd (n : ℕ) : Byte := BitVec.ofNat 8 (16 * (n / 10) + n % 10)

namespace Moment

/-- What the clock shows. -/
def registers (m : Moment) : Registers where
  sec := bcd m.sec
  min := bcd m.min
  hour := bcd m.hour
  mday := bcd m.date.day
  mon := bcd m.date.month
  year := bcd (m.date.year - 1900)
  again := bcd m.sec

/-- The moment is this many seconds after the beginning of 1970. -/
def IsAfter (m : Moment) (seconds : ℤ) : Prop :=
  ∃ n, Date.next^[n] (.newYear 1970) = m.date ∧ seconds = 86400 * n + 3600 * m.hour + 60 * m.min + m.sec

/-- `time_init` comes back with the time, whatever it has read in passes that it repeats. -/
def ClockRight (m : Moment) (rs rs' : List Registers) : Prop :=
  ∃ seconds, timeInit (rs ++ m.registers :: rs') = some (.ok seconds) ∧ m.IsAfter seconds

end Moment

section Decoding

variable {n : ℕ}

lemma bcd_toNat (hn : n < 100) : (bcd n).toNat = 16 * (n / 10) + n % 10 := by
  rw [bcd, BitVec.toNat_ofNat]
  omega

lemma bcdToBin_bcd (hn : n < 100) : bcdToBin (bcd n).toNat = n := by
  rw [bcd_toNat hn, bcdToBin]
  omega

/-- October is 0x10, and one less is 15 and not 9. -/
lemma bcdToBin_month (h₁ : 1 ≤ n) (h₂ : n ≤ 12) : bcdToBin ((bcd n).toNat - 1) = if n = 10 then 15 else (n : ℤ) - 1 := by
  rw [bcd_toNat (by omega), bcdToBin]
  split_ifs <;> omega

end Decoding

section Counting

variable {y m : ℕ}

lemma units : year = 31536000 ∧ day = 86400 ∧ hour = 3600 ∧ minute = 60 := by decide

lemma yearLength_offset (h : y < 130) : yearLength (1970 + y) = if (y + 2) % 4 = 0 then 366 else 365 := by
  rw [yearLength_eq]
  refine if_congr ?_ rfl rfl
  unfold Leap
  omega

/-- The magic offset: leap days since 1970. -/
lemma daysBetween_offset (h : y ≤ 130) : daysBetween 1970 (1970 + y) = 365 * y + (y + 1) / 4 := by
  induction y with
  | zero => rfl
  | succ y ih =>
    rw [← Nat.add_assoc, daysBetween_succ (Nat.le_add_right _ _), ih (by omega), yearLength_offset (by omega)]
    split_ifs <;> omega

lemma month_getD (h₁ : 1 ≤ m) (h₂ : m ≤ 12) :
    month.getD (m - 1) 0 = day * (daysBefore y m + if 2 < m ∧ ¬Leap y then 1 else 0) := by
  interval_cases m
  all_goals
    simp only [daysBefore, Finset.sum_Ico_succ_top, Nat.reduceLeDiff, Finset.Ico_self, Finset.sum_empty, daysIn]
    by_cases hleap : Leap y <;> simp [hleap, month]

end Counting

namespace Moment

variable (m : Moment)

lemma tm_eq : m.registers.tm =
    ⟨m.sec, m.min, m.hour, m.date.day, if m.date.month = 10 then 15 else (m.date.month : ℤ) - 1, m.date.year - 1900⟩ := by
  have hday : m.date.day < 100 := by
    have hle := m.date.day_le
    unfold daysIn at hle
    split_ifs at hle <;> omega
  have hsince := m.since
  have hbefore := m.before
  have hyear : ((m.date.year - 1900 : ℕ) : ℤ) = m.date.year - 1900 := by omega
  simp only [Registers.tm, registers, bcdToBin_bcd hday, bcdToBin_month m.date.month_pos m.date.month_le,
    bcdToBin_bcd (m.sec.isLt.trans (by decide)), bcdToBin_bcd (m.min.isLt.trans (by decide)),
    bcdToBin_bcd (m.hour.isLt.trans (by decide)), bcdToBin_bcd (show m.date.year - 1900 < 100 by omega), hyear]

/-- The days from 1970 to the date. -/
def days : ℕ := daysBetween 1970 m.date.year + daysBefore m.date.year m.date.month + (m.date.day - 1)

lemma days_lt : m.days < 11000 := by
  obtain ⟨y, hy⟩ : ∃ y, m.date.year = 1970 + y := ⟨m.date.year - 1970, by have := m.since; omega⟩
  have hbefore := m.before
  have hmonths : daysBefore m.date.year m.date.month ≤ yearLength m.date.year :=
    Finset.sum_le_sum_of_subset (Finset.Ico_subset_Ico_right (m.date.month_le.trans (by decide)))
  have hlength : yearLength m.date.year ≤ 366 := by
    rw [yearLength_eq]
    split_ifs <;> decide
  have hday := m.date.day_le
  have hmonth : daysIn m.date.year m.date.month ≤ 31 := by
    unfold daysIn
    split_ifs <;> decide
  have hyears : daysBetween 1970 m.date.year = 365 * y + (y + 1) / 4 := by rw [hy, daysBetween_offset (by omega)]
  unfold days
  omega

lemma kernelMktime_eq (hmonth : m.date.month ≠ 10) :
    kernelMktime m.registers.tm = .ok (86400 * m.days + 3600 * m.hour + 60 * m.min + m.sec) := by
  obtain ⟨y, hy⟩ : ∃ y, m.date.year = 1970 + y := ⟨m.date.year - 1970, by have := m.since; omega⟩
  have hbefore := m.before
  have h₁ := m.date.month_pos
  have h₂ := m.date.month_le
  have hday := m.date.day_pos
  have hyears : (m.date.year : ℤ) - 1900 - 70 = y := by omega
  have hdiv : ((y : ℤ) + 1).tdiv 4 = ((y + 1) / 4 : ℕ) := by
    rw [Int.tdiv_eq_ediv_of_nonneg (by omega)]
    omega
  have hindex : ((m.date.month : ℤ) - 1).toNat = m.date.month - 1 := by omega
  have hdays : m.days = 365 * y + (y + 1) / 4 + daysBefore m.date.year m.date.month + (m.date.day - 1) := by
    rw [days, hy, daysBetween_offset (by omega)]
  have hlate : 1 < (m.date.month : ℤ) - 1 ∧ ((y : ℤ) + 2).tmod 4 ≠ 0 ↔ 2 < m.date.month ∧ ¬Leap m.date.year := by
    rw [hy, Int.tmod_eq_emod_of_nonneg (by omega)]
    unfold Leap
    omega
  rw [tm_eq, kernelMktime]
  dsimp only
  rw [if_neg hmonth, if_pos (by omega), hindex, month_getD (y := m.date.year) h₁ h₂, hyears, hdiv]
  simp only [hlate, units]
  have hsum : ∀ l : ℤ, (if 2 < m.date.month ∧ ¬Leap m.date.year then
      l + 86400 * (daysBefore m.date.year m.date.month + if 2 < m.date.month ∧ ¬Leap m.date.year then 1 else 0) - 86400
      else l + 86400 * (daysBefore m.date.year m.date.month + if 2 < m.date.month ∧ ¬Leap m.date.year then 1 else 0)) =
      l + 86400 * daysBefore m.date.year m.date.month := by
    intro l
    split_ifs <;> omega
  have htotal : 31536000 * (y : ℤ) + 86400 * ((y + 1) / 4 : ℕ) + 86400 * daysBefore m.date.year m.date.month +
      86400 * (m.date.day - 1) = 86400 * m.days := by
    rw [hdays]
    omega
  have hlt := m.days_lt
  have hhour := m.hour.isLt
  have hmin := m.min.isLt
  have hsec := m.sec.isLt
  rw [hsum, htotal, Int.bmod_eq_of_le (by omega) (by omega)]

lemma kernelMktime_october (hmonth : m.date.month = 10) : kernelMktime m.registers.tm = .error .badPointer := by
  rw [tm_eq, hmonth]
  rfl

lemma timeInit_last {rs : List Registers} (h : ∀ r ∈ rs, r.sec ≠ r.again) (rs' : List Registers) :
    timeInit (rs ++ m.registers :: rs') = some (kernelMktime m.registers.tm) := by
  induction rs with
  | nil => exact if_neg (not_not.mpr rfl)
  | cons r rs ih =>
    rw [List.cons_append, timeInit, if_pos (h r List.mem_cons_self)]
    exact ih fun r' hr' => h r' (List.mem_cons_of_mem r hr')

/-- The time at boot is right in every month but October. -/
theorem clockRight_iff {rs : List Registers} (h : ∀ r ∈ rs, r.sec ≠ r.again) (rs' : List Registers) :
    m.ClockRight rs rs' ↔ m.date.month ≠ 10 := by
  unfold ClockRight
  rw [timeInit_last m h]
  constructor
  · rintro ⟨seconds, hrun, _⟩ hmonth
    rw [kernelMktime_october m hmonth] at hrun
    cases hrun
  · intro hmonth
    exact ⟨_, congrArg some (kernelMktime_eq m hmonth), m.days, iterate_next m.since, rfl⟩

/-- The last moment of 29 February 1996. -/
def leapDay : Moment := ⟨⟨1996, 2, 29, by decide, by decide, by decide, by decide⟩, 23, 59, 59, by decide, by decide⟩

/-- The first pass has read the minutes before and the seconds after the clock went on. -/
theorem clockRight_leapDay :
    leapDay.ClockRight [{ leapDay.registers with sec := bcd 58 }] [] := by
  refine (clockRight_iff leapDay ?_ []).mpr (by decide)
  intro r hr
  rw [List.mem_singleton.mp hr]
  decide

def october : Moment := ⟨⟨1991, 10, 5, by decide, by decide, by decide, by decide⟩, 12, 0, 0, by decide, by decide⟩

/-- In October the index is 15. -/
theorem october_wrong : timeInit [october.registers] = some (.error .badPointer) ∧ ¬october.ClockRight [] [] := by
  have hrun : timeInit [october.registers] = some (.error .badPointer) := by rfl
  refine ⟨hrun, ?_⟩
  rintro ⟨seconds, hright, _⟩
  rw [List.nil_append, hrun] at hright
  cases hright

end Moment

end Devos.Kernel
