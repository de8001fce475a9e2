import Mathlib.Algebra.BigOperators.Intervals
import Mathlib.Tactic.Lemma

/-! The Gregorian calendar: from each date to the next, and how many days it is from one to another. -/

namespace Devos.Gregorian

def Leap (y : ℕ) : Prop := 4 ∣ y ∧ (100 ∣ y → 400 ∣ y)

instance : DecidablePred Leap := fun y => inferInstanceAs (Decidable (4 ∣ y ∧ (100 ∣ y → 400 ∣ y)))

def daysIn (y m : ℕ) : ℕ :=
  if m = 2 then if Leap y then 29 else 28 else if m = 4 ∨ m = 6 ∨ m = 9 ∨ m = 11 then 30 else 31

lemma daysIn_pos (y m : ℕ) : 1 ≤ daysIn y m := by
  unfold daysIn
  split_ifs <;> decide

@[ext]
structure Date where
  year : ℕ
  month : ℕ
  day : ℕ
  month_pos : 1 ≤ month
  month_le : month ≤ 12
  day_pos : 1 ≤ day
  day_le : day ≤ daysIn year month

namespace Date

def first (y m : ℕ) (h₁ : 1 ≤ m) (h₂ : m ≤ 12) : Date := ⟨y, m, 1, h₁, h₂, le_refl 1, daysIn_pos y m⟩

def newYear (y : ℕ) : Date := first y 1 (le_refl 1) (by decide)

/-- The day after. -/
def next (d : Date) : Date :=
  if h : d.day < daysIn d.year d.month then ⟨d.year, d.month, d.day + 1, d.month_pos, d.month_le, Nat.succ_pos _, h⟩
  else if h : d.month < 12 then first d.year (d.month + 1) (Nat.succ_pos _) h
  else newYear (d.year + 1)

end Date

open Date

/-- The days of the months before month `m`. -/
def daysBefore (y m : ℕ) : ℕ := ∑ k ∈ Finset.Ico 1 m, daysIn y k

def yearLength (y : ℕ) : ℕ := daysBefore y 13

/-- The days of the years from `y₀` on and before `y`. -/
def daysBetween (y₀ y : ℕ) : ℕ := ∑ k ∈ Finset.Ico y₀ y, yearLength k

section Counting

variable {y y₀ m k : ℕ} {d : Date}

lemma yearLength_eq (y : ℕ) : yearLength y = if Leap y then 366 else 365 := by
  have hmonths : yearLength y = 337 + daysIn y 2 := by
    simp only [yearLength, daysBefore, Finset.sum_Ico_succ_top, Nat.reduceLeDiff, Finset.Ico_self, Finset.sum_empty,
      daysIn]
    simp
    omega
  rw [hmonths, daysIn, if_pos rfl]
  split_ifs <;> rfl

lemma daysBefore_succ (hm : 1 ≤ m) : daysBefore y (m + 1) = daysBefore y m + daysIn y m := Finset.sum_Ico_succ_top hm _

lemma daysBetween_succ (hy : y₀ ≤ y) : daysBetween y₀ (y + 1) = daysBetween y₀ y + yearLength y :=
  Finset.sum_Ico_succ_top hy _

/-- Through a month. -/
lemma iterate_days (h₁ : 1 ≤ m) (h₂ : m ≤ 12) (hk : k < daysIn y m) :
    next^[k] (first y m h₁ h₂) = ⟨y, m, k + 1, h₁, h₂, Nat.succ_pos k, hk⟩ := by
  induction k with
  | zero => rfl
  | succ k ih =>
    rw [Function.iterate_succ_apply', ih (Nat.lt_of_succ_lt hk)]
    exact dif_pos hk

lemma iterate_month (h₁ : 1 ≤ m) (h₂ : m < 12) :
    next^[daysIn y m] (first y m h₁ h₂.le) = first y (m + 1) (Nat.succ_pos m) h₂ := by
  obtain ⟨k, hk⟩ : ∃ k, daysIn y m = k + 1 := ⟨daysIn y m - 1, (Nat.sub_add_cancel (daysIn_pos y m)).symm⟩
  rw [hk, Function.iterate_succ_apply', iterate_days h₁ h₂.le (by omega), next, dif_neg (by dsimp only; omega), dif_pos h₂]

lemma iterate_months (h₁ : 1 ≤ m) (h₂ : m ≤ 12) : next^[daysBefore y m] (newYear y) = first y m h₁ h₂ := by
  induction m, h₁ using Nat.le_induction with
  | base => rfl
  | succ m h₁ ih =>
    rw [daysBefore_succ h₁, Nat.add_comm, Function.iterate_add_apply, ih (Nat.le_of_succ_le h₂)]
    exact iterate_month h₁ h₂

lemma iterate_year (y : ℕ) : next^[yearLength y] (newYear y) = newYear (y + 1) := by
  have hlast : daysIn y 12 = 30 + 1 := rfl
  rw [yearLength, daysBefore_succ (by decide), Nat.add_comm, Function.iterate_add_apply,
    iterate_months (by decide) (le_refl 12), hlast, Function.iterate_succ_apply',
    iterate_days (by decide) (le_refl 12) (hlast ▸ Nat.lt_succ_self 30)]
  rfl

lemma iterate_years (hy : y₀ ≤ y) : next^[daysBetween y₀ y] (newYear y₀) = newYear y := by
  induction y, hy using Nat.le_induction with
  | base => simp [daysBetween]
  | succ y hy ih =>
    rw [daysBetween_succ hy, Nat.add_comm, Function.iterate_add_apply, ih]
    exact iterate_year y

/-- The days from the beginning of year `y₀` to a later date. -/
theorem iterate_next (h : y₀ ≤ d.year) :
    next^[daysBetween y₀ d.year + daysBefore d.year d.month + (d.day - 1)] (newYear y₀) = d := by
  have hday := d.day_pos
  have hle := d.day_le
  rw [Nat.add_comm, Function.iterate_add_apply, Nat.add_comm, Function.iterate_add_apply, iterate_years h,
    iterate_months d.month_pos d.month_le, iterate_days _ _ (by omega)]
  exact Date.ext rfl rfl (Nat.sub_add_cancel hday)

end Counting

end Devos.Gregorian
