/-!
Years and months of the proleptic Gregorian calendar, and the day numbers at which they begin.
Day 0 is the Monday 0001-01-01; year 0 is the year before year 1.
-/

namespace Recurrence.Year

def IsLeap (y : Int) : Prop := y % 4 = 0 ∧ (y % 100 ≠ 0 ∨ y % 400 = 0)

instance (y : Int) : Decidable (IsLeap y) := inferInstanceAs (Decidable (_ ∧ _))

def leapDays (y : Int) : Nat := if IsLeap y then 1 else 0

theorem leapDays_le_one (y : Int) : leapDays y ≤ 1 := by
  unfold leapDays
  split <;> decide

def length (y : Int) : Nat := 365 + leapDays y

def firstNumber (y : Int) : Int :=
  365 * (y - 1) + (y - 1) / 4 - (y - 1) / 100 + (y - 1) / 400

theorem firstNumber_succ (y : Int) : firstNumber (y + 1) = firstNumber y + length y := by
  by_cases h : IsLeap y <;> simp only [firstNumber, length, leapDays, h, if_true, if_false] <;>
    unfold IsLeap at h <;> omega

/-- The year of a day number. The mean length of a year finds it up to one year. -/
def ofNumber (n : Int) : Int :=
  let y := 400 * n / 146097 + 1
  if n < firstNumber y then y - 1 else if firstNumber (y + 1) ≤ n then y + 1 else y

theorem firstNumber_ofNumber_le (n : Int) : firstNumber (ofNumber n) ≤ n := by
  unfold ofNumber firstNumber
  dsimp only
  split
  · omega
  · split <;> omega

theorem lt_firstNumber_ofNumber_succ (n : Int) : n < firstNumber (ofNumber n + 1) := by
  unfold ofNumber firstNumber
  dsimp only
  split
  · omega
  · split <;> omega

/-- The days of a year before the first of a month: from March on, five months in a row have
153 days. -/
def daysBefore (y : Int) (month : Nat) : Nat :=
  if month < 3 then 31 * (month - 1) else (153 * (month - 3) + 2) / 5 + 59 + leapDays y

def monthLength (y : Int) (month : Nat) : Nat := daysBefore y (month + 1) - daysBefore y month

def monthOf (y : Int) (elapsed : Nat) : Nat :=
  if elapsed < 59 + leapDays y then elapsed / 31 + 1
  else (5 * (elapsed - 59 - leapDays y) + 2) / 153 + 3

theorem monthOf_pos (y : Int) (k : Nat) : 1 ≤ monthOf y k := by
  unfold monthOf
  split <;> omega

theorem monthOf_le {y : Int} {k : Nat} (h : k < length y) : monthOf y k ≤ 12 := by
  have := leapDays_le_one y
  unfold monthOf
  unfold length at h
  split <;> omega

theorem daysBefore_monthOf_le (y : Int) (k : Nat) : daysBefore y (monthOf y k) ≤ k := by
  have := leapDays_le_one y
  unfold monthOf daysBefore
  split <;> split <;> omega

theorem lt_daysBefore_monthOf_succ (y : Int) (k : Nat) : k < daysBefore y (monthOf y k + 1) := by
  have := leapDays_le_one y
  unfold monthOf daysBefore
  split <;> split <;> omega

end Recurrence.Year
