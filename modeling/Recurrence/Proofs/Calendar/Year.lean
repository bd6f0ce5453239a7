import Mathlib.Order.Monotone.Basic
import Recurrence.Calendar.Year

namespace Recurrence.Year

theorem firstNumber_lt_succ (y : Int) : firstNumber y < firstNumber (y + 1) := by
  rw [firstNumber_succ]
  unfold length
  omega

theorem firstNumber_lt_iff {x y : Int} : firstNumber x < firstNumber y ↔ x < y :=
  (strictMono_int_of_lt_succ firstNumber_lt_succ).lt_iff_lt

theorem firstNumber_le_iff {x y : Int} : firstNumber x ≤ firstNumber y ↔ x ≤ y :=
  (strictMono_int_of_lt_succ firstNumber_lt_succ).le_iff_le

theorem ofNumber_eq_iff {n y : Int} :
    ofNumber n = y ↔ firstNumber y ≤ n ∧ n < firstNumber (y + 1) := by
  constructor
  · rintro rfl
    exact ⟨firstNumber_ofNumber_le n, lt_firstNumber_ofNumber_succ n⟩
  · rintro ⟨h₁, h₂⟩
    have h₃ := firstNumber_lt_iff.1 (h₁.trans_lt (lt_firstNumber_ofNumber_succ n))
    have h₄ := firstNumber_lt_iff.1 ((firstNumber_ofNumber_le n).trans_lt h₂)
    omega

theorem firstNumber_calendar : firstNumber (-9999) = -3652425 ∧ firstNumber 10000 = 3652059 := by
  decide

theorem ofNumber_bounds {n : Int} (hfirst : -3652425 ≤ n) (hlast : n ≤ 3652058) :
    -9999 ≤ ofNumber n ∧ ofNumber n ≤ 9999 := by
  obtain ⟨h₁, h₂⟩ := firstNumber_calendar
  have hlt := lt_firstNumber_ofNumber_succ n
  have hle := firstNumber_ofNumber_le n
  have h₃ : -9999 < ofNumber n + 1 := firstNumber_lt_iff.1 (by omega)
  have h₄ : ofNumber n < 10000 := firstNumber_lt_iff.1 (by omega)
  omega

theorem firstNumber_bounds_of_ofNumber {n : Int} (hfirst : -3652425 ≤ n) (hlast : n ≤ 3652058) :
    -3652425 ≤ firstNumber (ofNumber n) ∧ firstNumber (ofNumber n + 1) ≤ 3652059 := by
  obtain ⟨h₁, h₂⟩ := firstNumber_calendar
  obtain ⟨h₃, h₄⟩ := ofNumber_bounds hfirst hlast
  have hle := firstNumber_le_iff.2 h₃
  have hle' := firstNumber_le_iff.2 (show ofNumber n + 1 ≤ 10000 by omega)
  omega

theorem daysBefore_thirteen (y : Int) : daysBefore y 13 = length y := by
  simp only [daysBefore, length, Nat.reduceLT, if_false]

theorem daysBefore_succ (y : Int) {m : Nat} (h : 1 ≤ m) :
    daysBefore y (m + 1) = daysBefore y m + monthLength y m := by
  have := leapDays_le_one y
  unfold monthLength daysBefore
  split <;> split <;> omega

theorem daysBefore_add_monthLength_le (y : Int) {m : Nat} (hpos : 1 ≤ m) (hle : m ≤ 12) :
    daysBefore y m + monthLength y m ≤ length y := by
  rw [← daysBefore_succ y hpos]
  unfold daysBefore length
  split <;> omega

theorem monthLength_two (y : Int) : monthLength y 2 = 28 + leapDays y := by
  simp only [monthLength, daysBefore, Nat.reduceAdd, Nat.reduceLT, if_false, if_true]
  omega

theorem monthLength_bounds (y : Int) {m : Nat} (h : 1 ≤ m) :
    28 ≤ monthLength y m ∧ monthLength y m ≤ 31 := by
  have := leapDays_le_one y
  unfold monthLength daysBefore
  split <;> split <;> omega

end Recurrence.Year
