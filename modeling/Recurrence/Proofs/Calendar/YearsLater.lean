import Recurrence.Calendar.Date
import Recurrence.Proofs.Calendar.Year

namespace Recurrence

theorem Year.daysBefore_mono (y : Int) {m n : Nat} (h : m ≤ n) :
    daysBefore y m ≤ daysBefore y n := by
  have := leapDays_le_one y
  unfold daysBefore
  split <;> split <;> omega

namespace Date

theorem civilNumber_lt_of_month_lt {y : Int} {m n j k : Nat} (hpos : 1 ≤ m) (hmn : m < n)
    (hj : j ≤ Year.monthLength y m) (hk : 1 ≤ k) : civilNumber y m j < civilNumber y n k := by
  have hnext := Year.daysBefore_succ y hpos
  have hmono := Year.daysBefore_mono y (show m + 1 ≤ n from hmn)
  unfold civilNumber
  omega

theorem civilNumber_lt_of_year_lt {y z : Int} {m n j k : Nat} (hyz : y < z) (hpos : 1 ≤ m)
    (hle : m ≤ 12) (hj : j ≤ Year.monthLength y m) (hk : 1 ≤ k) :
    civilNumber y m j < civilNumber z n k := by
  have hlength := Year.daysBefore_add_monthLength_le y hpos hle
  have hnext := Year.firstNumber_succ y
  have hmono := Year.firstNumber_le_iff.2 (Int.add_one_le_of_lt hyz)
  unfold civilNumber
  omega

theorem year_mono {d e : Date} (h : d.number ≤ e.number) : d.year ≤ e.year := by
  by_contra hlt
  have hnumber := civilNumber_lt_of_year_lt (n := d.month) (Int.not_le.1 hlt) e.month_pos e.month_le
    e.day_le_monthLength d.day_pos
  rw [civilNumber_eq_number, civilNumber_eq_number] at hnumber
  omega

theorem month_mono {d e : Date} (hyear : d.year = e.year) (h : d.number ≤ e.number) :
    d.month ≤ e.month := by
  by_contra hlt
  have hlength := e.day_le_monthLength
  rw [monthLength, ← hyear] at hlength
  have hnumber := civilNumber_lt_of_month_lt e.month_pos (Nat.not_le.1 hlt) hlength d.day_pos
  rw [civilNumber_eq_number, hyear, civilNumber_eq_number] at hnumber
  omega

/-- The day of the year, month and day so many years later, where a month gives its last day if it
is too short. -/
def yearsLater (d : Date) (n : Nat) : Int :=
  civilNumber (d.year + n) d.month (min d.day (Year.monthLength (d.year + n) d.month))

theorem one_le_min_day (d : Date) (y : Int) : 1 ≤ min d.day (Year.monthLength y d.month) := by
  have hlength := (Year.monthLength_bounds y d.month_pos).1
  have hday := d.day_pos
  omega

theorem yearsLater_bounds (d : Date) (n : Nat) :
    Year.firstNumber (d.year + n) ≤ d.yearsLater n ∧
      d.yearsLater n < Year.firstNumber (d.year + n + 1) := by
  have hpos := d.one_le_min_day (d.year + n)
  have hlength := Year.daysBefore_add_monthLength_le (d.year + n) d.month_pos d.month_le
  rw [Year.firstNumber_succ]
  unfold yearsLater civilNumber
  omega

theorem addYears?_eq_ofNumber? (d : Date) (n : Nat) :
    d.addYears? n = ofNumber? (d.yearsLater n) := by
  have hpos := d.one_le_min_day (d.year + n)
  simp only [addYears?]
  split
  · rw [ofCivil?, if_pos ⟨d.month_pos, d.month_le, hpos, Nat.min_le_right ..⟩, yearsLater]
  · obtain ⟨-, hlast⟩ := Year.firstNumber_calendar
    have hyear := Year.firstNumber_le_iff.2 (show 10000 ≤ d.year + n by omega)
    have hbounds := d.yearsLater_bounds n
    rw [ofNumber?, dif_neg (by omega)]

theorem yearsLater_mono {d e : Date} {m n : Nat} (hde : d.number ≤ e.number) (hmn : m ≤ n) :
    d.yearsLater m ≤ e.yearsLater n := by
  have hyear := year_mono hde
  obtain hlt | heq := Int.lt_or_eq_of_le (show d.year + m ≤ e.year + n by omega)
  · exact Int.le_of_lt (civilNumber_lt_of_year_lt hlt d.month_pos d.month_le (Nat.min_le_right ..)
      (e.one_le_min_day _))
  · have hsame : d.year = e.year := by omega
    obtain hmonth | hmonth := Nat.lt_or_eq_of_le (month_mono hsame hde)
    · rw [yearsLater, yearsLater, ← heq]
      exact Int.le_of_lt (civilNumber_lt_of_month_lt d.month_pos hmonth (Nat.min_le_right ..)
        (e.one_le_min_day _))
    · have hday : d.day ≤ e.day := by
        have hd := d.civilNumber_eq_number
        have he := e.civilNumber_eq_number
        rw [hsame, hmonth] at hd
        unfold civilNumber at hd he
        omega
      rw [yearsLater, yearsLater, ← heq, hmonth]
      unfold civilNumber
      omega

theorem exists_addYears?_of_le {d e later : Date} {m n : Nat} (hde : d.number ≤ e.number)
    (hmn : m ≤ n) (h : e.addYears? n = some later) :
    ∃ sooner, d.addYears? m = some sooner ∧ sooner.number ≤ later.number := by
  rw [addYears?_eq_ofNumber?, ofNumber?_eq_some_iff] at h
  have hle := yearsLater_mono hde hmn
  have hlast := later.le_last
  obtain ⟨hfirst, -⟩ := Year.firstNumber_calendar
  obtain ⟨hyear, -⟩ := Year.ofNumber_bounds d.first_le d.le_last
  have hyear' := Year.firstNumber_le_iff.2 (show -9999 ≤ d.year + m by unfold year; omega)
  have hbounds := d.yearsLater_bounds m
  refine ⟨⟨d.yearsLater m, by omega, by omega⟩, ?_, by dsimp only; omega⟩
  rw [addYears?_eq_ofNumber?, ofNumber?_eq_some_iff]

end Date

end Recurrence
