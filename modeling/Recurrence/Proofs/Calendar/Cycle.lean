import Recurrence.Calendar.DateTime
import Recurrence.Calendar.WeekdayRank
import Recurrence.Proofs.Calendar.Count

namespace Recurrence

namespace Year

section Cycles

variable (y : Int) (k : Nat)

theorem isLeap_add_cycles : IsLeap (y + 400 * k) ↔ IsLeap y := by
  unfold IsLeap
  omega

theorem leapDays_add_cycles : leapDays (y + 400 * k) = leapDays y := by
  simp only [leapDays, isLeap_add_cycles]

theorem length_add_cycles : length (y + 400 * k) = length y := by
  rw [length, length, leapDays_add_cycles]

theorem daysBefore_add_cycles (m : Nat) : daysBefore (y + 400 * k) m = daysBefore y m := by
  rw [daysBefore, daysBefore, leapDays_add_cycles]

theorem monthLength_add_cycles (m : Nat) : monthLength (y + 400 * k) m = monthLength y m := by
  rw [monthLength, monthLength, daysBefore_add_cycles, daysBefore_add_cycles]

theorem monthOf_add_cycles (n : Nat) : monthOf (y + 400 * k) n = monthOf y n := by
  rw [monthOf, monthOf, leapDays_add_cycles]

theorem firstNumber_add_cycles : firstNumber (y + 400 * k) = firstNumber y + 146097 * k := by
  unfold firstNumber
  omega

theorem ofNumber_add_cycles (n : Int) : ofNumber (n + 146097 * k) = ofNumber n + 400 * k := by
  have h₁ := firstNumber_ofNumber_le n
  have h₂ := lt_firstNumber_ofNumber_succ n
  rw [ofNumber_eq_iff, Int.add_right_comm, firstNumber_add_cycles, firstNumber_add_cycles]
  omega

end Cycles

end Year

theorem Weekday.ofIndex_add_cycles (n : Int) (k : Nat) : ofIndex (n + 146097 * k) = ofIndex n := by
  unfold ofIndex
  rw [show (n + 146097 * k) % 7 = n % 7 by omega]

namespace Date

def IsCyclesAfter (k : Nat) (d e : Date) : Prop := e.number = d.number + 146097 * k

namespace IsCyclesAfter

variable {k : Nat} {d e : Date} (h : IsCyclesAfter k d e)

include h

theorem year_eq : e.year = d.year + 400 * k := by
  rw [year, h, Year.ofNumber_add_cycles, year]

theorem elapsed_eq : e.elapsed = d.elapsed := by
  rw [elapsed, elapsed, h.year_eq, h, Year.firstNumber_add_cycles, Int.add_sub_add_right]

theorem month_eq : e.month = d.month := by
  rw [month, month, h.year_eq, h.elapsed_eq, Year.monthOf_add_cycles]

theorem day_eq : e.day = d.day := by
  rw [day, day, h.elapsed_eq, h.month_eq, h.year_eq, Year.daysBefore_add_cycles]

theorem monthLength_eq : e.monthLength = d.monthLength := by
  rw [monthLength, monthLength, h.year_eq, h.month_eq, Year.monthLength_add_cycles]

theorem yearLength_eq : e.yearLength = d.yearLength := by
  rw [yearLength, yearLength, h.year_eq, Year.length_add_cycles]

theorem weekday_eq : e.weekday = d.weekday := by
  rw [weekday, h, Weekday.ofIndex_add_cycles, weekday]

theorem thursdayNumber_eq : e.thursdayNumber = d.thursdayNumber + 146097 * k := by
  unfold IsCyclesAfter at h
  unfold thursdayNumber
  omega

theorem isoYear_eq : e.isoYear = d.isoYear + 400 * k := by
  rw [isoYear, h.thursdayNumber_eq, Year.ofNumber_add_cycles, isoYear]

theorem isoWeek_eq : e.isoWeek = d.isoWeek := by
  rw [isoWeek, isoWeek, h.isoYear_eq, h.thursdayNumber_eq, Year.firstNumber_add_cycles,
    Int.add_sub_add_right]

theorem isoWeeks_eq : Year.isoWeeks e.isoYear = Year.isoWeeks d.isoYear := by
  have hweekday : (Year.firstNumber d.isoYear + 146097 * k) % 7 =
      Year.firstNumber d.isoYear % 7 := by omega
  rw [isoWeeks_isoYear, isoWeeks_isoYear]
  simp only [h.isoYear_eq, Year.firstNumber_add_cycles, hweekday, Year.isLeap_add_cycles]

theorem hasRank_iff (n : Int) (scope : RankScope) : e.HasRank n scope ↔ d.HasRank n scope := by
  have hplace : e.placeIn scope = d.placeIn scope := by
    cases scope with
    | month => exact h.day_eq
    | year => rw [placeIn, placeIn, dayOfYear, dayOfYear, h.elapsed_eq]
  have hlength : e.lengthOf scope = d.lengthOf scope := by
    cases scope with
    | month => exact h.monthLength_eq
    | year => exact h.yearLength_eq
  rw [HasRank, HasRank, hplace, hlength]

end IsCyclesAfter

/-- A date and the date whole cycles of years later have the same month and day, also on a leap
day. -/
theorem addYears?_cycles (d : Date) (k : Nat) :
    d.addYears? (400 * k) = ofNumber? (d.number + 146097 * k) := by
  have hnumber : civilNumber (d.year + 400 * k) d.month d.day = d.number + 146097 * k := by
    rw [← civilNumber_eq_number d, civilNumber, civilNumber, Year.firstNumber_add_cycles,
      Year.daysBefore_add_cycles]
    omega
  have hday : min d.day (Year.monthLength d.year d.month) = d.day :=
    Nat.min_eq_left d.day_le_monthLength
  simp only [addYears?, Int.natCast_mul, Int.cast_ofNat_Int]
  split
  · rw [Year.monthLength_add_cycles, hday, ofCivil?, Year.monthLength_add_cycles,
      if_pos ⟨d.month_pos, d.month_le, d.day_pos, d.day_le_monthLength⟩, hnumber]
  · -- the year 10000 begins on the day after the last day of the calendar
    have h₁ : Year.firstNumber 10000 ≤ Year.firstNumber (d.year + 400 * k) :=
      Year.firstNumber_le_iff.2 (by omega)
    have h₂ : Year.firstNumber 10000 = 3652059 := by decide
    have h₃ := d.number_eq
    rw [Year.firstNumber_add_cycles] at h₁
    rw [ofNumber?, dif_neg (by omega)]

theorem isCyclesAfter_of_addYears? {k : Nat} {d e : Date} (h : d.addYears? (400 * k) = some e) :
    IsCyclesAfter k d e := by
  rw [addYears?_cycles] at h
  exact ofNumber?_eq_some_iff.1 h

theorem number_le_of_addYears? {d e : Date} {k years : Nat} (hk : 400 * k ≤ years)
    (h : d.addYears? years = some e) : d.number + 146097 * k ≤ e.number := by
  simp only [addYears?, ofCivil?] at h
  split at h
  · split at h
    · have he := ofNumber?_eq_some_iff.1 h
      have hd := d.civilNumber_eq_number
      have hlength := Year.monthLength_bounds (d.year + years) d.month_pos
      have hday := d.day_le_monthLength
      have hday' := Year.monthLength_bounds d.year d.month_pos
      have hleap := Year.leapDays_le_one d.year
      unfold monthLength at hday
      have hbefore : Year.daysBefore d.year d.month ≤
          Year.daysBefore (d.year + years) d.month + 1 := by
        unfold Year.daysBefore
        split <;> omega
      rw [civilNumber] at he hd
      obtain heq | hlt := Nat.eq_or_lt_of_le hk
      · have hyear : d.year + years = d.year + 400 * k := by omega
        rw [hyear, Year.firstNumber_add_cycles, Year.daysBefore_add_cycles,
          Year.monthLength_add_cycles, Nat.min_eq_left hday] at he
        omega
      · have hyear : d.year + 400 * k + 1 ≤ d.year + years := by omega
        have hmono := Year.firstNumber_le_iff.2 hyear
        rw [Year.firstNumber_succ, Year.firstNumber_add_cycles, Year.length] at hmono
        omega
    · cases h
  · cases h

end Date

def DateTime.addYears? (t : DateTime) (years : Nat) : Option DateTime :=
  (t.date.addYears? years).map (⟨·, t.time⟩)

end Recurrence
