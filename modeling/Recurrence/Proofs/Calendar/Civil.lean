import Mathlib.Tactic.IntervalCases
import Recurrence.Calendar.DateTime
import Recurrence.Proofs.Calendar.YearsLater

namespace Recurrence

namespace Year

def monthLengths (y : Int) : List Nat :=
  [31, if IsLeap y then 29 else 28, 31, 30, 31, 30, 31, 31, 30, 31, 30, 31]

theorem getElem?_monthLengths (y : Int) {m : Nat} (hpos : 1 ≤ m) (hle : m ≤ 12) :
    (monthLengths y)[m - 1]? = some (monthLength y m) := by
  by_cases hfeb : m = 2
  · rw [hfeb, monthLength_two, leapDays]
    by_cases hleap : IsLeap y <;> simp [monthLengths, hleap]
  · have hlength : monthLength y m = daysBefore 1 (m + 1) - daysBefore 1 m := by
      unfold monthLength daysBefore
      split <;> split <;> omega
    rw [hlength]
    interval_cases m <;> first | contradiction | rfl

end Year

namespace Date

variable {year : Int} {month day : Nat} {d : Date}

def IsCivil (year : Int) (month day : Nat) : Prop :=
  1 ≤ month ∧ ∃ length ∈ (Year.monthLengths year)[month - 1]?, 1 ≤ day ∧ day ≤ length

theorem isCivil_iff : IsCivil year month day ↔
    1 ≤ month ∧ month ≤ 12 ∧ 1 ≤ day ∧ day ≤ Year.monthLength year month := by
  constructor
  · rintro ⟨hpos, length, hlength, hday⟩
    have hle : month ≤ 12 := by
      have hlt := (List.getElem?_eq_some_iff.1 hlength).1
      simp only [Year.monthLengths, List.length_cons, List.length_nil] at hlt
      omega
    rw [Year.getElem?_monthLengths year hpos hle, Option.mem_some_iff] at hlength
    rw [hlength]
    exact ⟨hpos, hle, hday⟩
  · rintro ⟨hpos, hle, hday⟩
    exact ⟨hpos, _, Year.getElem?_monthLengths year hpos hle, hday⟩

theorem isCivil (d : Date) : IsCivil d.year d.month d.day :=
  isCivil_iff.2 ⟨d.month_pos, d.month_le, d.day_pos, d.day_le_monthLength⟩

theorem civil_of_civilNumber_eq (h : IsCivil year month day)
    (hnumber : civilNumber year month day = d.number) :
    d.year = year ∧ d.month = month ∧ d.day = day := by
  obtain ⟨hpos, hle, hday, hlength⟩ := isCivil_iff.1 h
  have hself := d.civilNumber_eq_number
  have hyear : d.year = year := by
    rcases lt_trichotomy d.year year with hlt | heq | hlt
    · have hnumbers := civilNumber_lt_of_year_lt hlt d.month_pos d.month_le d.day_le_monthLength hday
        (n := month)
      omega
    · exact heq
    · have hnumbers := civilNumber_lt_of_year_lt hlt hpos hle hlength d.day_pos (n := d.month)
      omega
  subst hyear
  have hmonth : d.month = month := by
    rcases lt_trichotomy d.month month with hlt | heq | hlt
    · have hnumbers := civilNumber_lt_of_month_lt d.month_pos hlt d.day_le_monthLength hday
      omega
    · exact heq
    · have hnumbers := civilNumber_lt_of_month_lt hpos hlt hlength d.day_pos
      omega
  subst hmonth
  refine ⟨rfl, rfl, ?_⟩
  unfold civilNumber at hself hnumber
  omega

theorem ofCivil?_eq_some_iff :
    ofCivil? year month day = some d ↔ d.year = year ∧ d.month = month ∧ d.day = day := by
  constructor
  · intro h
    rw [ofCivil?] at h
    split at h
    next hcivil =>
      exact civil_of_civilNumber_eq (isCivil_iff.2 hcivil) (ofNumber?_eq_some_iff.1 h).symm
    next => contradiction
  · rintro ⟨rfl, rfl, rfl⟩
    exact d.ofCivil?_year_month_day

theorem exists_civil_iff : (∃ d : Date, d.year = year ∧ d.month = month ∧ d.day = day) ↔
    -9999 ≤ year ∧ year ≤ 9999 ∧ IsCivil year month day := by
  constructor
  · rintro ⟨d, rfl, rfl, rfl⟩
    obtain ⟨hfirst, hlast⟩ := Year.ofNumber_bounds d.first_le d.le_last
    exact ⟨hfirst, hlast, d.isCivil⟩
  · rintro ⟨hfirst, hlast, h⟩
    obtain ⟨hpos, hle, hday, hlength⟩ := isCivil_iff.1 h
    obtain ⟨h₁, h₂⟩ := Year.firstNumber_calendar
    have hbegin := Year.firstNumber_le_iff.2 hfirst
    have hend := Year.firstNumber_le_iff.2 (show year + 1 ≤ 10000 by omega)
    have hmonth := Year.daysBefore_add_monthLength_le year hpos hle
    rw [Year.firstNumber_succ] at hend
    have hnumber : -3652425 ≤ civilNumber year month day ∧
        civilNumber year month day ≤ 3652058 := by
      unfold civilNumber
      omega
    obtain ⟨d, hd⟩ := Option.isSome_iff_exists.1 (ofNumber?_isSome_iff.2 hnumber)
    exact ⟨d, civil_of_civilNumber_eq h (ofNumber?_eq_some_iff.1 hd).symm⟩

end Date

namespace Time

variable {hour minute second nano : Nat} {t : Time}

theorem clock_bounds (t : Time) :
    t.hour < 24 ∧ t.minute < 60 ∧ t.second < 60 ∧ t.fraction < 1000000000 := by
  have hlt := t.lt_day
  simp only [Time.hour, Time.minute, Time.second, Time.fraction]
  omega

theorem ofClock?_eq_some_iff : ofClock? hour minute second nano = some t ↔
    t.hour = hour ∧ t.minute = minute ∧ t.second = second ∧ t.fraction = nano := by
  constructor
  · intro h
    rw [ofClock?] at h
    split at h
    next hclock =>
      obtain rfl := Option.some.inj h
      simp only [Time.hour, Time.minute, Time.second, Time.fraction]
      omega
    next => contradiction
  · rintro ⟨rfl, rfl, rfl, rfl⟩
    rw [ofClock?, dif_pos t.clock_bounds, Option.some.injEq, Time.mk.injEq]
    simp only [Time.hour, Time.minute, Time.second, Time.fraction]
    omega

theorem exists_clock_iff :
    (∃ t : Time, t.hour = hour ∧ t.minute = minute ∧ t.second = second ∧ t.fraction = nano) ↔
      hour < 24 ∧ minute < 60 ∧ second < 60 ∧ nano < 1000000000 := by
  simp only [← ofClock?_eq_some_iff, ← Option.isSome_iff_exists, ofClock?]
  split <;> simp [*]

end Time

end Recurrence
