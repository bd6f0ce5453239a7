import Recurrence.Calendar.Weekday
import Recurrence.Calendar.Year

namespace Recurrence

structure Date where
  number : Int
  first_le : -3652425 ≤ number
  le_last : number ≤ 3652058
deriving DecidableEq

namespace Date

def count : Nat := 7304484

def ofNumber? (n : Int) : Option Date :=
  if h : -3652425 ≤ n ∧ n ≤ 3652058 then some ⟨n, h.1, h.2⟩ else none

instance : LT Date := ⟨fun a b ↦ a.number < b.number⟩

instance : LE Date := ⟨fun a b ↦ a.number ≤ b.number⟩

instance : DecidableLT Date := fun a b ↦ inferInstanceAs (Decidable (a.number < b.number))

instance : DecidableLE Date := fun a b ↦ inferInstanceAs (Decidable (a.number ≤ b.number))

/-- Day number 0 is a Monday. -/
def weekday (d : Date) : Weekday := .ofIndex d.number

@[inline]
def year (d : Date) : Int := Year.ofNumber d.number

@[inline]
def elapsed (d : Date) : Nat := (d.number - Year.firstNumber d.year).toNat

def dayOfYear (d : Date) : Nat := d.elapsed + 1

@[inline]
def month (d : Date) : Nat := Year.monthOf d.year d.elapsed

def day (d : Date) : Nat := d.elapsed - Year.daysBefore d.year d.month + 1

def monthLength (d : Date) : Nat := Year.monthLength d.year d.month

def yearLength (d : Date) : Nat := Year.length d.year

def civilNumber (year : Int) (month day : Nat) : Int :=
  Year.firstNumber year + Year.daysBefore year month + day - 1

def ofCivil? (year : Int) (month day : Nat) : Option Date :=
  if 1 ≤ month ∧ month ≤ 12 ∧ 1 ≤ day ∧ day ≤ Year.monthLength year month then
    ofNumber? (civilNumber year month day)
  else none

/-- The same month and day so many years later. A month that is too short gives its last day. -/
def addYears? (d : Date) (years : Nat) : Option Date :=
  let year := d.year + years
  if year ≤ 9999 then ofCivil? year d.month (min d.day (Year.monthLength year d.month)) else none

theorem ofNumber?_eq_some_iff {n : Int} {d : Date} : ofNumber? n = some d ↔ d.number = n := by
  unfold ofNumber?
  constructor
  · intro h
    split at h
    · cases h; rfl
    · cases h
  · rintro rfl
    rw [dif_pos ⟨d.first_le, d.le_last⟩]

@[simp]
theorem ofNumber?_number (d : Date) : ofNumber? d.number = some d := ofNumber?_eq_some_iff.2 rfl

theorem ofNumber?_isSome_iff {n : Int} :
    (ofNumber? n).isSome ↔ -3652425 ≤ n ∧ n ≤ 3652058 := by
  unfold ofNumber?
  split <;> simp [*]

theorem number_eq (d : Date) : d.number = Year.firstNumber d.year + d.elapsed := by
  have := Year.firstNumber_ofNumber_le d.number
  unfold elapsed year
  omega

theorem elapsed_lt (d : Date) : d.elapsed < d.yearLength := by
  have := Year.lt_firstNumber_ofNumber_succ d.number
  have := Year.firstNumber_ofNumber_le d.number
  rw [Year.firstNumber_succ] at *
  unfold elapsed yearLength year
  omega

theorem month_pos (d : Date) : 1 ≤ d.month := Year.monthOf_pos _ _

theorem month_le (d : Date) : d.month ≤ 12 := Year.monthOf_le d.elapsed_lt

theorem day_pos (d : Date) : 1 ≤ d.day := by
  unfold day
  omega

theorem day_le_monthLength (d : Date) : d.day ≤ d.monthLength := by
  have h₁ := Year.daysBefore_monthOf_le d.year d.elapsed
  have h₂ := Year.lt_daysBefore_monthOf_succ d.year d.elapsed
  unfold day monthLength Year.monthLength month
  omega

theorem civilNumber_eq_number (d : Date) : civilNumber d.year d.month d.day = d.number := by
  have h := Year.daysBefore_monthOf_le d.year d.elapsed
  rw [number_eq]
  unfold civilNumber day month
  omega

@[simp]
theorem ofCivil?_year_month_day (d : Date) : ofCivil? d.year d.month d.day = some d := by
  rw [ofCivil?, if_pos ⟨d.month_pos, d.month_le, d.day_pos, d.day_le_monthLength⟩,
    civilNumber_eq_number, ofNumber?_number]

end Date

end Recurrence
