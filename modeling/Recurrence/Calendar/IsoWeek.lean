import Recurrence.Calendar.Date

namespace Recurrence

/-- The number of weeks of a year: 53 if it begins on a Thursday, or on a Wednesday before a leap
year's extra day, otherwise 52. A year that the calendar does not hold is given 52 as well. -/
def Year.isoWeeks (y : Int) : Nat :=
  match Date.ofCivil? y 1 1 with
  | none => 52
  | some first =>
    match first.weekday with
    | .thursday => 53
    | .wednesday => if Year.IsLeap y then 53 else 52
    | _ => 52

namespace Date

def thursdayNumber (d : Date) : Int := d.number - d.number % 7 + 3

def isoYear (d : Date) : Int := Year.ofNumber d.thursdayNumber

def isoWeek (d : Date) : Nat :=
  ((d.thursdayNumber - Year.firstNumber d.isoYear) / 7).toNat + 1

theorem isoWeek_pos (d : Date) : 1 ≤ d.isoWeek := Nat.le_add_left 1 _

end Date

end Recurrence
