import Recurrence.Calendar.Weekday
import Recurrence.Text.Decimal
import Recurrence.Text.Literal

namespace Recurrence

def Weekday.ofCode? (text : String) : Option Weekday := literal? all code text

/-- A weekday, alone or counted within a month or year from its start, or from its end if the
ordinal is negative. -/
structure WeekdayNum where
  ordinal : Option Int
  weekday : Weekday
deriving DecidableEq

def WeekdayNum.chars (d : WeekdayNum) : List Char :=
  (d.ordinal.map Decimal.ofInt).getD [] ++ d.weekday.code.toList

end Recurrence
