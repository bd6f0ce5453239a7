import Recurrence.Rule.Param
import Recurrence.Rule.Until

namespace Recurrence

inductive Setting where
  | freq (value : Frequency)
  | interval (value : Nat)
  | count (value : Nat)
  | bound (value : Until)
  | byMonth (values : List Int)
  | byWeekNo (values : List Int)
  | byMonthDay (values : List Int)
  | byDay (values : List WeekdayNum)
  | bySetPos (values : List Int)
deriving DecidableEq

namespace Setting

def param : Setting → Param
  | freq _ => .freq
  | interval _ => .interval
  | count _ => .count
  | bound _ => .bound
  | byMonth _ => .byMonth
  | byWeekNo _ => .byWeekNo
  | byMonthDay _ => .byMonthDay
  | byDay _ => .byDay
  | bySetPos _ => .bySetPos

def freq? : Setting → Option Frequency
  | freq value => some value
  | _ => none

def interval? : Setting → Option Nat
  | interval value => some value
  | _ => none

def count? : Setting → Option Nat
  | count value => some value
  | _ => none

def bound? : Setting → Option Until
  | bound value => some value
  | _ => none

def byMonth? : Setting → Option (List Int)
  | byMonth values => some values
  | _ => none

def byWeekNo? : Setting → Option (List Int)
  | byWeekNo values => some values
  | _ => none

def byMonthDay? : Setting → Option (List Int)
  | byMonthDay values => some values
  | _ => none

def byDay? : Setting → Option (List WeekdayNum)
  | byDay values => some values
  | _ => none

def bySetPos? : Setting → Option (List Int)
  | bySetPos values => some values
  | _ => none

def listChars {α : Type} (item : α → List Char) (values : List α) : List Char :=
  [','].intercalate (values.map item)

def valueChars : Setting → List Char
  | freq value => value.name.toList
  | interval value => Decimal.ofNat value
  | count value => Decimal.ofNat value
  | bound value => value.chars
  | byMonth values
  | byWeekNo values
  | byMonthDay values
  | bySetPos values => listChars Decimal.ofInt values
  | byDay values => listChars WeekdayNum.chars values

def chars (s : Setting) : List Char := s.param.name.toList ++ '=' :: s.valueChars

end Setting

end Recurrence
