import Recurrence.Rule.Frequency
import Recurrence.Rule.WeekdayNum

namespace Recurrence

inductive Param where
  | freq
  | interval
  | count
  | bound
  | byMonth
  | byWeekNo
  | byMonthDay
  | byDay
  | bySetPos
deriving DecidableEq, Repr

/-- A domain of values. An integer range may leave out zero. -/
inductive Domain where
  | choice (names : List String)
  | integer (min max : Int) (zero : Bool)
  | dateTime
deriving DecidableEq

namespace Domain

def countMax : Int := 4294967295

def Contains (v : Int) : Domain → Prop
  | integer min max zero => min ≤ v ∧ v ≤ max ∧ (zero = true ∨ v ≠ 0)
  | _ => False

instance (v : Int) (d : Domain) : Decidable (d.Contains v) :=
  match d with
  | integer .. => inferInstanceAs (Decidable (_ ∧ _))
  | choice _ => .isFalse id
  | dateTime => .isFalse id

def weekdayOrdinal : Domain := .integer (-53) 53 false

def description : Domain → String
  | choice names => "one of " ++ ", ".intercalate names
  | integer min max zero =>
    if min = 1 ∧ max = countMax then "a positive integer"
    else if min = 0 ∧ max = countMax then "a non-negative integer"
    else if min < 0 ∧ zero = false then s!"an integer in {min}..=-1 or 1..={max}"
    else s!"an integer in {min}..={max}"
  | dateTime =>
    "a date or date-time such as 20250103, 20250103T090000Z or 2025-01-03T09:00:00"

end Domain

namespace Param

def all : List Param :=
  [freq, interval, count, bound, byMonth, byWeekNo, byMonthDay, byDay, bySetPos]

def name : Param → String
  | freq => "FREQ"
  | interval => "INTERVAL"
  | count => "COUNT"
  | bound => "UNTIL"
  | byMonth => "BYMONTH"
  | byWeekNo => "BYWEEKNO"
  | byMonthDay => "BYMONTHDAY"
  | byDay => "BYDAY"
  | bySetPos => "BYSETPOS"

def ofName? (text : String) : Option Param := literal? all name text

def domain : Param → Domain
  | freq => .choice (Frequency.all.map Frequency.name)
  | interval => .integer 1 Domain.countMax false
  | count => .integer 0 Domain.countMax true
  | bound => .dateTime
  | byMonth => .integer 1 12 false
  | byWeekNo => .integer (-53) 53 false
  | byMonthDay => .integer (-31) 31 false
  | byDay => .choice (Weekday.all.map Weekday.code)
  | bySetPos => .integer (-366) 366 false

/-- The least and the greatest number that the integers of a parameter are kept as: in 32 or in 8 bits
without a sign, or in 8 or in 16 with one. -/
def capacity : Param → Int × Int
  | interval | count => (0, UInt32.size - 1)
  | byMonth => (0, UInt8.size - 1)
  | byWeekNo | byMonthDay | byDay => (Int8.minValue.toInt, Int8.maxValue.toInt)
  | bySetPos => (Int16.minValue.toInt, Int16.maxValue.toInt)
  | freq | bound => (0, 0)

/-- The number in the form that it is kept in, if that has room for it. -/
def narrow? (p : Param) (n : Int) : Option Int :=
  if p.capacity.1 ≤ n ∧ n ≤ p.capacity.2 then some n else none

theorem mem_all (p : Param) : p ∈ all := by cases p <;> decide

end Param

end Recurrence
