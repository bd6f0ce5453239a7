import Recurrence.Zone.Timestamp
import Recurrence.Text.Decimal

namespace Recurrence

inductive Until where
  | date (day : Date)
  | floating (reading : DateTime)
  | utc (reading : DateTime)
deriving DecidableEq

namespace Until

def dateTime : Until → DateTime
  | date day => day.midnight
  | floating reading => reading
  | utc reading => reading

/-- The end as an instant, if it is given in UTC and lies on the time line. -/
def timestamp? : Until → Option Timestamp
  | utc reading => Timestamp.ofUtc? reading
  | _ => none

def dateChars (d : Date) : List Char :=
  Decimal.paddedInt 4 d.year ++ Decimal.padded 2 d.month ++ Decimal.padded 2 d.day

def readingChars (t : DateTime) : List Char :=
  dateChars t.date ++ 'T' :: Decimal.padded 2 t.time.hour ++ Decimal.padded 2 t.time.minute ++
    Decimal.padded 2 t.time.second

/-- The written form, in which fractions of a second are dropped. -/
def chars : Until → List Char
  | date day => dateChars day
  | floating reading => readingChars reading
  | utc reading => readingChars reading ++ ['Z']

def skip (separator : Char) : List Char → List Char
  | [] => []
  | c :: text => if c = separator then text else c :: text

def readDate? (text : List Char) : Option (Date × List Char) := do
  let (year, text) ← Decimal.read? 4 text
  let (month, text) ← Decimal.read? 2 (skip '-' text)
  let (day, text) ← Decimal.read? 2 (skip '-' text)
  return (← Date.ofCivil? year month day, text)

/-- Reads a time. The seconds after 59, for which there is no place on a clock, count as 59. -/
def readTime? (text : List Char) : Option (Time × List Char) := do
  let (hour, text) ← Decimal.read? 2 text
  let (minute, text) ← Decimal.read? 2 (skip ':' text)
  let (second, text) ← Decimal.read? 2 (skip ':' text)
  return (← Time.ofClock? hour minute (min second 59) 0, text)

def ofChars? (text : List Char) : Option Until := do
  let (day, text) ← readDate? text
  match text with
  | [] => return .date day
  | 'T' :: text =>
    let (time, text) ← readTime? text
    match text with
    | [] => return .floating ⟨day, time⟩
    | ['Z'] => return .utc ⟨day, time⟩
    | _ => none
  | _ => none

end Until

end Recurrence
