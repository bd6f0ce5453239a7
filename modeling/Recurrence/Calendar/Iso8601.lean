import Recurrence.Calendar.DateTime
import Recurrence.Text.Decimal

namespace Recurrence

def Year.iso (y : Int) : List Char :=
  if y < 0 then '-' :: Decimal.padded 6 y.natAbs else Decimal.padded 4 y.natAbs

def Year.readIso? : List Char → Option (Int × List Char)
  | '-' :: text => (Decimal.read? 6 text).map fun (n, rest) ↦ (-n, rest)
  | text => (Decimal.read? 4 text).map fun (n, rest) ↦ (n, rest)

namespace Date

def iso (d : Date) : List Char :=
  Year.iso d.year ++ '-' :: Decimal.padded 2 d.month ++ '-' :: Decimal.padded 2 d.day

def readIso? (text : List Char) : Option (Date × List Char) := do
  let (year, text) ← Year.readIso? text
  let '-' :: text := text | none
  let (month, text) ← Decimal.read? 2 text
  let '-' :: text := text | none
  let (day, text) ← Decimal.read? 2 text
  let date ← ofCivil? year month day
  return (date, text)

def ofIso? (text : String) : Option Date :=
  match readIso? text.toList with
  | some (date, []) => some date
  | _ => none

end Date

namespace Time

def fractionDigits (t : Time) : List Char :=
  ((Decimal.padded 9 t.fraction).reverse.dropWhile (· = '0')).reverse

def iso (t : Time) : List Char :=
  Decimal.padded 2 t.hour ++ ':' :: Decimal.padded 2 t.minute ++ ':' :: Decimal.padded 2 t.second ++
    if t.fraction = 0 then [] else '.' :: t.fractionDigits

def readFraction? : List Char → Option Nat
  | [] => some 0
  | '.' :: digits =>
    if 1 ≤ digits.length ∧ digits.length ≤ 9 ∧ digits.all Char.isDigit then
      some (Decimal.value (digits.rightpad 9 '0'))
    else none
  | _ => none

def readIso? (text : List Char) : Option Time := do
  let (hour, text) ← Decimal.read? 2 text
  let ':' :: text := text | none
  let (minute, text) ← Decimal.read? 2 text
  let ':' :: text := text | none
  let (second, text) ← Decimal.read? 2 text
  let nano ← readFraction? text
  ofClock? hour minute second nano

end Time

namespace DateTime

def iso (t : DateTime) : String := String.ofList (t.date.iso ++ 'T' :: t.time.iso)

def ofIso? (text : String) : Option DateTime := do
  let (date, text) ← Date.readIso? text.toList
  let 'T' :: text := text | none
  let time ← Time.readIso? text
  return ⟨date, time⟩

end DateTime

end Recurrence
