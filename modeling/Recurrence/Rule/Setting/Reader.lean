import Recurrence.Rule.Setting
import Recurrence.Rule.Error
import Recurrence.Text.Numeral

namespace Recurrence.Setting

def readNumber (param : Param) (n : Int) (item : Slice) : Except RuleError Int :=
  match if param.domain.Contains n then param.narrow? n else none with
  | some n => .ok n
  | none => .error (.badInteger param param.domain item.text item.span)

def readInteger (param : Param) (raw : Slice) : Except RuleError Nat :=
  match Numeral.signed? raw.chars with
  | some n => (readNumber param n raw).map Int.toNat
  | none => .error (.badInteger param param.domain raw.text raw.span)

/-- The items of a list must all have their form before the first of them is read. -/
def readList {α β : Type} [BEq β] (form? : List Char → Option α) (refusal : RuleError)
    (readItem : α → Slice → Except RuleError β) (raw : Slice) : Except RuleError (List β) :=
  let items := raw.splitOn ','
  match items.mapM fun item ↦ form? item.chars with
  | none => .error refusal
  | some forms => do
    let values ← (items.zip forms).mapM fun (item, form) ↦ readItem form item
    return values.eraseDups

def readIntegers (param : Param) (raw : Slice) : Except RuleError (List Int) :=
  readList Numeral.signed? (.badInteger param param.domain raw.text raw.span) (readNumber param) raw

/-- An item of BYDAY: a sign, digits and letters, of which only the letters must be there. -/
structure DayForm where
  sign : Option Char
  digits : List Char
  letters : List Char

namespace DayForm

def splitSign : List Char → Option Char × List Char
  | '+' :: text => (some '+', text)
  | '-' :: text => (some '-', text)
  | text => (none, text)

def ofChars? (text : List Char) : Option DayForm :=
  let (sign, text) := splitSign text
  let digits := text.takeWhile Char.isDigit
  let letters := text.dropWhile Char.isDigit
  if letters ≠ [] ∧ letters.all Char.isAlpha ∧ Decimal.value digits < Numeral.limit then
    some ⟨sign, digits, letters⟩
  else none

/-- The number before the weekday. A sign alone is no number. -/
def ordinal? (form : DayForm) : Option Int :=
  if form.digits = [] then none
  else if form.sign = some '-' then some (-Decimal.value form.digits)
  else some (Decimal.value form.digits)

def read (form : DayForm) (item : Slice) : Except RuleError WeekdayNum :=
  match Weekday.ofCode? (String.ofList form.letters) with
  | none => .error (.badChoice .byDay item.text item.span)
  | some weekday =>
    match form.ordinal? with
    | some n =>
      match (Param.byDay.narrow? n).filter fun n ↦ Domain.weekdayOrdinal.Contains n with
      | some n => .ok ⟨some n, weekday⟩
      | none => .error (.badInteger .byDay .weekdayOrdinal item.text item.span)
    | none =>
      if form.sign = none then .ok ⟨none, weekday⟩
      else .error (.badInteger .byDay .weekdayOrdinal item.text item.span)

end DayForm

def readDays (raw : Slice) : Except RuleError (List WeekdayNum) :=
  readList DayForm.ofChars? (.badChoice .byDay raw.text raw.span) DayForm.read raw

def read (param : Param) (raw : Slice) : Except RuleError Setting :=
  if raw.chars = [] then .error (.missingValue param raw.span)
  else match param with
    | .freq =>
      match Frequency.ofName? raw.text with
      | some value => .ok (.freq value)
      | none => .error (.badChoice .freq raw.text raw.span)
    | .interval => (readInteger .interval raw).map interval
    | .count => (readInteger .count raw).map count
    | .bound =>
      match Until.ofChars? raw.chars with
      | some value => .ok (.bound value)
      | none => .error (.badDate raw.text raw.span)
    | .byMonth => (readIntegers .byMonth raw).map byMonth
    | .byWeekNo => (readIntegers .byWeekNo raw).map byWeekNo
    | .byMonthDay => (readIntegers .byMonthDay raw).map byMonthDay
    | .byDay => (readDays raw).map byDay
    | .bySetPos => (readIntegers .bySetPos raw).map bySetPos

end Recurrence.Setting
