import Recurrence.Text.Decimal

namespace Recurrence.Numeral

def limit : Nat := 9223372036854775808

def unsigned? (text : List Char) : Option Nat :=
  if text ≠ [] ∧ text.all Char.isDigit ∧ Decimal.value text < limit then
    some (Decimal.value text)
  else none

def signed? : List Char → Option Int
  | '+' :: digits => (unsigned? digits).map fun n ↦ n
  | '-' :: digits => (unsigned? digits).map fun n ↦ -n
  | digits => (unsigned? digits).map fun n ↦ n

end Recurrence.Numeral
