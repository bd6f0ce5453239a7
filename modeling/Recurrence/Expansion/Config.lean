namespace Recurrence

/-- A search ends after so many years, times the interval of the rule, without an occurrence. -/
structure Config where
  maxEmptyYears : Nat := 400
  le_max : maxEmptyYears ≤ 4294967295 := by decide
deriving DecidableEq

namespace Config

def ofYears? (years : Nat) : Option Config :=
  if h : years ≤ 4294967295 then some ⟨years, h⟩ else none

end Config

end Recurrence
