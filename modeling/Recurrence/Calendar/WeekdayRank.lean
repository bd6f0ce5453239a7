import Recurrence.Calendar.Date

namespace Recurrence

inductive RankScope where
  | month
  | year
deriving DecidableEq, Repr

namespace Date

def placeIn (d : Date) : RankScope → Nat
  | .month => d.day
  | .year => d.dayOfYear

def lengthOf (d : Date) : RankScope → Nat
  | .month => d.monthLength
  | .year => d.yearLength

/-- A positive rank counts from the start of the month or year, a negative one from the end. -/
def HasRank (d : Date) (n : Int) (scope : RankScope) : Prop :=
  if 0 < n then (((d.placeIn scope - 1) / 7 + 1 : Nat) : Int) = n
  else (((d.lengthOf scope - d.placeIn scope) / 7 + 1 : Nat) : Int) = -n

instance (d : Date) (n : Int) (scope : RankScope) : Decidable (d.HasRank n scope) := by
  unfold HasRank
  infer_instance

end Date

end Recurrence
