import Recurrence.Calendar.Date
import Recurrence.Rule.Frequency

namespace Recurrence

namespace Frequency

def unitOf (f : Frequency) (d : Date) : Int :=
  match f with
  | daily => d.number
  | weekly => d.number / 7
  | monthly => d.year * 12 + d.month - 1
  | yearly => d.year

def firstNumber (f : Frequency) (unit : Int) : Int :=
  match f with
  | daily => unit
  | weekly => unit * 7
  | monthly => Date.civilNumber (unit / 12) ((unit % 12).toNat + 1) 1
  | yearly => Year.firstNumber unit

def days (f : Frequency) (unit : Int) : List Date :=
  (List.range (f.firstNumber (unit + 1) - f.firstNumber unit).toNat).filterMap
    fun i : Nat ↦ Date.ofNumber? (f.firstNumber unit + i)

def reach : Frequency → Nat
  | daily => 7304484
  | weekly => 1043497
  | monthly => 239976
  | yearly => 19998

theorem reach_le_count (f : Frequency) : f.reach ≤ Date.count := by cases f <;> decide

end Frequency

/-- Every `interval`-th unit, from unit `base` on. -/
structure Periods where
  freq : Frequency
  base : Int
  interval : Nat
  interval_pos : 1 ≤ interval

namespace Periods

def unit (p : Periods) (n : Nat) : Int := p.base + (n * p.interval : Nat)

def start? (p : Periods) (n : Nat) : Option Date :=
  if n * p.interval ≤ p.freq.reach then Date.ofNumber? (p.freq.firstNumber (p.unit n)) else none

/-- The period before the one that holds `d`, or before the gap between periods that does. -/
def indexBefore (p : Periods) (d : Date) : Nat :=
  (p.freq.unitOf d - p.base).toNat / p.interval - 1

theorem le_count_of_start? {p : Periods} {n : Nat} {d : Date} (h : p.start? n = some d) :
    n ≤ Date.count := by
  unfold start? at h
  split at h
  · exact Nat.le_trans (Nat.le_mul_of_pos_right n p.interval_pos)
      (Nat.le_trans ‹_› p.freq.reach_le_count)
  · cases h

end Periods

end Recurrence
