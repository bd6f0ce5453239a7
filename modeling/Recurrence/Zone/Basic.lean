import Recurrence.Zone.Timestamp

/-!
Time zones as clock changes. Each change moves the clocks from one UTC offset to another at some
instant. An instant is read with the offset after the last change up to it. A wall-clock reading
that a change skips or repeats takes the offset before the change, so a skipped reading stands for
a later one and a repeated reading for its first turn.
-/

namespace Recurrence

/-- Minutes east of UTC, less than 26 hours either way. -/
structure Offset where
  minutes : Int
  neg_day_lt : -1560 < minutes
  lt_day : minutes < 1560
deriving DecidableEq

namespace Offset

def utc : Offset := ⟨0, by decide, by decide⟩

def nanos (o : Offset) : Int := o.minutes * 60000000000

end Offset

/-- One change of the clocks, at an instant counted like `Timestamp.position`. -/
structure Transition where
  instant : Int
  before : Offset
  after : Offset
deriving DecidableEq

/-- The first wall-clock reading with the new offset that the change neither skips nor repeats. -/
def Transition.settled (t : Transition) : Int := t.instant + max t.before.nanos t.after.nanos

inductive SundayRule where
  | nth (n : Nat)
  | last
deriving DecidableEq

namespace SundayRule

/-- The day number of the Sunday. Sundays are the days whose number leaves 6 modulo 7. -/
def number (rule : SundayRule) (year : Int) (month : Nat) : Int :=
  match rule with
  | nth n =>
    let earliest := Date.civilNumber year month (7 * n - 6)
    earliest + (6 - earliest) % 7
  | last =>
    let latest := Date.civilNumber year month (Year.monthLength year month)
    latest - (latest - 6) % 7

end SundayRule

/-- A change that comes every year on a Sunday, so many minutes after midnight on the clocks as
they are before it. -/
structure YearlyChange where
  month : Nat
  sunday : SundayRule
  minute : Nat
  before : Offset
  after : Offset
deriving DecidableEq

def YearlyChange.transition (c : YearlyChange) (year : Int) : Transition where
  instant := (c.sunday.number year c.month * 1440 + c.minute - c.before.minutes) * 60000000000
  before := c.before
  after := c.after

/-- A zone keeps one offset, changes its clocks twice a year, or has changed them once. -/
inductive Zone where
  | fixed (offset : Offset)
  | seasonal (first second : YearlyChange)
  | shifted (change : Transition)
deriving DecidableEq

namespace Zone

/-- The changes that bear on a year, in their order. -/
def transitions (z : Zone) (year : Int) : List Transition :=
  match z with
  | fixed _ => []
  | seasonal first second => [first.transition year, second.transition year]
  | shifted change => [change]

def opening : Zone → Offset
  | fixed offset => offset
  | seasonal first _ => first.before
  | shifted change => change.before

def offsetAt (z : Zone) (instant : Int) : Offset :=
  (z.transitions (Year.ofNumber (instant / 86400000000000))).foldl
    (fun o t ↦ if t.instant ≤ instant then t.after else o) z.opening

def offsetOn (z : Zone) (wall : Int) : Offset :=
  (z.transitions (Year.ofNumber (wall / 86400000000000))).foldl
    (fun o t ↦ if t.settled ≤ wall then t.after else o) z.opening

end Zone

end Recurrence
