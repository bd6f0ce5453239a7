import Recurrence.Rule.Until
import Recurrence.Zone.Zoned

namespace Recurrence

class Instant (τ : Type) where
  wallClock : τ → DateTime
  /-- The instant at which the same clock shows another reading, if there is one. -/
  atWallClock? : τ → DateTime → Option τ
  exceeds : τ → Until → Bool

instance : Instant DateTime where
  wallClock t := t
  atWallClock? _ reading := some reading
  exceeds t bound := bound.dateTime < t

/-- An end given in UTC is compared as an instant, any other with the wall clock. -/
instance : Instant Zoned where
  wallClock := Zoned.wallClock
  atWallClock? t reading := Zoned.ofWallClock? t.zone reading
  exceeds t bound :=
    match bound.timestamp? with
    | some stamp => stamp < t.timestamp
    | none => bound.dateTime < t.wallClock

end Recurrence
