import Recurrence.Zone.Basic
import Recurrence.Calendar.Iso8601

namespace Recurrence

structure Zoned where
  timestamp : Timestamp
  zone : Zone
deriving DecidableEq

namespace Zoned

def offset (t : Zoned) : Offset := t.zone.offsetAt t.timestamp.position

def wallClock (t : Zoned) : DateTime :=
  have h₁ := t.timestamp.first_lt
  have h₂ := t.timestamp.lt_last
  have h₃ := t.offset.neg_day_lt
  have h₄ := t.offset.lt_day
  .ofPosition (t.timestamp.position + t.offset.nanos)
    (by unfold Offset.nanos; omega) (by unfold Offset.nanos; omega)

/-- The instant at which the clocks of `zone` show `wall`, unless it lies beyond the time line. -/
def ofWallClock? (zone : Zone) (wall : DateTime) : Option Zoned :=
  (Timestamp.ofPosition? (wall.position - (zone.offsetOn wall.position).nanos)).map (⟨·, zone⟩)

instance : LT Zoned := ⟨fun a b ↦ a.timestamp < b.timestamp⟩

instance : LE Zoned := ⟨fun a b ↦ a.timestamp ≤ b.timestamp⟩

instance : DecidableLT Zoned :=
  fun a b ↦ inferInstanceAs (Decidable (a.timestamp < b.timestamp))

instance : DecidableLE Zoned :=
  fun a b ↦ inferInstanceAs (Decidable (a.timestamp ≤ b.timestamp))

end Zoned

def Offset.iso (o : Offset) : String :=
  let minutes := o.minutes.natAbs
  String.ofList ((if o.minutes < 0 then '-' else '+') ::
    (Decimal.padded 2 (minutes / 60) ++ ':' :: Decimal.padded 2 (minutes % 60)))

def Zoned.iso (t : Zoned) : String := t.wallClock.iso ++ t.offset.iso

end Recurrence
