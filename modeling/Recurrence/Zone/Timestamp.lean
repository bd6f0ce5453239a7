import Recurrence.Calendar.DateTime

/-!
Instants on the UTC time line, which lies between -9999-01-02T01:59:58 and 9999-12-30T22:00:01
without these two. It stays at least 25:59:58 away from both ends of the calendar, so that an
instant has a wall-clock reading at every offset.
-/

namespace Recurrence

structure Timestamp where
  position : Int
  first_lt : -315569426402000000000 < position
  lt_last : position < 315537804001000000000
deriving DecidableEq

namespace Timestamp

def ofPosition? (n : Int) : Option Timestamp :=
  if h : -315569426402000000000 < n ∧ n < 315537804001000000000 then some ⟨n, h.1, h.2⟩ else none

/-- Seconds since 1970-01-01T00:00:00Z, which is day 719162. -/
def ofUnix? (seconds : Int) : Option Timestamp :=
  ofPosition? ((719162 * 86400 + seconds) * 1000000000)

def ofUtc? (t : DateTime) : Option Timestamp := ofPosition? t.position

def utc (t : Timestamp) : DateTime :=
  have h₁ := t.first_lt
  have h₂ := t.lt_last
  .ofPosition t.position (by omega) (by omega)

instance : LT Timestamp := ⟨fun a b ↦ a.position < b.position⟩

instance : LE Timestamp := ⟨fun a b ↦ a.position ≤ b.position⟩

instance : DecidableLT Timestamp :=
  fun a b ↦ inferInstanceAs (Decidable (a.position < b.position))

instance : DecidableLE Timestamp :=
  fun a b ↦ inferInstanceAs (Decidable (a.position ≤ b.position))

theorem ofPosition?_eq_some_iff {n : Int} {t : Timestamp} :
    ofPosition? n = some t ↔ t.position = n := by
  unfold ofPosition?
  constructor
  · intro h
    split at h
    · cases h; rfl
    · cases h
  · rintro rfl
    rw [dif_pos ⟨t.first_lt, t.lt_last⟩]

end Timestamp

end Recurrence
