import Recurrence.Calendar.Date

namespace Recurrence

structure Time where
  nanos : Nat
  lt_day : nanos < 86400000000000
deriving DecidableEq

namespace Time

def midnight : Time := ⟨0, by decide⟩

def ofClock? (hour minute second nano : Nat) : Option Time :=
  if h : hour < 24 ∧ minute < 60 ∧ second < 60 ∧ nano < 1000000000 then
    some ⟨((hour * 60 + minute) * 60 + second) * 1000000000 + nano, by omega⟩
  else none

def hour (t : Time) : Nat := t.nanos / 3600000000000

def minute (t : Time) : Nat := t.nanos / 60000000000 % 60

def second (t : Time) : Nat := t.nanos / 1000000000 % 60

def fraction (t : Time) : Nat := t.nanos % 1000000000

end Time

structure DateTime where
  date : Date
  time : Time
deriving DecidableEq

def Date.midnight (d : Date) : DateTime := ⟨d, .midnight⟩

namespace DateTime

/-- The nanoseconds since 0001-01-01T00:00:00. -/
def position (t : DateTime) : Int := t.date.number * 86400000000000 + t.time.nanos

instance : LT DateTime := ⟨fun a b ↦ a.position < b.position⟩

instance : LE DateTime := ⟨fun a b ↦ a.position ≤ b.position⟩

def ofPosition (n : Int) (first_le : -315569520000000000000 ≤ n)
    (lt_last : n < 315537897600000000000) : DateTime where
  date := ⟨n / 86400000000000, by omega, by omega⟩
  time := ⟨(n % 86400000000000).toNat, by omega⟩

@[simp]
theorem position_ofPosition (n : Int) (h₁ h₂) : (ofPosition n h₁ h₂).position = n := by
  simp only [ofPosition, position]
  omega

theorem position_inj {a b : DateTime} : a.position = b.position ↔ a = b := by
  refine ⟨fun h ↦ ?_, congrArg _⟩
  obtain ⟨⟨m, _, _⟩, s, hs⟩ := a
  obtain ⟨⟨n, _, _⟩, t, ht⟩ := b
  simp only [position] at h
  obtain rfl : m = n := by omega
  obtain rfl : s = t := by omega
  rfl

theorem lt_iff_date_lt_or_time_lt {a b : DateTime} :
    a < b ↔ a.date < b.date ∨ a.date = b.date ∧ a.time.nanos < b.time.nanos := by
  obtain ⟨⟨m, _, _⟩, s, hs⟩ := a
  obtain ⟨⟨n, _, _⟩, t, ht⟩ := b
  change m * 86400000000000 + s < n * 86400000000000 + t ↔ m < n ∨ Date.mk m _ _ = ⟨n, _, _⟩ ∧ s < t
  rw [Date.mk.injEq]
  omega

instance : DecidableLT DateTime := fun _ _ ↦ decidable_of_iff' _ lt_iff_date_lt_or_time_lt

theorem le_iff_not_lt {a b : DateTime} : a ≤ b ↔ ¬ b < a := Int.not_lt.symm

instance : DecidableLE DateTime := fun _ _ ↦ decidable_of_iff' _ le_iff_not_lt

end DateTime

end Recurrence
