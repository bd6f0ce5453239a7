import Mathlib.Order.Defs.Unbundled
import Recurrence.Instant

namespace Recurrence

class Timeline (τ : Type) [LT τ] where
  position : τ → Int
  lt_iff : ∀ {x y : τ}, x < y ↔ position x < position y

instance {τ : Type} [LT τ] [Timeline τ] : IsTrans τ (· < ·) where
  trans _ _ _ hxy hyz :=
    Timeline.lt_iff.2 (Int.lt_trans (Timeline.lt_iff.1 hxy) (Timeline.lt_iff.1 hyz))

instance {τ : Type} [LT τ] [Timeline τ] : Std.Irrefl (α := τ) (· < ·) where
  irrefl _ h := Int.lt_irrefl _ (Timeline.lt_iff.1 h)

instance {τ : Type} [LT τ] [Timeline τ] : Std.Antisymm (α := τ) (· < ·) where
  antisymm _ _ h h' :=
    absurd (Int.lt_trans (Timeline.lt_iff.1 h) (Timeline.lt_iff.1 h')) (Int.lt_irrefl _)

/-- The clock of an anchor keeps the order of the dates: at the anchor's time of day, and from the
midnight of a day on, it comes to a later instant on a later date. What exceeds the end of a rule
is not followed by what does not. -/
structure KeepsOrder {τ : Type} [LT τ] [Instant τ] (a : τ) : Prop where
  not_lt : ∀ {d e : Date} {u : Time} {x y : τ}, u = .midnight ∨ u = (Instant.wallClock a).time →
    d.number ≤ e.number → Instant.atWallClock? a ⟨d, u⟩ = some x →
    Instant.atWallClock? a ⟨e, (Instant.wallClock a).time⟩ = some y → ¬ y < x
  exceeds : ∀ {d e : Date} {u : Time} {x y : τ} (bound : Until),
    u = .midnight ∨ u = (Instant.wallClock a).time →
    d.number ≤ e.number → Instant.atWallClock? a ⟨d, u⟩ = some x →
    Instant.atWallClock? a ⟨e, (Instant.wallClock a).time⟩ = some y →
    Instant.exceeds x bound = true → Instant.exceeds y bound = true
  eq_of_not_lt : ∀ {r r' : DateTime} {x y : τ}, Instant.atWallClock? a r = some x →
    Instant.atWallClock? a r' = some y → ¬ x < y → ¬ y < x → x = y

instance : Timeline DateTime where
  position := DateTime.position
  lt_iff := Iff.rfl

theorem DateTime.not_lt_of_date_le {d e : Date} {t u : Time} (h : d.number ≤ e.number)
    (htime : d.number = e.number → t.nanos ≤ u.nanos) :
    ¬ (⟨e, u⟩ : DateTime) < ⟨d, t⟩ := by
  have ht := t.lt_day
  rw [Timeline.lt_iff]
  simp only [Timeline.position, position]
  omega

theorem keepsOrder_floating (anchor : DateTime) : KeepsOrder anchor where
  not_lt {d e u x y} hu hde hx hy := by
    obtain rfl := Option.some.inj hx
    obtain rfl := Option.some.inj hy
    refine DateTime.not_lt_of_date_le hde fun _ ↦ ?_
    obtain rfl | rfl := hu
    · exact Nat.zero_le _
    · exact Nat.le_refl _
  exceeds {d e u x y} bound hu hde hx hy h := by
    obtain rfl := Option.some.inj hx
    obtain rfl := Option.some.inj hy
    have hle : ¬ (⟨e, anchor.time⟩ : DateTime) < ⟨d, u⟩ := by
      refine DateTime.not_lt_of_date_le hde fun _ ↦ ?_
      obtain rfl | rfl := hu
      · exact Nat.zero_le _
      · exact Nat.le_refl _
    have hlt : bound.dateTime < ⟨d, u⟩ := of_decide_eq_true h
    refine decide_eq_true (show bound.dateTime < ⟨e, anchor.time⟩ from ?_)
    rw [Timeline.lt_iff] at *
    omega
  eq_of_not_lt {r r' x y} hx hy hxy hyx := by
    rw [Timeline.lt_iff] at hxy hyx
    exact DateTime.position_inj.1 (Int.le_antisymm (Int.not_lt.1 hyx) (Int.not_lt.1 hxy))

end Recurrence
