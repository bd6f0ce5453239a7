import Recurrence.Proofs.Instant
import Recurrence.Proofs.Zone.Clock

namespace Recurrence

instance : Timeline Zoned where
  position x := x.timestamp.position
  lt_iff := Iff.rfl

namespace Zoned

theorem le_iff_not_lt {a b : Zoned} : a ≤ b ↔ ¬ b < a := Int.not_lt.symm

instance : Std.IsLinearPreorder Zoned where
  le_refl x := Int.le_refl x.timestamp.position
  le_trans _ _ _ := Int.le_trans
  le_total x y := Int.le_total x.timestamp.position y.timestamp.position

instance : Std.LawfulOrderLT Zoned where
  lt_iff _ _ := Int.lt_iff_le_and_not_ge

theorem eq_of_position {x y : Zoned} (hzone : x.zone = y.zone)
    (h : x.timestamp.position = y.timestamp.position) : x = y := by
  obtain ⟨⟨p, _, _⟩, z⟩ := x
  obtain ⟨⟨q, _, _⟩, z'⟩ := y
  obtain rfl : z = z' := hzone
  obtain rfl : p = q := h
  rfl

theorem ofWallClock?_eq_some_iff {z : Zone} {wall : DateTime} {x : Zoned} :
    ofWallClock? z wall = some x ↔ x.zone = z ∧ x.timestamp.position = z.place wall.position := by
  rw [ofWallClock?, Option.map_eq_some_iff]
  constructor
  · rintro ⟨stamp, hstamp, rfl⟩
    exact ⟨rfl, Timestamp.ofPosition?_eq_some_iff.1 hstamp⟩
  · rintro ⟨rfl, hstamp⟩
    exact ⟨x.timestamp, Timestamp.ofPosition?_eq_some_iff.2 hstamp, rfl⟩

theorem position_wallClock (x : Zoned) :
    x.wallClock.position = x.zone.read x.timestamp.position := by
  rw [wallClock, DateTime.position_ofPosition]
  rfl

theorem position_wallClock_of_eq_some {z : Zone} {wall : DateTime} {x : Zoned}
    (h : ofWallClock? z wall = some x) : x.wallClock.position = z.settle wall.position := by
  obtain ⟨rfl, hx⟩ := ofWallClock?_eq_some_iff.1 h
  rw [position_wallClock, hx]
  rfl

end Zoned

namespace DateTime

theorem date_number_eq (t : DateTime) : t.date.number = t.position / 86400000000000 := by
  have := t.time.lt_day
  unfold position
  omega

theorem position_midnight (t : DateTime) :
    t.date.midnight.position = Zone.midnightOf t.position := by
  rw [Zone.midnightOf, ← date_number_eq]
  exact Int.add_zero _

/-- A reading at the same time of day or at midnight comes a day earlier or on the same day. -/
theorem position_cases {d e : Date} {t u : Time} (ht : t = .midnight ∨ t = u)
    (hde : d.number ≤ e.number) :
    (⟨d, t⟩ : DateTime).position + 86400000000000 ≤ (⟨e, u⟩ : DateTime).position ∨
      (⟨d, t⟩ : DateTime).position = (⟨e, u⟩ : DateTime).position ∨
      (⟨d, t⟩ : DateTime).position = Zone.midnightOf (⟨e, u⟩ : DateTime).position := by
  rw [← position_midnight]
  obtain hlt | heq := Int.lt_or_eq_of_le hde
  · refine .inl ?_
    obtain rfl | rfl := ht
    · simp only [position, Time.midnight]
      omega
    · simp only [position]
      omega
  · obtain rfl | rfl := ht
    · refine .inr (.inr ?_)
      simp only [Date.midnight, position, heq]
    · refine .inr (.inl ?_)
      simp only [position, heq]

end DateTime

namespace Zone.KeepsDays

variable {z : Zone} (hz : z.KeepsDays) {d e : Date} {t u : Time} (ht : t = .midnight ∨ t = u)
  (hde : d.number ≤ e.number)

include hz ht hde

theorem place_le_place :
    z.place (⟨d, t⟩ : DateTime).position ≤ z.place (⟨e, u⟩ : DateTime).position := by
  obtain hday | heq | heq := DateTime.position_cases ht hde
  · have hspread := hz.spread (⟨e, u⟩ : DateTime).position (⟨d, t⟩ : DateTime).position
    simp only [place, Offset.nanos]
    omega
  · rw [heq]
  · rw [heq]
    exact hz.place_midnight_le _

theorem settle_le_settle :
    z.settle (⟨d, t⟩ : DateTime).position ≤ z.settle (⟨e, u⟩ : DateTime).position := by
  obtain hday | heq | heq := DateTime.position_cases ht hde
  · exact (hz.settle_le _).trans (hday.trans (hz.le_settle _))
  · rw [heq]
  · rw [heq]
    exact hz.settle_midnight_le _

end Zone.KeepsDays

theorem keepsOrder_zoned {anchor : Zoned} (hz : anchor.zone.KeepsDays) : KeepsOrder anchor where
  not_lt {d e u x y} hu hde hx hy := by
    rw [Timeline.lt_iff, Int.not_lt]
    have hle := hz.place_le_place hu hde
    rw [← (Zoned.ofWallClock?_eq_some_iff.1 hx).2, ← (Zoned.ofWallClock?_eq_some_iff.1 hy).2] at hle
    exact hle
  exceeds {d e u x y} bound hu hde hx hy h := by
    simp only [Instant.exceeds] at h ⊢
    cases hbound : bound.timestamp? with
    | some stamp =>
      rw [hbound] at h
      have hlt : stamp < x.timestamp := of_decide_eq_true h
      have hle := hz.place_le_place hu hde
      rw [← (Zoned.ofWallClock?_eq_some_iff.1 hx).2,
        ← (Zoned.ofWallClock?_eq_some_iff.1 hy).2] at hle
      exact decide_eq_true (Int.lt_of_lt_of_le hlt hle)
    | none =>
      rw [hbound] at h
      have hlt : bound.dateTime < x.wallClock := of_decide_eq_true h
      have hle := hz.settle_le_settle hu hde
      rw [← Zoned.position_wallClock_of_eq_some hx, ← Zoned.position_wallClock_of_eq_some hy] at hle
      exact decide_eq_true (Int.lt_of_lt_of_le hlt hle)
  eq_of_not_lt {r r' x y} hx hy hxy hyx := by
    rw [Timeline.lt_iff] at hxy hyx
    have hzone := (Zoned.ofWallClock?_eq_some_iff.1 hx).1
    have hzone' := (Zoned.ofWallClock?_eq_some_iff.1 hy).1
    exact Zoned.eq_of_position (hzone.trans hzone'.symm)
      (Int.le_antisymm (Int.not_lt.1 hyx) (Int.not_lt.1 hxy))

end Recurrence
