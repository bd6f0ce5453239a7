import Recurrence.Proofs.Zone.Zoned

namespace Recurrence

namespace Zone

structure KeepsDaysApart (z : Zone) : Prop where
  spread : ∀ v w, (z.offsetOn v).minutes < (z.offsetOn w).minutes + 1440
  place_settle : ∀ w, z.place (z.settle w) = z.place w

theorem keepsDaysApart_fixed (o : Offset) : (fixed o).KeepsDaysApart where
  spread _ _ := Int.lt_add_of_pos_right o.minutes (by decide)
  place_settle w := by
    have hsettle : (fixed o).settle w = w := Int.sub_add_cancel w o.nanos
    rw [hsettle]

section Seasonal

variable {first second : YearlyChange} {y w : Int} (halt : first.Alternate second)

include halt

/-- A skipped reading is shown past the change that skips it, well before the end of the year. -/
theorem place_add_of_skipped (hy : Year.ofNumber (w / 86400000000000) = y) :
    ((first.transition y).instant + first.before.nanos ≤ w →
      w < (first.transition y).instant + first.after.nanos →
      (seasonal first second).place (w + first.after.nanos - first.before.nanos) =
        (seasonal first second).place w) ∧
    ((second.transition y).instant + first.after.nanos ≤ w →
      w < (second.transition y).instant + first.before.nanos →
      (seasonal first second).place (w + first.before.nanos - first.after.nanos) =
        (seasonal first second).place w) := by
  have hinstants := halt.instant_bounds y
  obtain ⟨hle, hlt⟩ := Year.ofNumber_eq_iff.1 hy
  obtain ⟨hsettled₁, hsettled₂⟩ := halt.settled_eq y
  obtain ⟨⟨-, hforth⟩, -, -, -, hhour, ⟨hb₁, hb₂⟩, ⟨ha₁, ha₂⟩⟩ := halt
  have hbefore : first.before.nanos = first.before.minutes * 60000000000 := rfl
  have hafter : first.after.nanos = first.after.minutes * 60000000000 := rfl
  constructor
  · intro h₁ h₂
    have hy' : Year.ofNumber ((w + first.after.nanos - first.before.nanos) / 86400000000000) = y :=
      Year.ofNumber_eq_iff.2 (by omega)
    rw [place, place, offsetOn_seasonal hy, offsetOn_seasonal hy', hforth, if_neg (by omega),
      if_pos (by omega), if_neg (by omega), if_neg (by omega)]
    omega
  · intro h₁ h₂
    have hy' : Year.ofNumber ((w + first.before.nanos - first.after.nanos) / 86400000000000) = y :=
      Year.ofNumber_eq_iff.2 (by omega)
    rw [place, place, offsetOn_seasonal hy, offsetOn_seasonal hy', hforth, if_pos (by omega),
      if_neg (by omega), if_pos (by omega)]
    omega

theorem keepsDaysApart_seasonal : (seasonal first second).KeepsDaysApart where
  spread v w := by
    obtain ⟨-, -, -, -, hhour, -⟩ := id halt
    obtain hv | hv := offsetOn_seasonal_eq_or halt v <;>
      obtain hw | hw := offsetOn_seasonal_eq_or halt w <;> rw [hv, hw] <;> omega
  place_settle w := by
    have hplace := place_add_of_skipped halt (w := w) rfl
    rw [settle_seasonal halt rfl]
    split
    · exact hplace.1 (And.left ‹_›) (And.right ‹_›)
    · split
      · exact hplace.2 (And.left ‹_›) (And.right ‹_›)
      · rfl

end Seasonal

theorem IsNamed.keepsDaysApart {z : Zone} (h : z.IsNamed) (hne : z ≠ apia) : z.KeepsDaysApart := by
  have hregular := h.isRegular
  cases z with
  | fixed o => exact keepsDaysApart_fixed o
  | seasonal first second => exact keepsDaysApart_seasonal hregular
  | shifted change => exact absurd hregular hne

end Zone

theorem Zoned.isSome_ofWallClock?_iff {z : Zone} {wall : DateTime} :
    (ofWallClock? z wall).isSome ↔ -315569426402000000000 < z.place wall.position ∧
      z.place wall.position < 315537804001000000000 := by
  rw [ofWallClock?, Option.isSome_map, Timestamp.ofPosition?]
  split
  · exact iff_of_true rfl ‹_›
  · exact iff_of_false (fun h ↦ by cases h) ‹_›

namespace Zone.KeepsDaysApart

variable {z : Zone} (hz : z.KeepsDaysApart)

include hz

theorem place_lt_of_date_lt {r r' : DateTime} (htime : r.time = r'.time)
    (hdate : r.date.number < r'.date.number) : z.place r.position < z.place r'.position := by
  have hspread := hz.spread r'.position r.position
  simp only [place, Offset.nanos]
  simp only [DateTime.position, htime] at *
  omega

theorem place_lt_iff {r r' : DateTime} (htime : r.time = r'.time) :
    z.place r.position < z.place r'.position ↔ r < r' := by
  rw [DateTime.lt_iff_date_lt_or_time_lt, htime]
  obtain hlt | heq | hgt := Int.lt_trichotomy r.date.number r'.date.number
  · exact iff_of_true (hz.place_lt_of_date_lt htime hlt) (.inl hlt)
  · have hsame : r.position = r'.position := by simp only [DateTime.position, htime, heq]
    refine iff_of_false (hsame ▸ Int.lt_irrefl _) ?_
    rintro (hlt | ⟨-, hlt⟩)
    · exact Int.ne_of_lt hlt heq
    · exact Nat.lt_irrefl _ hlt
  · have hplace := hz.place_lt_of_date_lt htime.symm hgt
    refine iff_of_false (Int.not_lt.2 (Int.le_of_lt hplace)) ?_
    rintro (hlt | ⟨-, hlt⟩)
    · exact Int.lt_asymm hgt hlt
    · exact Nat.lt_irrefl _ hlt

theorem position_eq_place_wallClock {wall : DateTime} {x : Zoned}
    (h : Zoned.ofWallClock? z wall = some x) :
    x.timestamp.position = z.place x.wallClock.position := by
  rw [Zoned.position_wallClock_of_eq_some h, hz.place_settle]
  exact (Zoned.ofWallClock?_eq_some_iff.1 h).2

end Zone.KeepsDaysApart

end Recurrence
