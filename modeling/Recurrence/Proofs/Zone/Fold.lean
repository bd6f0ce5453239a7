import Recurrence.Proofs.Zone.DaysApart

namespace Recurrence

namespace Zone

/-- What the clocks show is placed where they show it, or where they showed it before, which they
did well after the beginning of the year. What they show instead of a skipped reading is placed
where that is. -/
structure PlacesFirst (z : Zone) : Prop where
  place_settle : ∀ w, z.place (z.settle w) = z.place w
  place_read : ∀ p, z.place (z.read p) = p ∨
    z.place (z.read p) < p ∧ z.settle (z.read p) = z.read p ∧
      (Year.firstNumber (Year.ofNumber (z.read p / 86400000000000)) + 3) * 86400000000000 ≤
        z.place (z.read p)

theorem placesFirst_fixed (o : Offset) : (fixed o).PlacesFirst where
  place_settle := (keepsDaysApart_fixed o).place_settle
  place_read p := .inl (Int.add_sub_cancel p o.nanos)

section Seasonal

variable {first second : YearlyChange} (halt : first.Alternate second)

include halt

theorem place_read_seasonal (p : Int) :
    let z := seasonal first second
    z.place (z.read p) = p ∨
      z.place (z.read p) < p ∧ z.settle (z.read p) = z.read p ∧
        (Year.firstNumber (Year.ofNumber (z.read p / 86400000000000)) + 3) * 86400000000000 ≤
          z.place (z.read p) := by
  intro z
  generalize hw : z.read p = w
  generalize hy : Year.ofNumber (w / 86400000000000) = y
  have hinstants := halt.instant_bounds y
  obtain ⟨hle, hlt⟩ := Year.ofNumber_eq_iff.1 hy
  obtain ⟨hsettled₁, hsettled₂⟩ := halt.settled_eq y
  have hnear := offsetAt_seasonal_eq_or halt p
  obtain ⟨⟨-, hforth⟩, -, -, -, hhour, ⟨hb₁, hb₂⟩, ⟨ha₁, ha₂⟩⟩ := id halt
  have hbefore : first.before.nanos = first.before.minutes * 60000000000 := rfl
  have hafter : first.after.nanos = first.after.minutes * 60000000000 := rfl
  have hread : w = p + (z.offsetAt p).nanos := hw.symm
  have hday : -86400000000000 < w - p ∧ w - p < 86400000000000 := by
    obtain h | h := hnear <;> rw [h] at hread <;> omega
  rw [offsetAt_seasonal (y := y) halt (by omega) (by omega), hforth] at hread
  rw [settle_seasonal halt hy, place, offsetOn_seasonal hy, hforth]
  by_cases hsecond : (second.transition y).instant ≤ p
  · rw [if_pos hsecond] at hread
    by_cases hsettled : (second.transition y).settled ≤ w
    · rw [if_pos hsettled]
      omega
    · rw [if_neg hsettled, if_pos (by omega), if_neg (by omega), if_neg (by omega)]
      omega
  rw [if_neg hsecond] at hread
  by_cases hfirst : (first.transition y).instant ≤ p
  · rw [if_pos hfirst] at hread
    rw [if_neg (by omega)]
    by_cases hsettled : (first.transition y).settled ≤ w
    · rw [if_pos hsettled]
      omega
    · rw [if_neg hsettled, if_neg (by omega), if_neg (by omega)]
      omega
  · rw [if_neg hfirst] at hread
    rw [if_neg (by omega), if_neg (by omega)]
    omega

theorem placesFirst_seasonal : (seasonal first second).PlacesFirst where
  place_settle := (keepsDaysApart_seasonal halt).place_settle
  place_read := place_read_seasonal halt

end Seasonal

theorem placesFirst_shifted {change : Transition}
    (hforward : change.before.nanos ≤ change.after.nanos) : (shifted change).PlacesFirst where
  place_settle w := by
    rw [settle_shifted]
    split
    · rw [place, place, offsetOn_shifted, offsetOn_shifted, Transition.settled, if_pos (by omega),
        if_neg (by omega)]
      omega
    · rfl
  place_read p := by
    refine .inl ?_
    rw [place, read, offsetOn_shifted, offsetAt_shifted, Transition.settled]
    split_ifs <;> omega

theorem IsNamed.placesFirst {z : Zone} (h : z.IsNamed) : z.PlacesFirst := by
  have hregular := h.isRegular
  cases z with
  | fixed o => exact placesFirst_fixed o
  | seasonal first second => exact placesFirst_seasonal hregular
  | shifted change =>
    rw [show shifted change = apia from hregular]
    exact placesFirst_shifted (by decide)

end Zone

namespace Zoned

/-- The clocks of the zone have shown the same reading before. -/
def IsRepeated (x : Zoned) : Prop :=
  ∃ y : Zoned, y.zone = x.zone ∧ y < x ∧ y.wallClock = x.wallClock

variable {x : Zoned} (hz : x.zone.PlacesFirst)

include hz

theorem ofWallClock?_wallClock_iff : ofWallClock? x.zone x.wallClock = some x ↔ ¬ x.IsRepeated := by
  rw [ofWallClock?_eq_some_iff, position_wallClock]
  constructor
  · rintro ⟨-, hplace⟩ ⟨y, hzone, hlt, hwall⟩
    have hread := congrArg DateTime.position hwall
    rw [position_wallClock, position_wallClock, hzone] at hread
    have hlt : y.timestamp.position < x.timestamp.position := hlt
    obtain heq | ⟨hbefore, -⟩ := hz.place_read y.timestamp.position <;> rw [hread] at * <;> omega
  · intro hnot
    refine ⟨rfl, ?_⟩
    obtain heq | ⟨hbefore, hsettle, hyear⟩ := hz.place_read x.timestamp.position
    · exact heq.symm
    · -- the first turn of the reading is an instant of the time line too
      have hdate := x.wallClock.date.first_le
      have hdate' := x.wallClock.date.le_last
      rw [DateTime.date_number_eq, position_wallClock] at hdate hdate'
      have hfirst := (Year.firstNumber_bounds_of_ofNumber hdate hdate').1
      have hlast := x.timestamp.lt_last
      let first : Timestamp :=
        ⟨x.zone.place (x.zone.read x.timestamp.position), by omega, by omega⟩
      let y : Zoned := ⟨first, x.zone⟩
      refine absurd ⟨y, rfl, hbefore, ?_⟩ hnot
      rw [← DateTime.position_inj, position_wallClock, position_wallClock]
      exact hsettle

theorem not_isRepeated_of_ofWallClock? {wall : DateTime}
    (h : ofWallClock? x.zone wall = some x) : ¬ x.IsRepeated := by
  rw [← ofWallClock?_wallClock_iff hz, ofWallClock?_eq_some_iff, position_wallClock_of_eq_some h,
    hz.place_settle]
  exact ofWallClock?_eq_some_iff.1 h

end Zoned

end Recurrence
