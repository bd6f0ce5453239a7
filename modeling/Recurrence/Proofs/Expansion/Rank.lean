import Recurrence.Calendar.WeekdayRank
import Recurrence.Proofs.Calendar.Count
import Recurrence.Proofs.Expansion.Periods

namespace Recurrence

namespace Frequency

theorem unitOf_eq_iff {f : Frequency} {d : Date} {u : Int} :
    f.unitOf d = u ↔ f.firstNumber u ≤ d.number ∧ d.number < f.firstNumber (u + 1) := by
  rw [f.firstNumber_le_number_iff, ← Int.not_le, f.firstNumber_le_number_iff]
  omega

theorem firstNumber_monthly_unitOf (d : Date) :
    monthly.firstNumber (monthly.unitOf d) = d.number - d.day + 1 ∧
      monthly.firstNumber (monthly.unitOf d + 1) = d.number - d.day + 1 + d.monthLength := by
  have hm := d.month_pos
  have hm' := d.month_le
  have hdiv : (d.year * 12 + d.month - 1) / 12 = d.year := by omega
  have hmod : ((d.year * 12 + d.month - 1) % 12).toNat + 1 = d.month := by omega
  have hfirst : monthly.firstNumber (monthly.unitOf d) = d.number - d.day + 1 := by
    rw [← d.civilNumber_eq_number]
    simp only [firstNumber, unitOf, hdiv, hmod, Date.civilNumber]
    omega
  refine ⟨hfirst, ?_⟩
  rw [firstNumber_monthly_succ, hfirst]
  simp only [unitOf, hdiv, hmod, Date.monthLength]

end Frequency

namespace Date

variable (d : Date) (scope : RankScope)

def IsWithin (e d : Date) : RankScope → Prop
  | .month => e.year = d.year ∧ e.month = d.month
  | .year => e.year = d.year

instance (e d : Date) : DecidablePred (e.IsWithin d)
  | .month => inferInstanceAs (Decidable (_ ∧ _))
  | .year => inferInstanceAs (Decidable (_ = _))

/-- The days of the weekday of `d` up to `d`. -/
def rank : Nat := all.countP fun e ↦ (e.IsWithin d scope ∧ e ≤ d) ∧ e.weekday = d.weekday

/-- The days of the weekday of `d` from `d` on. -/
def rankFromEnd : Nat := all.countP fun e ↦ (e.IsWithin d scope ∧ d ≤ e) ∧ e.weekday = d.weekday

theorem placeIn_bounds : 1 ≤ d.placeIn scope ∧ d.placeIn scope ≤ d.lengthOf scope := by
  cases scope with
  | month => exact ⟨d.day_pos, d.day_le_monthLength⟩
  | year => exact ⟨Nat.le_add_left 1 _, d.elapsed_lt⟩

theorem scope_bounds : -3652425 ≤ d.number - d.placeIn scope + 1 ∧
    d.number - d.placeIn scope + 1 + d.lengthOf scope ≤ 3652059 := by
  obtain ⟨hfirst, hlast⟩ := Year.firstNumber_bounds_of_ofNumber d.first_le d.le_last
  change -3652425 ≤ Year.firstNumber d.year at hfirst
  change Year.firstNumber (d.year + 1) ≤ 3652059 at hlast
  rw [Year.firstNumber_succ] at hlast
  have hnumber := d.number_eq
  cases scope with
  | month =>
    have h₁ := d.month_pos
    have h₂ := d.month_le
    have hcivil := d.civilNumber_eq_number
    have hleap := Year.leapDays_le_one d.year
    simp only [placeIn, lengthOf, monthLength, Year.monthLength, civilNumber, Year.length,
      Year.daysBefore] at *
    split_ifs at * <;> omega
  | year =>
    simp only [placeIn, dayOfYear, lengthOf, yearLength]
    omega

variable {d scope}

theorem isWithin_iff {e : Date} : e.IsWithin d scope ↔
    d.number - d.placeIn scope + 1 ≤ e.number ∧
      e.number < d.number - d.placeIn scope + 1 + d.lengthOf scope := by
  cases scope with
  | month =>
    obtain ⟨hfirst, hlast⟩ := Frequency.firstNumber_monthly_unitOf d
    have hunit : e.IsWithin d .month ↔ Frequency.monthly.unitOf e = Frequency.monthly.unitOf d := by
      have h₁ := d.month_pos
      have h₂ := d.month_le
      have h₃ := e.month_pos
      have h₄ := e.month_le
      simp only [IsWithin, Frequency.unitOf]
      omega
    rw [hunit, Frequency.unitOf_eq_iff, hfirst, hlast]
    rfl
  | year =>
    have hnumber := d.number_eq
    change e.year = d.year ↔ _
    rw [year_eq_iff, Year.firstNumber_succ]
    simp only [placeIn, dayOfYear, lengthOf, yearLength]
    omega

theorem rank_eq : d.rank scope = (d.placeIn scope - 1) / 7 + 1 := by
  obtain ⟨hpos, hle⟩ := d.placeIn_bounds scope
  obtain ⟨hfirst, hlast⟩ := d.scope_bounds scope
  have hindex := weekday_eq_iff.1 (rfl : d.weekday = d.weekday)
  calc d.rank scope = _ := by
        unfold rank
        simp only [isWithin_iff]
        refine List.countP_congr fun e _ ↦ ?_
        rw [decide_eq_true_iff, decide_eq_true_iff]
        refine and_congr_left fun _ ↦ ?_
        change _ ∧ e.number ≤ d.number ↔ d.number - d.placeIn scope + 1 ≤ e.number ∧
          e.number < d.number - d.placeIn scope + 1 + d.placeIn scope
        omega
    _ = (d.placeIn scope + 6 -
          ((d.weekday.index - (d.number - d.placeIn scope + 1)) % 7).toNat) / 7 :=
        countP_weekday d.weekday hfirst (by omega)
    _ = (d.placeIn scope - 1) / 7 + 1 := by omega

theorem rankFromEnd_eq : d.rankFromEnd scope = (d.lengthOf scope - d.placeIn scope) / 7 + 1 := by
  obtain ⟨hpos, hle⟩ := d.placeIn_bounds scope
  obtain ⟨hfirst, hlast⟩ := d.scope_bounds scope
  have hindex := weekday_eq_iff.1 (rfl : d.weekday = d.weekday)
  calc d.rankFromEnd scope = _ := by
        unfold rankFromEnd
        simp only [isWithin_iff]
        refine List.countP_congr fun e _ ↦ ?_
        rw [decide_eq_true_iff, decide_eq_true_iff]
        refine and_congr_left fun _ ↦ ?_
        change _ ∧ d.number ≤ e.number ↔ d.number ≤ e.number ∧
          e.number < d.number + (d.lengthOf scope - d.placeIn scope + 1 : Nat)
        omega
    _ = (d.lengthOf scope - d.placeIn scope + 1 + 6 -
          ((d.weekday.index - d.number) % 7).toNat) / 7 :=
        countP_weekday d.weekday d.first_le (by omega)
    _ = (d.lengthOf scope - d.placeIn scope) / 7 + 1 := by omega

theorem hasRank_iff_rank {n : Int} :
    d.HasRank n scope ↔ n = d.rank scope ∨ n = -(d.rankFromEnd scope : Int) := by
  rw [rank_eq, rankFromEnd_eq, HasRank]
  split <;> omega

end Date

end Recurrence
