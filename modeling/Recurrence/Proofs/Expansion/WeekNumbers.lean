import Recurrence.Proofs.Expansion.Meaning

namespace Recurrence.Date

variable (d : Date)

def thursday : Date := ⟨d.thursdayNumber, d.thursdayNumber_bounds.1, d.thursdayNumber_bounds.2⟩

theorem weekday_thursday : d.thursday.weekday = .thursday := by
  rw [weekday_eq_iff]
  simp only [thursday, thursdayNumber, Weekday.index]
  omega

theorem thursday_isUnitsAfter : d.thursday.IsUnitsAfter .weekly 0 d := by
  rw [Frequency.isUnitsAfter_iff]
  simp only [Frequency.unitOf, thursday, thursdayNumber]
  omega

theorem isoWeek_eq_rank : d.isoWeek = d.thursday.rank .year := by
  rw [isoWeek_eq_thursdaysThrough, rank, weekday_thursday]
  rfl

theorem ofCivil?_isoYear_isSome : (ofCivil? d.isoYear 1 1).isSome := by
  obtain ⟨⟨hfirst, -⟩, hle, -⟩ := d.isoYear_bounds
  rw [ofCivil?_first, ofNumber?_isSome_iff]
  exact ⟨hfirst, hle.trans d.thursdayNumber_bounds.2⟩

theorem liesInWeek_iff {weekNos : List Int} : d.LiesInWeek weekNos ↔
    (d.isoWeek : Int) ∈ weekNos ∨ (d.isoWeek : Int) - Year.isoWeeks d.isoYear - 1 ∈ weekNos :=
  Position.exists_resolve?_iff d.isoWeek_pos d.isoWeek_le

/-- With `t` the Thursday of the week of a date: the year of `t` is in the calendar and has as many
weeks as Thursdays. The date lies in one of the numbered weeks if the number of the Thursdays of
that year up to `t` is among the numbers, or the same number counted from the end of the year. -/
theorem liesInWeek_iff_thursdays : ∃ t : Date,
    (t.weekday = .thursday ∧ t.IsUnitsAfter .weekly 0 d) ∧
      d.isoYear = t.year ∧ (ofCivil? t.year 1 1).isSome ∧
      Year.isoWeeks t.year = thursdays t.year ∧
      ∀ weekNos : List Int, d.LiesInWeek weekNos ↔ (t.rank .year : Int) ∈ weekNos ∨
        (t.rank .year : Int) - thursdays t.year - 1 ∈ weekNos := by
  refine ⟨d.thursday, ⟨d.weekday_thursday, d.thursday_isUnitsAfter⟩, rfl,
    d.ofCivil?_isoYear_isSome, d.isoWeeks_eq_thursdays, fun weekNos ↦ ?_⟩
  rw [liesInWeek_iff, isoWeeks_eq_thursdays, isoWeek_eq_rank]
  rfl

/-- The Sunday 2021-01-03 ends the last week of 2020, the 53rd. -/
example : let d : Date := ⟨737792, by decide, by decide⟩
    d.year = 2021 ∧ d.LiesInWeek [-1] ∧ d.LiesInWeek [53] ∧ ¬ d.LiesInWeek [1, 52] := by
  decide

end Recurrence.Date
