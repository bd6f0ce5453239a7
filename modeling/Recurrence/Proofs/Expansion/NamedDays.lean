import Recurrence.Proofs.Expansion.Restart

namespace Recurrence

namespace Rule

variable (r : Rule)

def repeating (f : Frequency) : Rule where
  toRuleData := { r.toRuleData with freq := f }
  valid := { r.valid with }

/-- No period is left out, nothing is counted within a period, and no day is taken from the
anchor. -/
structure NamesDaysAlone : Prop where
  interval : r.interval = 1
  byWeekNo : r.byWeekNo = []
  bySetPos : r.bySetPos = []
  ordinal : ∀ b ∈ r.byDay, b.ordinal = none
  names : r.byMonthDay ≠ [] ∨ r.byDay ≠ []

def Names (d : Date) : Prop :=
  r.KeepsMonth d ∧ r.KeepsMonthDay d ∧ (r.byDay ≠ [] → ∃ b ∈ r.byDay, b.weekday = d.weekday)

instance (d : Date) : Decidable (r.Names d) := inferInstanceAs (Decidable (_ ∧ _ ∧ (_ → _)))

/-- The named days from the anchor on, up to the end of the rule, as many as its count admits. -/
def named (anchor : DateTime) : List DateTime :=
  let readings := (Date.all.filter fun d ↦ r.Names d).map (⟨·, anchor.time⟩)
  admitted r.count 0 ((readings.filter fun x ↦ anchor ≤ x).takeWhile fun x ↦
    ∀ bound ∈ r.bound, x ≤ bound.dateTime)

theorem repeating_freq : r.repeating r.freq = r := rfl

variable {r} {f : Frequency} {a d : Date} (h : r.NamesDaysAlone)

include h

theorem keepsWeekday_repeating_iff : (r.repeating f).KeepsWeekday d ↔
    (r.byDay ≠ [] → ∃ b ∈ r.byDay, b.weekday = d.weekday) := by
  apply imp_congr_right
  intro _
  apply exists_congr
  intro b
  apply and_congr_right
  intro hb
  rw [h.ordinal b hb]
  exact and_iff_left nofun

theorem keeps_repeating_iff : (r.repeating f).Keeps a d ↔ r.Names d := by
  have hweekNo : (r.repeating f).KeepsWeekNo d := fun _ hne ↦ absurd h.byWeekNo hne
  have hnames : ¬ (r.repeating f).NamesNoDays := by
    rintro ⟨-, hmonthDay, hday⟩
    rcases h.names with hne | hne
    · exact hne hmonthDay
    · exact hne hday
  simp only [RuleData.Keeps, hweekNo, hnames, keepsWeekday_repeating_iff h, false_imp_iff, and_true,
    true_and]
  rfl

theorem exists_mem_picked_repeating_iff :
    (∃ n, d ∈ (r.repeating f).picked a n) ↔ f.unitOf a ≤ f.unitOf d ∧ r.Names d := by
  have hpicked (n : Nat) : d ∈ (r.repeating f).picked a n ↔
      f.unitOf d = f.unitOf a + n ∧ r.Names d := by
    have hpos : (r.repeating f).bySetPos = [] := h.bySetPos
    have hinterval : n * (r.repeating f).interval = n := by
      rw [show (r.repeating f).interval = 1 from h.interval, Nat.mul_one]
    simp only [picked, if_pos hpos, hinterval, List.mem_filter, Date.mem_all, true_and,
      decide_eq_true_eq, keeps_repeating_iff h, Frequency.isUnitsAfter_iff]
    rfl
  simp only [hpicked, exists_and_right]
  apply and_congr_left
  intro _
  constructor
  · rintro ⟨n, hn⟩
    omega
  · intro hle
    exact ⟨(f.unitOf d - f.unitOf a).toNat, by omega⟩

end Rule

namespace Search

variable {r : Rule} {anchor : DateTime} {f : Frequency}

theorem pairwise_lt_readings (n : Nat) :
    ((start r anchor {}).readings n).Pairwise (· < ·) := by
  apply (pairwise_readings n).imp
  intro x y hxy
  exact DateTime.lt_iff_date_lt_or_time_lt.2 (.inl hxy)

theorem mem_readings_repeating (h : r.NamesDaysAlone) (hyear : -9998 ≤ anchor.date.year)
    {x : DateTime} : x ∈ (start (r.repeating f) anchor {}).readings 0 ↔
      f.unitOf anchor.date ≤ f.unitOf x.date ∧ r.Names x.date ∧ x.time = anchor.time := by
  have hstream : (start (r.repeating f) anchor {}).stream 0 =
      (start (r.repeating f) anchor {}).readings 0 := List.filterMap_some ..
  rw [← hstream, mem_stream_floating hyear, Rule.exists_mem_picked_repeating_iff h, and_assoc]

/-- The first period may hold days before the anchor, and all days from the anchor on lie in it or
in a later one. -/
theorem filter_readings_repeating (h : r.NamesDaysAlone) (hyear : -9998 ≤ anchor.date.year) :
    ((start (r.repeating f) anchor {}).readings 0).filter (fun x ↦ anchor ≤ x) =
      ((Date.all.filter fun d ↦ r.Names d).map (⟨·, anchor.time⟩)).filter fun x ↦ anchor ≤ x := by
  have hnamed : ((Date.all.filter fun d ↦ r.Names d).map (DateTime.mk · anchor.time)).Pairwise
      (· < ·) := by
    rw [List.pairwise_map]
    apply (Date.pairwise_all.filter _).imp
    intro d e hde
    exact DateTime.lt_iff_date_lt_or_time_lt.2 (.inl hde)
  apply List.Pairwise.eq_of_mem_iff ((pairwise_lt_readings 0).filter _) (hnamed.filter _)
  intro x
  simp only [List.mem_filter, mem_readings_repeating h hyear, List.mem_map, Date.mem_all, true_and,
    decide_eq_true_eq]
  constructor
  · rintro ⟨⟨-, hnames, htime⟩, hle⟩
    exact ⟨⟨x.date, hnames, by rw [← htime]⟩, hle⟩
  · rintro ⟨⟨d, hnames, rfl⟩, hle⟩
    exact ⟨⟨f.unitOf_mono (DateTime.date_le_of_le hle), hnames, rfl⟩, hle⟩

end Search

namespace Occurrences

theorem toList_ofRule_repeating_eq_named {r : Rule} (h : r.NamesDaysAlone) {anchor : DateTime}
    (hyear : -9998 ≤ anchor.date.year) (f : Frequency) :
    Source.toList (ofRule (r.repeating f) anchor {} none) = r.named anchor := by
  rw [toList_ofRule _ (keepsOrder_floating anchor) Config.le_default none, Search.ascent_floating,
    Search.filter_readings_repeating h hyear]
  exact admitted_none

/-- A rule that names its days alone has the same occurrences whether it repeats by days, weeks,
months or years, which are the named days from the anchor on. -/
theorem toList_ofRule_repeating (r : Rule) (h : r.NamesDaysAlone) (anchor : DateTime)
    (hyear : -9998 ≤ anchor.date.year) (f : Frequency) :
    Source.toList (ofRule (r.repeating f) anchor {} none) =
        Source.toList (ofRule r anchor {} none) ∧
      Source.toList (ofRule r anchor {} none) = r.named anchor := by
  have hown := toList_ofRule_repeating_eq_named h hyear r.freq
  rw [r.repeating_freq] at hown
  exact ⟨(toList_ofRule_repeating_eq_named h hyear f).trans hown.symm, hown⟩

def fridaysTheThirteenth : Rule where
  freq := .weekly
  count := some 10
  byMonth := [4, 5, 6, 7, 8, 9, 10]
  byMonthDay := [13]
  byDay := [⟨none, .friday⟩]

/-- From 2025-06-14 on, which lies in the week and the month of a Friday the 13th. -/
theorem toList_ofRule_repeating_fridaysTheThirteenth :
    let anchor : DateTime := ⟨⟨739415, by decide, by decide⟩, .midnight⟩
    fridaysTheThirteenth.NamesDaysAlone ∧ anchor.date.year = 2025 ∧
      Source.toList (ofRule (fridaysTheThirteenth.repeating .daily) anchor {} none) =
        Source.toList (ofRule fridaysTheThirteenth anchor {} none) ∧
      Source.toList (ofRule fridaysTheThirteenth anchor {} none) =
        fridaysTheThirteenth.named anchor := by
  intro anchor
  have hnames : fridaysTheThirteenth.NamesDaysAlone := by constructor <;> decide
  have hyear : anchor.date.year = 2025 := by decide
  have hfirst : -9998 ≤ anchor.date.year := by omega
  exact ⟨hnames, hyear,
    toList_ofRule_repeating fridaysTheThirteenth hnames anchor hfirst .daily⟩

end Occurrences

end Recurrence
