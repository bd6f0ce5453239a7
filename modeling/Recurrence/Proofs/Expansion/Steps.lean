import Recurrence.Proofs.Expansion.Restart

/-!
How far the steps from period to period lead. Days, weeks and years can be counted from any date of
the calendar to its end. Months are counted up to the same month 19998 years later, so that from a
month of the first year the later months of the last year are out of reach; up to these, a rule
without an end goes on to the end of the calendar.
-/

namespace Recurrence

namespace Date

variable {a d : Date} {f : Frequency} {k : Nat}

def IsFirst (d : Date) : Frequency → Prop
  | .daily => True
  | .weekly => d.weekday = .monday
  | .monthly => d.day = 1
  | .yearly => d.month = 1 ∧ d.day = 1

instance (d : Date) : DecidablePred d.IsFirst
  | .daily => inferInstanceAs (Decidable True)
  | .weekly => inferInstanceAs (Decidable (_ = _))
  | .monthly => inferInstanceAs (Decidable (_ = _))
  | .yearly => inferInstanceAs (Decidable (_ ∧ _))

theorem month_day_eq_one_iff : d.month = 1 ∧ d.day = 1 ↔ d.elapsed = 0 := by
  constructor
  · rintro ⟨hmonth, hday⟩
    have hbefore : Year.daysBefore d.year 1 = 0 := rfl
    rw [day, hmonth, hbefore] at hday
    omega
  · intro h
    have hmonth : d.month = 1 := by
      rw [month, h, Year.monthOf, if_pos (by omega)]
    rw [day, hmonth, h]
    exact ⟨rfl, rfl⟩

theorem isFirst_iff : d.IsFirst f ↔ d.number = f.firstNumber (f.unitOf d) := by
  cases f with
  | daily => simp [IsFirst, Frequency.firstNumber, Frequency.unitOf]
  | weekly =>
    simp only [IsFirst, weekday_eq_iff, Weekday.index, Frequency.firstNumber, Frequency.unitOf]
    omega
  | monthly =>
    have hday := d.day_pos
    rw [IsFirst, (Frequency.firstNumber_monthly_unitOf d).1]
    omega
  | yearly =>
    have hnumber := d.number_eq
    rw [IsFirst, month_day_eq_one_iff]
    simp only [Frequency.firstNumber, Frequency.unitOf]
    omega

theorem isUnitsAfter_isFirst_iff :
    d.IsUnitsAfter f k a ∧ d.IsFirst f ↔ d.number = f.firstNumber (f.unitOf a + k) := by
  rw [Frequency.isUnitsAfter_iff, isFirst_iff]
  constructor
  · rintro ⟨hunit, hfirst⟩
    rw [hfirst, hunit]
  · intro hnumber
    have hunit : f.unitOf d = f.unitOf a + k :=
      Frequency.unitOf_eq_iff.2 ⟨hnumber.ge, hnumber ▸ f.firstNumber_lt_succ _⟩
    exact ⟨hunit, by rw [hunit, hnumber]⟩

end Date

namespace Periods

variable {p : Periods} {a d : Date} {n : Nat} (h : p.base = p.freq.unitOf a)

include h

theorem start?_eq_some_iff : p.start? n = some d ↔
    (d.IsUnitsAfter p.freq (n * p.interval) a ∧ d.IsFirst p.freq) ∧
      ¬ d.IsOutOfReach p.freq a := by
  have hreach (hd : d.IsUnitsAfter p.freq (n * p.interval) a) := Frequency.le_reach_iff hd
  have hnumber : d.IsUnitsAfter p.freq (n * p.interval) a ∧ d.IsFirst p.freq ↔ _ :=
    Date.isUnitsAfter_isFirst_iff
  rw [start?, unit, h]
  split
  · rename_i hle
    rw [Date.ofNumber?_eq_some_iff, ← hnumber]
    exact (and_iff_left_of_imp fun hd ↦ (hreach hd.1).1 hle).symm
  · rename_i hlt
    simp only [reduceCtorEq, false_iff]
    exact fun hd ↦ hlt ((hreach hd.1.1).2 hd.2)

end Periods

theorem Rule.mem_picked_iff {r : Rule} {a d : Date} {n : Nat} (h : r.bySetPos = []) :
    d ∈ r.picked a n ↔ d.IsUnitsAfter r.freq (n * r.interval) a ∧ r.Keeps a d := by
  rw [picked, if_pos h, List.mem_filter, decide_eq_true_eq]
  exact and_iff_right (Date.mem_all d)

namespace Occurrences

variable {rule : Rule} {anchor x : DateTime} {config : Config} {d : Date} {n : Nat}

theorem mem_toList_endless (hcount : rule.count = none) (hbound : rule.bound = none)
    (hyears : 400 ≤ config.maxEmptyYears) :
    x ∈ Source.toList (ofRule rule anchor config none) ↔
      (∃ m, ((Search.start rule anchor config).periods.start? m).isSome ∧
        x ∈ (Search.start rule anchor config).candidates m) ∧ anchor ≤ x := by
  have hadmits : rule.admits x = true := by
    rw [Rule.admits, hbound]
    rfl
  have hstream : x ∈ (Search.start rule anchor config).stream 0 ↔
      x ∈ (Search.start rule anchor config).readings 0 := by
    rw [Search.mem_stream]
    constructor
    · rintro ⟨r, hr, hrx⟩
      exact Option.some.inj hrx ▸ hr
    · exact fun hx ↦ ⟨x, hx, rfl⟩
  rw [mem_toList_uncounted hcount hyears, hstream, Search.mem_readings, and_iff_left hadmits]
  simp only [Nat.zero_le, true_and]

theorem mem_toList_endless_iff (hcount : rule.count = none) (hbound : rule.bound = none)
    (hyears : 400 ≤ config.maxEmptyYears) (hd : d ∈ rule.picked anchor.date n)
    (hle : anchor ≤ ⟨d, anchor.time⟩) :
    (⟨d, anchor.time⟩ : DateTime) ∈ Source.toList (ofRule rule anchor config none) ↔
      ¬ d.IsOutOfReach rule.freq anchor.date := by
  have hunit := (Rule.of_mem_picked hd).1
  have hstart : ((Search.start rule anchor config).periods.start? n).isSome ↔
      ¬ d.IsOutOfReach rule.freq anchor.date :=
    Periods.start?_isSome_iff_of_isUnitsAfter rfl hunit
  rw [mem_toList_endless hcount hbound hyears, and_iff_left hle, ← hstart]
  constructor
  · rintro ⟨m, hm, hx⟩
    have hm' := (Rule.of_mem_picked (Search.mem_candidates_floating.1 hx).1).1
    rw [Periods.start?_isSome_iff_of_isUnitsAfter rfl hm'] at hm
    exact hstart.2 hm
  · exact fun hn ↦ ⟨n, hn, Search.mem_candidates_floating.2 ⟨hd, rfl⟩⟩

/-- A period is reached if its first day is in the calendar, and that day is its start, unless it is
a month of the year 9999 that comes later in the year than the month of the year -9999 from which a
monthly rule counts. So whatever a rule without an end picks in floating time is given out, up to
the last day of the calendar, unless it lies in such a month. -/
theorem steps_cover_calendar (rule : Rule) (anchor : DateTime) (config : Config) :
    (∀ n d, (Search.start rule anchor config).periods.start? n = some d ↔
      (d.IsUnitsAfter rule.freq (n * rule.interval) anchor.date ∧ d.IsFirst rule.freq) ∧
        ¬ d.IsOutOfReach rule.freq anchor.date) ∧
    (rule.count = none → rule.bound = none → 400 ≤ config.maxEmptyYears →
      ∀ n, ∀ d ∈ rule.picked anchor.date n, anchor ≤ ⟨d, anchor.time⟩ →
        ((⟨d, anchor.time⟩ : DateTime) ∈ Source.toList (ofRule rule anchor config none) ↔
          ¬ d.IsOutOfReach rule.freq anchor.date)) := by
  constructor
  · intro n d
    exact Periods.start?_eq_some_iff rfl
  · intro hcount hbound hyears n d hd hle
    exact mem_toList_endless_iff hcount hbound hyears hd hle

def everyMonth : Rule where
  freq := .monthly

theorem steps_cover_calendar_january :
    let anchor : DateTime := ⟨⟨-3652425, by decide, by decide⟩, .midnight⟩
    let d : Date := ⟨3651694, by decide, by decide⟩
    (everyMonth.count = none ∧ everyMonth.bound = none) ∧
      d ∈ everyMonth.picked anchor.date 239976 ∧ anchor ≤ ⟨d, anchor.time⟩ ∧
      (Search.start everyMonth anchor {}).periods.start? 239976 = some d ∧
      (⟨d, anchor.time⟩ : DateTime) ∈ Source.toList (ofRule everyMonth anchor {} none) := by
  intro anchor d
  have hd : d ∈ everyMonth.picked anchor.date 239976 := (Rule.mem_picked_iff rfl).2 (by decide)
  have hle : anchor ≤ ⟨d, anchor.time⟩ := by decide
  obtain ⟨hstart, hlist⟩ := steps_cover_calendar everyMonth anchor {}
  exact ⟨⟨rfl, rfl⟩, hd, hle, (hstart 239976 d).2 (by decide),
    (hlist rfl rfl (Nat.le_refl 400) 239976 d hd hle).2 (by decide)⟩

/-- The next month begins in the calendar, but has no start, and 9999-02-01 is not given out. -/
theorem february_not_reached :
    let anchor : DateTime := ⟨⟨-3652425, by decide, by decide⟩, .midnight⟩
    let d : Date := ⟨3651725, by decide, by decide⟩
    (d.IsUnitsAfter .monthly (239977 * everyMonth.interval) anchor.date ∧ d.IsFirst .monthly) ∧
      (Search.start everyMonth anchor {}).periods.start? 239977 = none ∧
      (everyMonth.count = none ∧ everyMonth.bound = none) ∧
      d ∈ everyMonth.picked anchor.date 239977 ∧ anchor ≤ ⟨d, anchor.time⟩ ∧
      (⟨d, anchor.time⟩ : DateTime) ∉ Source.toList (ofRule everyMonth anchor {} none) := by
  intro anchor d
  have hd : d ∈ everyMonth.picked anchor.date 239977 := (Rule.mem_picked_iff rfl).2 (by decide)
  have hle : anchor ≤ ⟨d, anchor.time⟩ := by decide
  have hout : d.IsOutOfReach .monthly anchor.date := by decide
  exact ⟨by decide, rfl, ⟨rfl, rfl⟩, hd, hle, fun hmem ↦
    (mem_toList_endless_iff rfl rfl (Nat.le_refl 400) hd hle).1 hmem hout⟩

end Occurrences

end Recurrence
