import Mathlib.Order.Bounds.Basic
import Recurrence.Proofs.Expansion.Steps

namespace Recurrence

namespace Date

variable {a base d e s : Date} {f : Frequency} {k m : Nat}

/-- Whether `s` is the first day of the unit that comes so many units after the one of `a`. -/
def Begins (s : Date) (f : Frequency) (k : Nat) (a : Date) : Prop :=
  s.IsUnitsAfter f k a ∧ s.IsFirst f

instance (s : Date) (f : Frequency) (k : Nat) (a : Date) : Decidable (s.Begins f k a) :=
  inferInstanceAs (Decidable (_ ∧ _))

/-- How many units the unit of `d` comes after the one that begins with `base`. Weeks are counted
by their days, months across years. -/
def unitsSince (d : Date) (f : Frequency) (base : Date) : Int :=
  match f with
  | .daily => d.number - base.number
  | .weekly => (d.number - base.number).tdiv 7
  | .monthly => (d.year - base.year) * 12 + d.month - base.month
  | .yearly => d.year - base.year

def unitsSince? (d : Date) (f : Frequency) (base : Date) : Option Nat :=
  if 0 < d.unitsSince f base then some (d.unitsSince f base).toNat else none

theorem begins_iff : s.Begins f k a ↔ s.number = f.firstNumber (f.unitOf a + k) :=
  isUnitsAfter_isFirst_iff

theorem begins_zero_iff : s.Begins f 0 d ↔ s.number = f.firstNumber (f.unitOf d) := by
  rw [begins_iff, Nat.cast_zero, Int.add_zero]

theorem Begins.unitOf_eq (h : s.Begins f k a) : f.unitOf s = f.unitOf a + k :=
  Frequency.isUnitsAfter_iff.1 h.1

theorem exists_begins (f : Frequency) (d : Date) : ∃ s : Date, s.Begins f 0 d := by
  have hlast := (f.firstNumber_unitOf_le d).trans d.le_last
  exact ⟨⟨f.firstNumber (f.unitOf d), f.first_le_firstNumber_unitOf d, hlast⟩,
    begins_zero_iff.2 rfl⟩

theorem exists_begins_le_iff : (∃ s ≤ d, s.Begins f k a) ↔ f.unitOf a + k ≤ f.unitOf d := by
  constructor
  · intro hbegun
    obtain ⟨s, hle, hs⟩ := hbegun
    rw [← hs.unitOf_eq]
    exact f.unitOf_mono hle
  · intro hunit
    have hle : f.firstNumber (f.unitOf a + k) ≤ d.number := f.firstNumber_le_number_iff.2 hunit
    have hfirst : f.firstNumber (f.unitOf a) ≤ f.firstNumber (f.unitOf a + k) :=
      f.firstNumber_le_iff.2 (by omega)
    have hcalendar := (f.first_le_firstNumber_unitOf a).trans hfirst
    exact ⟨⟨_, hcalendar, hle.trans d.le_last⟩, hle, begins_iff.2 rfl⟩

theorem lt_of_isUnitsAfter (he : e.IsUnitsAfter f k a) (hs : s.Begins f m a) (hlt : k < m) :
    e < s := by
  have he := Frequency.isUnitsAfter_iff.1 he
  have hs := hs.unitOf_eq
  exact f.number_lt_of_unitOf_lt (by omega)

section Base

variable (hbase : base.Begins f 0 a) (hle : a ≤ d)

include hbase

theorem unitOf_base : f.unitOf base = f.unitOf a := by
  rw [hbase.unitOf_eq, Nat.cast_zero, Int.add_zero]

include hle

theorem unitsSince_eq : d.unitsSince f base = f.unitOf d - f.unitOf a := by
  have hunit := unitOf_base hbase
  cases f with
  | daily => exact congrArg (d.number - ·) hunit
  | yearly => exact congrArg (d.year - ·) hunit
  | weekly =>
    -- whole weeks can be told from the days because `base` is a Monday
    have hmonday := begins_zero_iff.1 hbase
    have hmono : a.number / 7 ≤ d.number / 7 := Frequency.weekly.unitOf_mono hle
    simp only [Frequency.unitOf, Frequency.firstNumber] at hmonday
    rw [unitsSince, Int.tdiv_eq_ediv_of_nonneg (by omega)]
    simp only [Frequency.unitOf]
    omega
  | monthly =>
    simp only [Frequency.unitOf] at hunit
    simp only [unitsSince, Frequency.unitOf]
    omega

theorem getD_unitsSince? : ((d.unitsSince? f base).getD 0 : Int) = f.unitOf d - f.unitOf a := by
  have hmono : f.unitOf a ≤ f.unitOf d := f.unitOf_mono hle
  rw [unitsSince?, unitsSince_eq hbase hle]
  split
  · exact Int.toNat_of_nonneg (by omega)
  · rw [Option.getD_none]
    omega

theorem begins_unitsSince? (hs : s.Begins f 0 d) :
    s.Begins f ((d.unitsSince? f base).getD 0) base := by
  rw [begins_iff, getD_unitsSince? hbase hle, unitOf_base hbase, add_sub_cancel]
  exact begins_zero_iff.1 hs

end Base

end Date

namespace Periods

variable {p : Periods} {a base d : Date} (h : p.base = p.freq.unitOf a)
  (hbase : base.Begins p.freq 0 a) (hle : a ≤ d)

include h hbase hle

theorem indexBefore_eq :
    p.indexBefore d = (d.unitsSince? p.freq base).getD 0 / p.interval - 1 := by
  rw [indexBefore, h, ← Date.getD_unitsSince? hbase hle, Int.toNat_natCast]

omit h in
/-- The units to a date, divided by the interval, give the last period that begins by that date. -/
theorem isGreatest_begun : IsGreatest {n | ∃ s ≤ d, s.Begins p.freq (n * p.interval) a}
    ((d.unitsSince? p.freq base).getD 0 / p.interval) := by
  have hunits := Date.getD_unitsSince? hbase hle
  have hbegun (n : Nat) : (∃ s ≤ d, s.Begins p.freq (n * p.interval) a) ↔
      n ≤ (d.unitsSince? p.freq base).getD 0 / p.interval := by
    rw [Date.exists_begins_le_iff, Nat.le_div_iff_mul_le p.interval_pos]
    omega
  exact ⟨(hbegun _).2 (Nat.le_refl _), fun n hn ↦ (hbegun n).1 hn⟩

end Periods

theorem Search.start?_zero_eq_some_iff {τ : Type} [Instant τ] (rule : Rule) (anchor : τ)
    (config : Config) {base : Date} : (start rule anchor config).periods.start? 0 = some base ↔
      base.Begins rule.freq 0 (Instant.wallClock anchor).date := by
  rw [Periods.start?_eq_some_iff rfl, Nat.zero_mul]
  exact and_iff_left_of_imp fun hbase ↦ (Frequency.le_reach_iff hbase.1).1 (Nat.zero_le _)

namespace Occurrences

variable {τ : Type} [LT τ] [DecidableLT τ] [Instant τ] (rule : Rule) (anchor : τ) (config : Config)

theorem cursor_within {w : Window τ} (hcount : rule.count = none) (hfirst : anchor < w.first)
    (hlast : ¬ w.last < w.first) : (within rule anchor config w).cursor = .before
      ((Search.start rule anchor config).periods.indexBefore (Instant.wallClock w.first).date) := by
  rw [within_of_not_lt rule hlast, skipped, if_pos ⟨hcount, hfirst⟩]

/-- For a date `d` that is not before the anchor's, let `q` be the last period that begins by `d`.
A search in a window from that date on begins one period before `q`, or with the first if `q` is the
first. All days of the periods that are passed over lie before `q`, to whose first day the search's
own steps lead unless it is out of reach. The unit of `d` begins as many units after the search's
first day as are counted from there to `d`. -/
theorem begins_one_period_early (d : Date) (hle : (Instant.wallClock anchor).date ≤ d) :
    let a := (Instant.wallClock anchor).date
    let periods := (Search.start rule anchor config).periods
    ∃ (base first : Date) (q : Nat),
      (periods.start? 0 = some base ∧ base.Begins rule.freq 0 a) ∧
      (first.Begins rule.freq 0 d ∧
        first.Begins rule.freq ((d.unitsSince? rule.freq base).getD 0) base) ∧
      IsGreatest {n | ∃ s ≤ d, s.Begins rule.freq (n * rule.interval) a} q ∧
      periods.indexBefore d = q - 1 ∧
      (∀ w : Window τ, rule.count = none → anchor < w.first → ¬ w.last < w.first →
        (Instant.wallClock w.first).date = d →
          (within rule anchor config w).cursor = .before (q - 1)) ∧
      ∀ s : Date, s.Begins rule.freq (q * rule.interval) a →
        (periods.start? q = some s ↔ ¬ s.IsOutOfReach rule.freq a) ∧
          ∀ n < q - 1, ∀ e : Date, e.IsUnitsAfter rule.freq (n * rule.interval) a → e < s := by
  intro a periods
  have hperiods : periods.base = periods.freq.unitOf a := rfl
  obtain ⟨base, hbase⟩ := Date.exists_begins rule.freq a
  obtain ⟨first, hfirst⟩ := Date.exists_begins rule.freq d
  let q := (d.unitsSince? rule.freq base).getD 0 / rule.interval
  have hgreatest : IsGreatest {n | ∃ s ≤ d, s.Begins rule.freq (n * rule.interval) a} q :=
    Periods.isGreatest_begun (p := periods) hbase hle
  have hindex : periods.indexBefore d = q - 1 := Periods.indexBefore_eq hperiods hbase hle
  refine ⟨base, first, q, ⟨(Search.start?_zero_eq_some_iff rule anchor config).2 hbase, hbase⟩,
    ⟨hfirst, Date.begins_unitsSince? hbase hle hfirst⟩, hgreatest, hindex, ?_, ?_⟩
  · intro w hcount hwindow hlast hdate
    rw [cursor_within rule anchor config hcount hwindow hlast, hdate]
    exact congrArg Cursor.before hindex
  · intro s hs
    refine ⟨(Periods.start?_eq_some_iff hperiods).trans (and_iff_right hs), ?_⟩
    intro n hn e he
    have hlt : n < q := Nat.lt_of_lt_of_le hn (Nat.sub_le q 1)
    apply Date.lt_of_isUnitsAfter he hs
    exact Nat.mul_lt_mul_of_pos_right hlt rule.interval_pos

def thirdWeeks : Rule where
  freq := .weekly
  interval := 3

/-- From Wednesday 2025-01-01 on, the week of 2025-03-01 lies between the third period, which begins
with 2025-02-10, and the fourth. It is the eighth week after that of the anchor. -/
theorem begins_one_period_early_thirdWeeks :
    let anchor : DateTime := ⟨⟨739251, by decide, by decide⟩, .midnight⟩
    let d : Date := ⟨739310, by decide, by decide⟩
    let w : Window DateTime := ⟨d.midnight, d.midnight⟩
    let base : Date := ⟨739249, by decide, by decide⟩
    let first : Date := ⟨739305, by decide, by decide⟩
    let s : Date := ⟨739291, by decide, by decide⟩
    let periods := (Search.start thirdWeeks anchor {}).periods
    anchor.date ≤ d ∧ (periods.start? 0 = some base ∧ base.Begins .weekly 0 anchor.date) ∧
      (first.Begins .weekly 0 d ∧ first.Begins .weekly 8 base) ∧
      IsGreatest {n | ∃ s ≤ d, s.Begins .weekly (n * 3) anchor.date} 2 ∧
      (thirdWeeks.count = none ∧ anchor < w.first ∧ ¬ w.last < w.first ∧ w.first.date = d) ∧
      (within thirdWeeks anchor {} w).cursor = .before 1 ∧
      (s.Begins .weekly (2 * 3) anchor.date ∧ ¬ s.IsOutOfReach .weekly anchor.date) ∧
      periods.start? 2 = some s ∧ ∀ e : Date, e.IsUnitsAfter .weekly 0 anchor.date → e < s := by
  intro anchor d w base first s periods
  have hle : anchor.date ≤ d := by decide
  have hwindow : anchor < w.first := by decide
  have hlast : ¬ w.last < w.first := by decide
  have hs : s.Begins .weekly (2 * 3) anchor.date := by decide
  have hreach : ¬ s.IsOutOfReach .weekly anchor.date := by decide
  have hone : (Search.start thirdWeeks anchor {}).periods.indexBefore d = 1 := by decide
  have hzero : periods.start? 0 = some base := by decide
  obtain ⟨base', first', q, ⟨hstart, hbase⟩, ⟨hfirst, hunits⟩, hgreatest, hindex, hcursor, hskipped⟩ :=
    begins_one_period_early thirdWeeks anchor {} d hle
  obtain rfl : q = 2 := by omega
  obtain rfl : base' = base := Option.some.inj (hstart.symm.trans hzero)
  obtain rfl : first' = first := Date.number_inj.1 (Date.begins_zero_iff.1 hfirst)
  obtain ⟨hthird, hbefore⟩ := hskipped s hs
  exact ⟨hle, ⟨hzero, hbase⟩, ⟨hfirst, hunits⟩, hgreatest, ⟨rfl, hwindow, hlast, rfl⟩,
    hcursor w rfl hwindow hlast rfl, ⟨hs, hreach⟩, hthird.2 hreach, hbefore 0 (by decide)⟩

end Occurrences

end Recurrence
