import Recurrence.Calendar.IsoWeek
import Recurrence.Calendar.WeekdayRank
import Recurrence.Expansion.Periods
import Recurrence.Expansion.Position
import Recurrence.Rule.Basic

namespace Recurrence

def Date.LiesInWeek (d : Date) (weekNos : List Int) : Prop :=
  ∃ n ∈ weekNos, Position.resolve? n (Year.isoWeeks d.isoYear) = some d.isoWeek

instance (d : Date) : DecidablePred d.LiesInWeek := fun weekNos ↦
  inferInstanceAs (Decidable (∃ n ∈ weekNos, _))

structure Pattern where
  byMonth : List Int
  byWeekNo : List Int
  byMonthDay : List Int
  weekdays : List Weekday
  ranked : List (Int × Weekday)
  scope : RankScope
  bySetPos : List Int

namespace Pattern

def CountsWeekdays : Frequency → Prop
  | .monthly | .yearly => True
  | .daily | .weekly => False

instance : DecidablePred CountsWeekdays
  | .monthly | .yearly => .isTrue trivial
  | .daily | .weekly => .isFalse id

/-- The pattern of the rule's own parameters. Week numbers count only in yearly rules, and the
weekdays of a yearly rule are counted within months if it names months. A weekday that is left twice
when the ordinals are dropped stays twice, as it passes the same days as once. -/
def given (r : RuleData) : Pattern where
  byMonth := r.byMonth
  byWeekNo := if r.freq = .yearly then r.byWeekNo else []
  byMonthDay := r.byMonthDay
  weekdays := (r.byDay.filter fun d ↦ ¬ (CountsWeekdays r.freq ∧ d.ordinal ≠ none)).map (·.weekday)
  ranked :=
    if CountsWeekdays r.freq then r.byDay.filterMap fun d ↦ d.ordinal.map (·, d.weekday) else []
  scope := if r.freq = .yearly ∧ r.byMonth = [] then .year else .month
  bySetPos := r.bySetPos

/-- Takes from the anchor what a rule needs that names no days. -/
def withAnchor (p : Pattern) (freq : Frequency) (anchor : Date) : Pattern :=
  match freq with
  | .daily => p
  | .weekly => { p with weekdays := [anchor.weekday] }
  | .monthly => { p with byMonthDay := [(anchor.day : Int)] }
  | .yearly =>
    { p with
      byMonth := if p.byMonth = [] then [(anchor.month : Int)] else p.byMonth
      byMonthDay := [(anchor.day : Int)] }

def ofRule (r : RuleData) (anchor : Date) : Pattern :=
  let p := given r
  if p.byWeekNo = [] ∧ p.byMonthDay = [] ∧ r.byDay = [] then p.withAnchor r.freq anchor else p

variable (p : Pattern) (d : Date)

def PassesMonth : Prop := p.byMonth = [] ∨ (d.month : Int) ∈ p.byMonth

def PassesWeekNo : Prop := p.byWeekNo = [] ∨ d.LiesInWeek p.byWeekNo

def PassesMonthDay : Prop :=
  p.byMonthDay = [] ∨ ∃ n ∈ p.byMonthDay, Position.resolve? n d.monthLength = some d.day

def PassesWeekday : Prop :=
  p.weekdays = [] ∧ p.ranked = [] ∨ d.weekday ∈ p.weekdays ∨
    ∃ r ∈ p.ranked, r.2 = d.weekday ∧ d.HasRank r.1 p.scope

instance : Decidable (p.PassesMonth d) := inferInstanceAs (Decidable (_ ∨ _))

instance : Decidable (p.PassesWeekNo d) := inferInstanceAs (Decidable (_ ∨ _))

instance : Decidable (p.PassesMonthDay d) := inferInstanceAs (Decidable (_ ∨ _))

instance : Decidable (p.PassesWeekday d) := inferInstanceAs (Decidable (_ ∨ _))

def Passes : Prop :=
  p.PassesMonth d ∧ p.PassesWeekNo d ∧ p.PassesMonthDay d ∧ p.PassesWeekday d

instance : Decidable (p.Passes d) := inferInstanceAs (Decidable (_ ∧ _))

def pick (days : List Date) : List Date :=
  let passed := days.filter fun d ↦ p.Passes d
  if p.bySetPos = [] then passed else Position.select p.bySetPos passed

end Pattern

end Recurrence
