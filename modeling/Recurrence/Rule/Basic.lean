import Recurrence.Rule.Setting

namespace Recurrence

structure RuleData where
  freq : Frequency
  interval : Nat := 1
  count : Option Nat := none
  bound : Option Until := none
  byMonth : List Int := []
  byWeekNo : List Int := []
  byMonthDay : List Int := []
  byDay : List WeekdayNum := []
  bySetPos : List Int := []
deriving DecidableEq

namespace RuleData

def ordinals (r : RuleData) : List Int := r.byDay.filterMap WeekdayNum.ordinal

structure Valid (r : RuleData) : Prop where
  interval : Param.interval.domain.Contains r.interval
  count : ∀ n ∈ r.count, Param.count.domain.Contains n
  byMonth : ∀ n ∈ r.byMonth, Param.byMonth.domain.Contains n
  byWeekNo : ∀ n ∈ r.byWeekNo, Param.byWeekNo.domain.Contains n
  byMonthDay : ∀ n ∈ r.byMonthDay, Param.byMonthDay.domain.Contains n
  ordinals : ∀ n ∈ r.ordinals, Domain.weekdayOrdinal.Contains n
  bySetPos : ∀ n ∈ r.bySetPos, Param.bySetPos.domain.Contains n
  companion : r.bySetPos ≠ [] →
    r.byMonth ≠ [] ∨ r.byWeekNo ≠ [] ∨ r.byMonthDay ≠ [] ∨ r.byDay ≠ []
  nodup_byMonth : r.byMonth.Nodup
  nodup_byWeekNo : r.byWeekNo.Nodup
  nodup_byMonthDay : r.byMonthDay.Nodup
  nodup_byDay : r.byDay.Nodup
  nodup_bySetPos : r.bySetPos.Nodup

end RuleData

structure Rule extends RuleData where
  valid : toRuleData.Valid := by constructor <;> decide
deriving DecidableEq

namespace Rule

theorem interval_pos (r : Rule) : 1 ≤ r.interval := by
  have h : (1 : Int) ≤ r.interval := r.valid.interval.1
  omega

def listSetting {α : Type} (setting : List α → Setting) (values : List α) : List Setting :=
  if values.isEmpty then [] else [setting values]

def settings (r : Rule) : List Setting :=
  .freq r.freq :: (if r.interval = 1 then [] else [.interval r.interval]) ++
    r.count.toList.map .count ++ r.bound.toList.map .bound ++
    listSetting .byMonth r.byMonth ++ listSetting .byWeekNo r.byWeekNo ++
    listSetting .byMonthDay r.byMonthDay ++ listSetting .byDay r.byDay ++
    listSetting .bySetPos r.bySetPos

def chars (r : Rule) : List Char := [';'].intercalate (r.settings.map Setting.chars)

def text (r : Rule) : String := String.ofList r.chars

end Rule

end Recurrence
