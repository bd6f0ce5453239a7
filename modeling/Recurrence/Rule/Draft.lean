import Recurrence.Rule.Basic
import Recurrence.Rule.Error

namespace Recurrence

def RuleError.outside? (param : Param) (domain : Domain) (values : List Int) : Option RuleError :=
  (values.find? fun n ↦ ¬ domain.Contains n).map fun n ↦
    .badInteger param domain (String.ofList (Decimal.ofInt n)) ⟨0, 0⟩

namespace RuleData

def withoutRepeats (r : RuleData) : RuleData where
  freq := r.freq
  interval := r.interval
  count := r.count
  bound := r.bound
  byMonth := r.byMonth.eraseDups
  byWeekNo := r.byWeekNo.eraseDups
  byMonthDay := r.byMonthDay.eraseDups
  byDay := r.byDay.eraseDups
  bySetPos := r.bySetPos.eraseDups

def outside? (r : RuleData) : Option RuleError :=
  RuleError.outside? .interval Param.interval.domain [(r.interval : Int)] <|>
  RuleError.outside? .count Param.count.domain (r.count.toList.map Int.ofNat) <|>
  RuleError.outside? .byMonth Param.byMonth.domain r.byMonth <|>
  RuleError.outside? .byWeekNo Param.byWeekNo.domain r.byWeekNo <|>
  RuleError.outside? .byMonthDay Param.byMonthDay.domain r.byMonthDay <|>
  RuleError.outside? .byDay .weekdayOrdinal r.ordinals <|>
  RuleError.outside? .bySetPos Param.bySetPos.domain r.bySetPos

def HasLonePositions (r : RuleData) : Prop :=
  r.bySetPos ≠ [] ∧ r.byMonth = [] ∧ r.byWeekNo = [] ∧ r.byMonthDay = [] ∧ r.byDay = []

instance (r : RuleData) : Decidable r.HasLonePositions := inferInstanceAs (Decidable (_ ∧ _))

def fault? (r : RuleData) : Option RuleError :=
  r.outside? <|> if r.HasLonePositions then some .lonePositions else none

end RuleData

theorem nodup_eraseDups {α : Type} [BEq α] [LawfulBEq α] (as : List α) : as.eraseDups.Nodup := by
  match as with
  | [] => exact .nil
  | a :: as =>
    rw [List.eraseDups_cons, List.nodup_cons, List.mem_eraseDups, List.mem_filter]
    exact ⟨fun h ↦ by simp at h, nodup_eraseDups _⟩
termination_by as.length
decreasing_by exact Nat.lt_succ_of_le (List.length_filter_le _ _)

theorem RuleError.outside?_eq_none_iff {param : Param} {domain : Domain} {values : List Int} :
    outside? param domain values = none ↔ ∀ n ∈ values, domain.Contains n := by
  simp [outside?]

theorem RuleData.valid_withoutRepeats {r : RuleData} (h : r.withoutRepeats.fault? = none) :
    r.withoutRepeats.Valid := by
  simp only [fault?, outside?, Option.orElse_eq_orElse, Option.orElse_eq_or, Option.or_eq_none_iff,
    RuleError.outside?_eq_none_iff, List.mem_singleton, forall_eq, ite_eq_right_iff, reduceCtorEq,
    imp_false] at h
  obtain ⟨⟨h₁, h₂, h₃, h₄, h₅, h₆, h₇⟩, h₈⟩ := h
  refine ⟨h₁, fun n hn ↦ h₂ _ (List.mem_map.2 ⟨n, Option.mem_toList.2 hn, rfl⟩), h₃, h₄, h₅, h₆, h₇,
    fun hne ↦ ?_, nodup_eraseDups _, nodup_eraseDups _, nodup_eraseDups _, nodup_eraseDups _,
    nodup_eraseDups _⟩
  unfold HasLonePositions at h₈
  grind

structure Draft where
  settings : List Setting
  distinct : settings.Pairwise fun a b ↦ a.param ≠ b.param

namespace Draft

def empty : Draft := ⟨[], .nil⟩

def push (d : Draft) (s : Setting) : Except RuleError Draft :=
  if h : ∃ a ∈ d.settings, a.param = s.param then .error (.repeatedParam s.param.name none)
  else .ok {
    settings := d.settings ++ [s]
    distinct := List.pairwise_append.2 ⟨d.distinct, List.pairwise_singleton _ _, by
      intro a ha b hb e
      obtain rfl := List.mem_singleton.1 hb
      exact h ⟨a, ha, e⟩⟩ }

/-- What the settings say. Without a setting the interval is 1 and a list is empty. -/
def data (d : Draft) (freq : Frequency) : RuleData where
  freq := freq
  interval := (d.settings.findSome? Setting.interval?).getD 1
  count := d.settings.findSome? Setting.count?
  bound := d.settings.findSome? Setting.bound?
  byMonth := (d.settings.findSome? Setting.byMonth?).getD []
  byWeekNo := (d.settings.findSome? Setting.byWeekNo?).getD []
  byMonthDay := (d.settings.findSome? Setting.byMonthDay?).getD []
  byDay := (d.settings.findSome? Setting.byDay?).getD []
  bySetPos := (d.settings.findSome? Setting.bySetPos?).getD []

def build (d : Draft) : Except RuleError Rule :=
  match d.settings.findSome? Setting.freq? with
  | none => .error (.absentParam .freq)
  | some freq =>
    match h : (d.data freq).withoutRepeats.fault? with
    | some fault => .error fault
    | none => .ok ⟨(d.data freq).withoutRepeats, RuleData.valid_withoutRepeats h⟩

end Draft

end Recurrence
