import Recurrence.Proofs.Expansion.Kept
import Recurrence.Proofs.Expansion.Window

namespace Recurrence

/-- Whether `d` lies in the unit that comes so many units after the one of `a`. -/
def Date.IsUnitsAfter (d : Date) (f : Frequency) (k : Nat) (a : Date) : Prop :=
  match f with
  | .daily => d.number = a.number + k
  | .weekly => d.number - d.weekday.index = a.number - a.weekday.index + 7 * k
  | .monthly => d.year * 12 + d.month = a.year * 12 + a.month + k
  | .yearly => d.year = a.year + k

instance (d : Date) (f : Frequency) (k : Nat) (a : Date) : Decidable (d.IsUnitsAfter f k a) := by
  unfold Date.IsUnitsAfter
  split <;> infer_instance

/-- Whether more months than can be counted lie between `a` and `d`. -/
def Date.IsOutOfReach (d : Date) (f : Frequency) (a : Date) : Prop :=
  f = .monthly ∧ (a.year = -9999 ∧ d.year = 9999) ∧ a.month < d.month

instance (d : Date) (f : Frequency) (a : Date) : Decidable (d.IsOutOfReach f a) :=
  inferInstanceAs (Decidable (_ ∧ _))

namespace Rule

variable (r : Rule)

/-- The days of the `n`-th period that the rule keeps and, if it gives positions, has in one. -/
def picked (a : Date) (n : Nat) : List Date :=
  let days := Date.all.filter fun d ↦ d.IsUnitsAfter r.freq (n * r.interval) a ∧ r.Keeps a d
  if r.bySetPos = [] then days
  else ((days.zipIdx 1).filter fun x ↦ Position.IsPicked r.bySetPos days.length x.2).map (·.1)

def meaning (anchor : DateTime) : List DateTime :=
  let readings := (List.range Date.count).flatMap fun n ↦
    (r.picked anchor.date n).map (⟨·, anchor.time⟩)
  let due := (readings.filter fun x ↦ anchor ≤ x).takeWhile fun x ↦
    ∀ bound ∈ r.bound, x ≤ bound.dateTime
  match r.count with
  | none => due
  | some count => due.take count

end Rule

namespace Frequency

variable {f : Frequency} {a d : Date}

theorem isUnitsAfter_iff {k : Nat} : d.IsUnitsAfter f k a ↔ f.unitOf d = f.unitOf a + k := by
  cases f with
  | daily => rfl
  | weekly =>
    have hd := Weekday.index_ofIndex d.number
    have ha := Weekday.index_ofIndex a.number
    simp only [Date.IsUnitsAfter, unitOf, Date.weekday, hd, ha]
    omega
  | monthly =>
    simp only [Date.IsUnitsAfter, unitOf]
    omega
  | yearly => rfl

theorem days_eq_filter (k : Nat) :
    f.days (f.unitOf a + k) = Date.all.filter fun d ↦ d.IsUnitsAfter f k a := by
  refine List.Pairwise.eq_of_mem_iff (f.pairwise_days _) (Date.pairwise_all.filter _) fun d ↦ ?_
  simp only [mem_days_iff, List.mem_filter, Date.mem_all, isUnitsAfter_iff, true_and,
    decide_eq_true_eq]

/-- Only of months there are more in the calendar than can be counted. -/
theorem le_reach_iff {k : Nat} (h : d.IsUnitsAfter f k a) : k ≤ f.reach ↔ ¬ d.IsOutOfReach f a := by
  have ha₁ := a.first_le
  have hd₂ := d.le_last
  have hyear : -9999 ≤ a.year := (Year.ofNumber_bounds a.first_le a.le_last).1
  have hyear' : d.year ≤ 9999 := (Year.ofNumber_bounds d.first_le d.le_last).2
  rw [isUnitsAfter_iff] at h
  by_cases hf : f = .monthly
  · subst hf
    have hmonth := a.month_pos
    have hmonth' := d.month_le
    simp only [unitOf, reach, Date.IsOutOfReach, true_and] at h ⊢
    omega
  · refine iff_of_true ?_ fun hout ↦ hf hout.1
    cases f with
    | daily | weekly | yearly =>
      simp only [unitOf, reach] at h ⊢
      omega
    | monthly => exact absurd rfl hf

end Frequency

theorem Periods.start?_isSome_iff_of_isUnitsAfter {p : Periods} {a d : Date} {n : Nat}
    (h : p.base = p.freq.unitOf a) (hd : d.IsUnitsAfter p.freq (n * p.interval) a) :
    (p.start? n).isSome ↔ ¬ d.IsOutOfReach p.freq a := by
  have hunit := Frequency.isUnitsAfter_iff.1 hd
  have hfirst := (p.freq.firstNumber_unitOf_le d).trans d.le_last
  rw [hunit, ← h] at hfirst
  rw [start?_isSome_iff h, Frequency.le_reach_iff hd]
  exact and_iff_left hfirst

theorem flatMap_filter_eq {α β : Type} {p : α → Bool} {f : α → List β} {xs : List α}
    (h : ∀ x, ¬ p x = true → f x = []) : (xs.filter p).flatMap f = xs.flatMap f := by
  induction xs with
  | nil => rfl
  | cons x xs ih =>
    by_cases hp : p x = true
    · rw [List.filter_cons_of_pos hp, List.flatMap_cons, List.flatMap_cons, ih]
    · rw [List.filter_cons_of_neg hp, List.flatMap_cons, ih, h x hp, List.nil_append]

namespace Search

variable (rule : Rule) (anchor : DateTime)

theorem candidates_eq_picked (n : Nat) :
    (start rule anchor {}).candidates n =
      (rule.picked anchor.date n).map (⟨·, anchor.time⟩) := by
  change ((Pattern.ofRule rule.toRuleData anchor.date).pick
    (rule.freq.days (rule.freq.unitOf anchor.date + (n * rule.interval : Nat)))).map _ = _
  refine congrArg _ ?_
  have hpassed : (Pattern.ofRule rule.toRuleData anchor.date).passed
      (rule.freq.days (rule.freq.unitOf anchor.date + (n * rule.interval : Nat))) =
      Date.all.filter fun d ↦ d.IsUnitsAfter rule.freq (n * rule.interval) anchor.date ∧
        rule.Keeps anchor.date d := by
    rw [Frequency.days_eq_filter, Pattern.passed, List.filter_filter]
    refine List.filter_congr fun d _ ↦ ?_
    rw [← Bool.decide_and]
    exact decide_eq_decide.2 ((and_congr_left' RuleData.passes_iff_keeps).trans and_comm)
  rw [Pattern.pick_eq, RuleData.bySetPos_ofRule, hpassed, Position.select_eq_filter]
  rfl

variable {rule anchor}

theorem picked_eq_nil {n : Nat} (h : ∀ d, ¬ rule.freq.unitOf d =
      rule.freq.unitOf anchor.date + (n * rule.interval : Nat)) :
    rule.picked anchor.date n = [] := by
  have hdays : (Date.all.filter fun d ↦ d.IsUnitsAfter rule.freq (n * rule.interval) anchor.date ∧
      rule.Keeps anchor.date d) = [] :=
    List.filter_eq_nil_iff.2 fun d _ hd ↦
      h d (Frequency.isUnitsAfter_iff.1 (of_decide_eq_true hd).1)
  rw [Rule.picked, hdays]
  simp

variable (hyear : -9998 ≤ anchor.date.year)

include hyear

theorem picked_eq_nil_of_start?_eq_none {n : Nat}
    (h : (start rule anchor {}).periods.start? n = none) : rule.picked anchor.date n = [] := by
  refine picked_eq_nil fun d hunit ↦ Option.not_isSome_iff_eq_none.2 h ?_
  have hstart : ((start rule anchor {}).periods.start? n).isSome ↔
      ¬ d.IsOutOfReach rule.freq anchor.date :=
    Periods.start?_isSome_iff_of_isUnitsAfter rfl (Frequency.isUnitsAfter_iff.2 hunit)
  rw [hstart]
  rintro ⟨-, ⟨hfirst, -⟩, -⟩
  omega

theorem readings_eq_flatMap :
    (start rule anchor {}).readings 0 = (List.range Date.count).flatMap fun n ↦
      (rule.picked anchor.date n).map (⟨·, anchor.time⟩) := by
  -- units are numbered by at most as many numbers as the calendar has days
  have hlast : rule.picked anchor.date Date.count = [] := by
    refine picked_eq_nil fun d hunit ↦ ?_
    have hunits := rule.freq.unitOf_sub_le d anchor.date
    have hle := Nat.le_mul_of_pos_right Date.count rule.interval_pos
    have hcount : (Date.count : Int) = 7304484 := rfl
    omega
  have hnone (n : Nat) (h : ¬ ((start rule anchor {}).periods.start? n).isSome = true) :
      (start rule anchor {}).candidates n = [] := by
    rw [Option.not_isSome_iff_eq_none] at h
    rw [candidates_eq_picked, picked_eq_nil_of_start?_eq_none hyear h, List.map_nil]
  have hrange (m : Nat) : List.range' 0 (m + 1 - 0) = List.range m ++ [m] := by
    rw [Nat.sub_zero, ← List.range_eq_range', List.range_succ]
  have hcandidates : (start rule anchor {}).candidates = fun n ↦
      (rule.picked anchor.date n).map (⟨·, anchor.time⟩) :=
    funext (candidates_eq_picked rule anchor)
  rw [readings, flatMap_filter_eq hnone, hrange, List.flatMap_append, List.flatMap_singleton,
    candidates_eq_picked, hlast, List.map_nil, List.append_nil, hcandidates]

omit hyear in
theorem ascent_floating (rule : Rule) (anchor : DateTime) :
    (start rule anchor {}).ascent 0 =
      (((start rule anchor {}).readings 0).filter fun x ↦ anchor ≤ x).takeWhile fun x ↦
        ∀ bound ∈ rule.bound, x ≤ bound.dateTime := by
  have hstream : (start rule anchor {}).stream 0 = (start rule anchor {}).readings 0 :=
    List.filterMap_some ..
  have hfilter : (((start rule anchor {}).readings 0).filter fun x ↦ ¬ x < anchor) =
      ((start rule anchor {}).readings 0).filter fun x ↦ anchor ≤ x := by
    simp only [DateTime.le_iff_not_lt]
  have hrises :
      (((start rule anchor {}).readings 0).filter fun x ↦ anchor ≤ x).Pairwise (· < ·) := by
    refine ((pairwise_readings 0).imp fun {r r'} h ↦ ?_).sublist List.filter_sublist
    exact DateTime.lt_iff_date_lt_or_time_lt.2 (.inl h)
  have hbound : (fun x : DateTime ↦ !rule.bound.any fun bound ↦ decide (bound.dateTime < x)) =
      fun x ↦ decide (∀ bound ∈ rule.bound, x ≤ bound.dateTime) := by
    funext x
    cases rule.bound <;> simp [DateTime.le_iff_not_lt]
  change (rising none (((start rule anchor {}).stream 0).filter fun x ↦ ¬ x < anchor)).takeWhile
    (fun x : DateTime ↦ !rule.bound.any fun bound ↦ decide (bound.dateTime < x)) = _
  rw [hstream, hfilter, rising_eq_self hrises (by simp), hbound]

end Search

namespace Occurrences

/-- In floating time a search gives out what the rule means, in ascending order. -/
theorem toList_ofRule_eq_meaning (rule : Rule) (anchor : DateTime)
    (hyear : -9998 ≤ anchor.date.year) :
    Source.toList (ofRule rule anchor {} none) = rule.meaning anchor ∧
      (rule.meaning anchor).Pairwise (· < ·) := by
  have hlist := toList_ofRule rule (keepsOrder_floating anchor) Config.le_default none
  have heq : Source.toList (ofRule rule anchor {} none) = rule.meaning anchor := by
    rw [hlist, Search.ascent_floating, Search.readings_eq_flatMap hyear]
    rfl
  refine ⟨heq, ?_⟩
  rw [← heq, hlist]
  exact (Search.pairwise_ascent 0).sublist
    ((admitted_sublist _ _ _).trans (admitted_sublist _ _ _))

def lastWorkday : Rule where
  freq := .monthly
  byDay := [⟨none, .monday⟩, ⟨none, .tuesday⟩, ⟨none, .wednesday⟩, ⟨none, .thursday⟩,
    ⟨none, .friday⟩]
  bySetPos := [-1]

theorem toList_ofRule_lastWorkday :
    let anchor : DateTime := ⟨⟨739251, by decide, by decide⟩, .midnight⟩
    anchor.date.year = 2025 ∧
      Source.toList (ofRule lastWorkday anchor {} none) = lastWorkday.meaning anchor ∧
      (lastWorkday.meaning anchor).Pairwise (· < ·) := by
  intro anchor
  have hyear : anchor.date.year = 2025 := by decide
  exact ⟨hyear, toList_ofRule_eq_meaning lastWorkday anchor (by omega)⟩

end Occurrences

end Recurrence
