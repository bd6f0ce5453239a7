import Recurrence.Expansion.Search
import Recurrence.Proofs.Expansion.Pattern

namespace Recurrence

theorem Config.le_default : 400 ≤ ({} : Config).maxEmptyYears := Nat.le_refl 400

namespace Search

variable {τ : Type}

/-- The periods are counted from the one that holds the anchor, by the interval of the rule, and
the time of day is the anchor's. -/
structure FromAnchor [Instant τ] (s : Search τ) : Prop where
  base : s.periods.base = s.periods.freq.unitOf (Instant.wallClock s.anchor).date
  interval : s.periods.interval = s.rule.interval
  time : s.time = (Instant.wallClock s.anchor).time

theorem fromAnchor_start [Instant τ] (rule : Rule) (anchor : τ) (config : Config)
    (limit : Option Nat) (window : Option (Window τ)) :
    ({ start rule anchor config with limit, window } : Search τ).FromAnchor :=
  ⟨rfl, rfl, rfl⟩

variable (s : Search τ)

/-- The search is given up in period `k`, since period `i` and all up to `k` were empty. -/
def GivesUp (i k : Nat) : Prop :=
  i ≤ k ∧ (∀ j, i ≤ j → j ≤ k → s.candidates j = []) ∧
    ∃ since day, s.periods.start? i = some since ∧ s.periods.start? k = some day ∧
      s.isExhausted since day = true

theorem refill_eq_none [LT τ] [DecidableLT τ] [Instant τ] {left n : Nat} {since : Option Date}
    (hleft : Date.count + 1 ≤ n + left)
    (hsince : ∀ d ∈ since, ∃ i ≤ n, s.periods.start? i = some d ∧
      ∀ j, i ≤ j → j < n → s.candidates j = [])
    (h : s.refill left n since = none) :
    ∃ k, n ≤ k ∧ (∀ j, n ≤ j → j < k → s.candidates j = []) ∧
      (s.periods.start? k = none ∨
        (∃ day, s.periods.start? k = some day ∧ s.startsTooLate day = true) ∨
        ∃ i, s.GivesUp i k) := by
  fun_induction refill s left n since with
  | case1 n since =>
    refine ⟨n, Nat.le_refl n, fun j hnj hjn ↦ by omega, .inl ?_⟩
    refine Option.eq_none_iff_forall_not_mem.2 fun d hd ↦ ?_
    have := Periods.le_count_of_start? hd
    omega
  | case2 left n since hnone =>
    exact ⟨n, Nat.le_refl n, fun j hnj hjn ↦ by omega, .inl hnone⟩
  | case3 left n since day hday hlate =>
    exact ⟨n, Nat.le_refl n, fun j hnj hjn ↦ by omega, .inr (.inl ⟨day, hday, hlate⟩)⟩
  | case4 left n since day hday hlate hempty hexhausted =>
    refine ⟨n, Nat.le_refl n, fun j hnj hjn ↦ by omega, .inr (.inr ?_)⟩
    cases since with
    | none =>
      refine ⟨n, Nat.le_refl n, fun j hnj hjn ↦ ?_, day, day, hday, hday, hexhausted⟩
      obtain rfl := Nat.le_antisymm hjn hnj
      exact hempty
    | some d =>
      obtain ⟨i, hin, hi, hbefore⟩ := hsince d rfl
      refine ⟨i, hin, fun j hij hjn ↦ ?_, d, day, hi, hday, hexhausted⟩
      obtain rfl | hlt := Nat.eq_or_lt_of_le hjn
      · exact hempty
      · exact hbefore j hij hlt
  | case5 left n since day hday hlate hempty hgoes ih =>
    have hnext : ∀ d ∈ some (since.getD day), ∃ i ≤ n + 1, s.periods.start? i = some d ∧
        ∀ j, i ≤ j → j < n + 1 → s.candidates j = [] := by
      intro d hd
      obtain rfl := Option.mem_some.1 hd
      cases since with
      | none =>
        refine ⟨n, Nat.le_succ n, hday, fun j hnj hjn ↦ ?_⟩
        obtain rfl : j = n := by omega
        exact hempty
      | some d =>
        obtain ⟨i, hin, hi, hbefore⟩ := hsince d rfl
        refine ⟨i, Nat.le_succ_of_le hin, hi, fun j hij hjn ↦ ?_⟩
        obtain rfl | hlt := Nat.eq_or_lt_of_le (Nat.le_of_lt_succ hjn)
        · exact hempty
        · exact hbefore j hij hlt
    obtain ⟨k, hk, hbefore, hend⟩ := ih (by omega) hnext h
    refine ⟨k, by omega, fun j hnj hjk ↦ ?_, hend⟩
    obtain rfl | hlt := Nat.eq_or_lt_of_le hnj
    · exact hempty
    · exact hbefore j hlt hjk
  | case6 => cases h

variable {s}

theorem candidates_eq_nil_iff {n : Nat} :
    s.candidates n = [] ↔ s.pattern.pick (s.periods.freq.days (s.periods.unit n)) = [] := by
  rw [candidates, List.map_eq_nil_iff]

theorem map_addYears?_candidates {n : Nat}
    (hn : -3652425 ≤ s.periods.freq.firstNumber (s.periods.unit n))
    (hwhole : s.periods.IsWhole (n + s.periods.freq.cycle)) :
    (s.candidates n).map (·.addYears? (400 * s.periods.interval)) =
      (s.candidates (n + s.periods.freq.cycle)).map some := by
  have hlast := hwhole.2
  rw [Periods.unit_add_cycle] at hlast
  have hpick := s.pattern.map_addYears?_pick (s.periods.freq.map_addYears?_days hn hlast)
  have hmap := congrArg (List.map (Option.map fun d ↦ DateTime.mk d s.time)) hpick
  rw [List.map_map, List.map_map] at hmap
  rw [candidates, candidates, Periods.unit_add_cycle, List.map_map, List.map_map]
  exact hmap

theorem candidates_add_cycle_eq_nil {n : Nat}
    (hn : -3652425 ≤ s.periods.freq.firstNumber (s.periods.unit n)) (h : s.candidates n = []) :
    s.candidates (n + s.periods.freq.cycle) = [] := by
  rw [candidates_eq_nil_iff] at h ⊢
  rw [Periods.unit_add_cycle]
  exact s.pattern.pick_eq_nil_of_length_le (s.pattern.length_passed_days_le _ hn) h

variable [Instant τ] (hs : s.FromAnchor)

include hs

theorem candidates_eq_nil_of_cycle {i : Nat}
    (h : ∀ j, i ≤ j → j ≤ i + s.periods.freq.cycle → s.candidates j = []) {n : Nat} (hn : i ≤ n) :
    s.candidates n = [] := by
  induction n using Nat.strong_induction_on with
  | h n ih =>
    by_cases hle : n ≤ i + s.periods.freq.cycle
    · exact h n hn hle
    · have hpos : 0 < s.periods.freq.cycle := by cases s.periods.freq <;> decide
      have hprev := ih (n - s.periods.freq.cycle) (by omega) (by omega)
      have hnext := candidates_add_cycle_eq_nil
        (Periods.first_le_firstNumber_unit hs.base _) hprev
      rwa [Nat.sub_add_cancel (by omega)] at hnext

theorem cycle_le_of_isExhausted {i k : Nat} {since day : Date}
    (hyears : 400 ≤ s.config.maxEmptyYears) (hi : s.periods.start? i = some since)
    (hk : s.periods.start? k = some day) (h : s.isExhausted since day = true) :
    i + s.periods.freq.cycle ≤ k := by
  obtain ⟨limit, hlimit, hle⟩ := (Option.any_eq_true _ _).1 h
  have hle : limit.number ≤ day.number := of_decide_eq_true hle
  have hlater := Date.number_le_of_addYears? (Nat.mul_le_mul_right s.rule.interval hyears) hlimit
  rw [Periods.number_of_start? hi, ← Frequency.firstNumber_add_cycles, ← hs.interval,
    ← Periods.unit_add_cycle] at hlater
  rw [Periods.number_of_start? hk] at hle
  exact s.periods.unit_le_iff.1
    (s.periods.freq.firstNumber_le_iff.1 (hlater.trans hle))

theorem candidates_eq_nil_of_givesUp {i k n : Nat} (hyears : 400 ≤ s.config.maxEmptyYears)
    (h : s.GivesUp i k) (hn : i ≤ n) : s.candidates n = [] := by
  obtain ⟨_, hempty, since, day, hi, hk, hexhausted⟩ := h
  have hcycle := cycle_le_of_isExhausted hs hyears hi hk hexhausted
  exact candidates_eq_nil_of_cycle hs (fun j hij hj ↦ hempty j hij (hj.trans hcycle)) hn

omit hs

/-- The candidates of a period that lies wholly in the calendar are those of the period a cycle
before, 400 years times the interval later. So a search that looks for a cycle at least is given up
only where no period to come has a candidate, be it cut short by the end of the calendar: what a
refill does not find is not there, up to the end of the calendar or a period that starts too
late. -/
theorem exhaustion_loses_nothing [LT τ] [DecidableLT τ] (rule : Rule) (anchor : τ) (config : Config)
    (limit : Option Nat) (window : Option (Window τ)) :
    let s : Search τ := { start rule anchor config with limit, window }
    (∀ n, s.periods.IsWhole (n + rule.freq.cycle) →
      (s.candidates n).map (·.addYears? (400 * rule.interval)) =
        (s.candidates (n + rule.freq.cycle)).map some) ∧
    (400 ≤ config.maxEmptyYears →
      (∀ i k, s.GivesUp i k → ∀ n, i ≤ n → s.candidates n = []) ∧
      ∀ n, s.refill (Date.count + 1 - n) n none = none →
        (∀ j, n ≤ j → s.candidates j = []) ∨
        ∃ k, n ≤ k ∧ (∀ j, n ≤ j → j < k → s.candidates j = []) ∧
          (s.periods.start? k = none ∨
            ∃ day, s.periods.start? k = some day ∧ s.startsTooLate day = true)) := by
  intro s
  have hs : s.FromAnchor := fromAnchor_start rule anchor config limit window
  refine ⟨fun n hwhole ↦ ?_, fun hyears ↦ ⟨fun i k h n hn ↦ ?_, fun n h ↦ ?_⟩⟩
  · exact map_addYears?_candidates (Periods.first_le_firstNumber_unit hs.base n) hwhole
  · exact candidates_eq_nil_of_givesUp hs hyears h hn
  · obtain ⟨k, hk, hbefore, hend⟩ := s.refill_eq_none (by omega) (by simp) h
    obtain hnone | hlate | ⟨i, hgives⟩ := hend
    · exact .inr ⟨k, hk, hbefore, .inl hnone⟩
    · exact .inr ⟨k, hk, hbefore, .inr hlate⟩
    · refine .inl fun j hj ↦ ?_
      obtain hlt | hle := Nat.lt_or_ge j k
      · exact hbefore j hj hlt
      · exact candidates_eq_nil_of_givesUp hs hyears hgives (hgives.1.trans hle)

def thirtiethOfFebruary : Rule where
  freq := .yearly
  byMonth := [2]
  byMonthDay := [30]

/-- The leap day of 2024 comes again in 2424. A search for February 30 is given up. -/
theorem exhaustion_loses_nothing_thirtiethOfFebruary :
    let leapDay : DateTime := ⟨⟨738944, by decide, by decide⟩, .midnight⟩
    let leapDays := start { freq := .yearly, byMonth := [2], byMonthDay := [29] } leapDay {}
    let anchor : DateTime := ⟨⟨739251, by decide, by decide⟩, .midnight⟩
    let s := start thirtiethOfFebruary anchor {}
    (leapDays.periods.IsWhole 400 ∧ leapDays.candidates 0 = [leapDay] ∧
      (leapDays.candidates 0).map (·.addYears? 400) = (leapDays.candidates 400).map some) ∧
    s.periods.IsWhole 400 ∧ (s.candidates 0).map (·.addYears? 400) = (s.candidates 400).map some ∧
      s.GivesUp 0 400 ∧ ∀ n, s.candidates n = [] := by
  intro leapDay leapDays anchor s
  have hleapWhole : leapDays.periods.IsWhole 400 := by decide
  have hleapDay : leapDays.candidates 0 = [leapDay] := by decide +kernel
  have hleapDays := exhaustion_loses_nothing leapDays.rule leapDay {} none none
  have hnone (d : Date) : ¬ s.pattern.Passes d := by
    rintro ⟨hmonth, -, hday, -⟩
    obtain hmonth : (d.month : Int) = 2 := by
      simpa [s, Pattern.PassesMonth, start, Pattern.ofRule, Pattern.given, thirtiethOfFebruary]
        using hmonth
    obtain hday : Position.resolve? 30 d.monthLength = some d.day := by
      simpa [s, Pattern.PassesMonthDay, start, Pattern.ofRule, Pattern.given, thirtiethOfFebruary]
        using hday
    have hmonth : d.month = 2 := by omega
    obtain ⟨-, hle, hday⟩ := Position.resolve?_eq_some_iff.1 hday
    have hleap := Year.leapDays_le_one d.year
    have hlength : d.monthLength = 28 + Year.leapDays d.year := by
      rw [Date.monthLength, hmonth, Year.monthLength_two]
    omega
  have hempty (n : Nat) : s.candidates n = [] :=
    candidates_eq_nil_iff.2 (List.filter_eq_nil_iff.2 fun d _ hd ↦ hnone d (of_decide_eq_true hd))
  have hwhole : s.periods.IsWhole 400 := by decide
  have hgives : s.GivesUp 0 400 := by
    refine ⟨by decide, fun j _ _ ↦ hempty j, ⟨739251, by decide, by decide⟩,
      ⟨885348, by decide, by decide⟩, by decide, by decide, by decide⟩
  have h := exhaustion_loses_nothing thirtiethOfFebruary anchor {} none none
  refine ⟨⟨hleapWhole, hleapDay, hleapDays.1 0 hleapWhole⟩, hwhole, h.1 0 hwhole, hgives, fun n ↦ ?_⟩
  exact (h.2 Config.le_default).1 0 400 hgives n (Nat.zero_le n)

end Search

end Recurrence
