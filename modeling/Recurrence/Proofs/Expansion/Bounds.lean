import Recurrence.Proofs.Expansion.Kept
import Recurrence.Proofs.Expansion.Safety
import Recurrence.Proofs.Expansion.Turns

namespace Recurrence

def FitsSigned (bits : Nat) (n : Int) : Prop := -2 ^ (bits - 1) ≤ n ∧ n < 2 ^ (bits - 1)

theorem Date.length_le_count {ds : List Date} (h : ds.Pairwise fun d e ↦ d.number < e.number) :
    ds.length ≤ count := by
  have hnodup : ds.Nodup := h.imp fun hlt heq ↦ Int.ne_of_lt hlt (congrArg number heq)
  have hsubset : ds ⊆ all := fun d _ ↦ mem_all d
  calc ds.length ≤ all.length := (List.subperm_of_subset hnodup hsubset).length_le
    _ ≤ (List.range count).length := List.length_filterMap_le _ _
    _ = count := List.length_range

namespace Position

/-- All numbers on the way from a position in so many items to the index of one fit 32 bits. -/
structure FitsInt32 (n : Int) (k : Nat) : Prop where
  position : FitsSigned 32 n
  length : FitsSigned 32 k
  sum : FitsSigned 32 (k + n)
  place : FitsSigned 32 (k + n + 1)
  index : ∀ p ∈ resolve? n k, FitsSigned 32 ((p : Int) - 1)

theorem fitsInt32_of_le {n : Int} {k : Nat} (hfirst : -366 ≤ n) (hlast : n ≤ 366)
    (hlength : k ≤ Date.count) : FitsInt32 n k := by
  unfold Date.count at hlength
  have hfits {m : Int} (hm : -366 ≤ m) (hm' : m ≤ 7304851) : FitsSigned 32 m := by
    unfold FitsSigned
    omega
  refine ⟨hfits hfirst (by omega), hfits (by omega) (by omega), hfits (by omega) (by omega),
    hfits (by omega) (by omega), ?_⟩
  intro p hp
  obtain ⟨hpos, hle, -⟩ := resolve?_eq_some_iff.1 hp
  exact hfits (by omega) (by omega)

end Position

namespace Pattern

structure IsNarrow (p : Pattern) : Prop where
  byWeekNo : ∀ n ∈ p.byWeekNo, -366 ≤ n ∧ n ≤ 366
  byMonthDay : ∀ n ∈ p.byMonthDay, -366 ≤ n ∧ n ≤ 366
  bySetPos : ∀ n ∈ p.bySetPos, -366 ≤ n ∧ n ≤ 366

theorem isNarrow_given {r : RuleData} (h : r.Valid) : (given r).IsNarrow where
  byWeekNo := by
    intro n hn
    simp only [given] at hn
    split at hn
    · have hdomain := h.byWeekNo n hn
      simp only [Domain.Contains, Param.domain] at hdomain
      omega
    · cases hn
  byMonthDay := by
    intro n hn
    have hdomain := h.byMonthDay n hn
    simp only [Domain.Contains, Param.domain] at hdomain
    omega
  bySetPos := by
    intro n hn
    have hdomain := h.bySetPos n hn
    simp only [Domain.Contains, Param.domain] at hdomain
    omega

theorem IsNarrow.withAnchor {p : Pattern} (h : p.IsNarrow) (freq : Frequency) (anchor : Date) :
    (p.withAnchor freq anchor).IsNarrow := by
  have hday : ∀ n ∈ [(anchor.day : Int)], -366 ≤ n ∧ n ≤ 366 := by
    intro n hn
    obtain rfl := List.mem_singleton.1 hn
    have hle := anchor.day_le_monthLength
    have hlength := (Year.monthLength_bounds anchor.year anchor.month_pos).2
    unfold Date.monthLength at hle
    omega
  cases freq with
  | daily => exact h
  | weekly => exact { h with }
  | monthly => exact { h with byMonthDay := hday }
  | yearly => exact { h with byMonthDay := hday }

theorem isNarrow_ofRule (r : Rule) (anchor : Date) : (ofRule r.toRuleData anchor).IsNarrow := by
  have hgiven := isNarrow_given r.valid
  unfold ofRule
  dsimp only
  split
  · exact hgiven.withAnchor r.freq anchor
  · exact hgiven

end Pattern

theorem Year.isoWeeks_le (y : Int) : isoWeeks y ≤ 53 := by
  unfold isoWeeks
  split
  · decide
  · split
    · rfl
    · split <;> decide
    · decide

namespace Search

variable {τ : Type} {s : Search τ}

theorem length_readings_le (n : Nat) : (s.readings n).length ≤ Date.count := by
  have hdates := Date.length_le_count (List.pairwise_map.2 (pairwise_readings (s := s) n))
  rwa [List.length_map] at hdates

theorem inBounds_before {n : Nat} (h : n ≤ Date.count + 1) : s.InBounds (.before n) where
  found := by
    have hlength := length_readings_le (s := s) n
    simpa [due, Cursor.before] using hlength
  given := Nat.le_refl 0
  period := h

/-- The positions that the search resolves: week numbers, days of the month, and those among the
days of a period that pass. -/
structure ResolvesInt32 (s : Search τ) : Prop where
  byWeekNo : ∀ n ∈ s.pattern.byWeekNo, ∀ d : Date, Position.FitsInt32 n (Year.isoWeeks d.isoYear)
  byMonthDay : ∀ n ∈ s.pattern.byMonthDay, ∀ d : Date, Position.FitsInt32 n d.monthLength
  bySetPos : ∀ n ∈ s.pattern.bySetPos, ∀ k, Position.FitsInt32 n
    (s.pattern.passed (s.periods.freq.days (s.periods.unit k))).length

theorem resolvesInt32_of_isNarrow (h : s.pattern.IsNarrow) : s.ResolvesInt32 where
  byWeekNo n hn d := by
    obtain ⟨hfirst, hlast⟩ := h.byWeekNo n hn
    have hweeks := Year.isoWeeks_le d.isoYear
    exact Position.fitsInt32_of_le hfirst hlast (by unfold Date.count; omega)
  byMonthDay n hn d := by
    obtain ⟨hfirst, hlast⟩ := h.byMonthDay n hn
    have hlength := (Year.monthLength_bounds d.year d.month_pos).2
    exact Position.fitsInt32_of_le hfirst hlast (by unfold Date.count Date.monthLength; omega)
  bySetPos n hn k := by
    obtain ⟨hfirst, hlast⟩ := h.bySetPos n hn
    have hdays := s.periods.freq.pairwise_days (s.periods.unit k)
    exact Position.fitsInt32_of_le hfirst hlast (Date.length_le_count (hdays.filter _))

end Search

namespace Occurrences

variable {τ : Type} [LT τ] [DecidableLT τ] [Instant τ]

/-- Wherever the loop of the search comes to, it goes on to an answer, that of the search; all
counts and numbers on the way fit their machine integers. -/
structure IsBounded (o : Occurrences τ) : Prop where
  ends : ∀ c since, o.search.Reaches o.cursor c since →
    ∃ n ≤ 14608970, ∃ answer c', o.search.Answers n c since answer c'
  answers : ∀ c, o.search.Reaches o.cursor c none →
    ∃ n p, o.search.Answers n c none (o.search.next c).1 { (o.search.next c).2 with period := p } ∧
      ((o.search.next c).1 ≠ none → p = (o.search.next c).2.period)
  calls : ∀ n, ∃ p, o.search.Reaches o.cursor { (Source.calls n o).2.cursor with period := p } none ∧
    ((Source.calls n o).2.cursor.done = false → p = (Source.calls n o).2.cursor.period)
  length_toList : (Source.toList o).length ≤ 7304484
  counts : ∀ c since, o.search.Reaches o.cursor c since → c.found < 2 ^ 32 ∧ c.given < 2 ^ 32
  steps : ∀ c since, o.search.Reaches o.cursor c since →
    FitsSigned 64 (c.period * o.search.periods.interval : Nat)
  positions : o.search.ResolvesInt32

theorem finish_of_advance {s : Search τ} {c c' : Cursor τ} {left : Nat}
    (h : s.advance left c = (none, c')) : c'.finish = c' := by
  fun_induction Search.advance s left c with
  | case1 => cases h; rfl
  | case2 => cases h
  | case3 => cases h; rfl
  | case4 => cases h; rfl
  | case5 _ _ _ _ _ _ _ _ ih => exact ih h

theorem finish_of_next {s : Search τ} {c c' : Cursor τ} (h : s.next c = (none, c')) :
    c'.finish = c' := by
  unfold Search.next at h
  split at h
  · cases h
    rfl
  · exact finish_of_advance h

theorem calls_of_finish {s : Search τ} {c : Cursor τ} (h : c.finish = c) (n : Nat) :
    (Source.calls n (⟨s, c⟩ : Occurrences τ)).2.cursor = c := by
  induction n with
  | zero => rfl
  | succ n ih =>
    have hdone : c.done = true := by
      rw [← h]
      rfl
    have hnext := Search.next_of_done (s := s) hdone
    rw [h] at hnext
    rw [Source.calls, next_eq hnext]
    exact ih

theorem reaches_calls {s : Search τ} {c₀ c : Cursor τ} (h₀ : s.InBounds c₀)
    (h : s.Reaches c₀ c none) (n : Nat) :
    ∃ p, s.Reaches c₀ { (Source.calls n (⟨s, c⟩ : Occurrences τ)).2.cursor with period := p } none ∧
      ((Source.calls n (⟨s, c⟩ : Occurrences τ)).2.cursor.done = false →
        p = (Source.calls n (⟨s, c⟩ : Occurrences τ)).2.cursor.period) := by
  induction n generalizing c with
  | zero => exact ⟨c.period, h, fun _ ↦ rfl⟩
  | succ n ih =>
    obtain ⟨p, ⟨k, hanswers⟩, hp⟩ := Search.ends_next (h₀.of_reaches h).period
    have hreaches := h.answers hanswers
    rcases hnext : s.next c with ⟨_ | x, c'⟩
    · have hfinish := finish_of_next hnext
      have hcalls : (Source.calls (n + 1) (⟨s, c⟩ : Occurrences τ)).2.cursor = c' := by
        rw [Source.calls, next_eq hnext]
        exact calls_of_finish hfinish n
      rw [hnext] at hreaches
      rw [hcalls]
      refine ⟨p, hreaches, fun hdone ↦ ?_⟩
      rw [← hfinish] at hdone
      cases hdone
    · have hp : p = c'.period := by
        rw [hnext] at hp
        exact hp (by simp)
      rw [hnext, hp] at hreaches
      rw [Source.calls, next_eq hnext]
      exact ih hreaches

theorem length_toList_le_due {s : Search τ} {c : Cursor τ} (hperiod : c.period ≤ Date.count + 1) :
    (Source.toList (⟨s, c⟩ : Occurrences τ)).length ≤ s.due c := by
  rw [toList_eq_rest s c hperiod, Search.rest]
  split
  · exact Nat.zero_le _
  · have hsieve : (s.sieve c (c.pending ++ s.supply c.period)).Sublist
        (c.pending ++ s.supply c.period) :=
      (Search.sieve_sublist_rising c _).trans ((rising_sublist _ _).trans List.filter_sublist)
    have hstream := List.length_filterMap_le (Instant.atWallClock? s.anchor) (s.readings c.period)
    calc (s.sieve c (c.pending ++ s.supply c.period)).length
        ≤ c.pending.length + (s.supply c.period).length := by
          rw [← List.length_append]
          exact hsieve.length_le
      _ ≤ c.pending.length + (s.stream c.period).length :=
          Nat.add_le_add_left (s.supply_sublist_stream c.period).length_le _
      _ ≤ s.due c := Nat.add_le_add_left hstream _

theorem isBounded_of_inBounds {s : Search τ} {c₀ : Cursor τ} (h : s.InBounds c₀)
    (hinterval : s.periods.interval ≤ 4294967295) (hnarrow : s.pattern.IsNarrow) :
    IsBounded ⟨s, c₀⟩ where
  ends c since hreaches := by
    have hpotential := (h.of_reaches hreaches).potential_le
    obtain ⟨n, answer, c', hanswers⟩ := s.exists_answers c since
    have hturns := Search.turns_le_potential hanswers
    unfold Date.count at hpotential
    exact ⟨n, by omega, answer, c', hanswers⟩
  answers c hreaches := by
    obtain ⟨p, ⟨n, hanswers⟩, hp⟩ := Search.ends_next (h.of_reaches hreaches).period
    exact ⟨n, p, hanswers, hp⟩
  calls := reaches_calls h .start
  length_toList := by
    have hlength := length_toList_le_due (s := s) h.period
    have hfound := h.found
    unfold Date.count at hfound
    omega
  counts c since hreaches := by
    have hbounds := h.of_reaches hreaches
    have hfound := hbounds.found
    have hgiven := hbounds.given
    unfold Date.count at hfound
    omega
  steps c since hreaches := by
    have hperiod := (h.of_reaches hreaches).period
    have hproduct := Nat.mul_le_mul hperiod hinterval
    unfold Date.count at hproduct
    unfold FitsSigned
    dsimp only
    omega
  positions := Search.resolvesInt32_of_isNarrow hnarrow

variable (rule : Rule) (anchor : τ) (config : Config)

theorem isBounded_start (limit : Option Nat) (window : Option (Window τ)) {c₀ : Cursor τ}
    (h : ({ Search.start rule anchor config with limit, window } : Search τ).InBounds c₀) :
    IsBounded ⟨{ Search.start rule anchor config with limit, window }, c₀⟩ := by
  have hinterval : (rule.interval : Int) ≤ 4294967295 := rule.valid.interval.2.1
  exact isBounded_of_inBounds h (Int.ofNat_le.1 hinterval) (Pattern.isNarrow_ofRule rule _)

def unitsTo (x : τ) : Int :=
  rule.freq.unitOf (Instant.wallClock x).date - rule.freq.unitOf (Instant.wallClock anchor).date

/-- Where the search in a window begins, as the quotient of integers is rounded towards zero. -/
theorem skipped_eq (w : Window τ) : (skipped rule anchor config w : Int) =
    if rule.count = none ∧ anchor < w.first then
      max ((unitsTo rule anchor w.first).tdiv rule.interval - 1) 0
    else 0 := by
  unfold skipped
  split
  · have hindex : (Search.start rule anchor config).periods.indexBefore
        (Instant.wallClock w.first).date =
          (unitsTo rule anchor w.first).toNat / rule.interval - 1 := rfl
    rw [hindex]
    have hdiv (k : Nat) : (k : Int).tdiv rule.interval = (k / rule.interval : Nat) := rfl
    rcases Int.le_total 0 (unitsTo rule anchor w.first) with hle | hle
    · obtain ⟨k, hk⟩ := Int.eq_ofNat_of_zero_le hle
      rw [hk, Int.toNat_natCast, hdiv]
      omega
    · obtain ⟨k, hk⟩ := Int.exists_eq_neg_ofNat hle
      rw [hk, Int.toNat_neg_natCast, Nat.zero_div, Int.neg_tdiv, hdiv]
      generalize k / rule.interval = q
      omega
  · rfl

/-- Every call comes to an answer, and no count or number overflows on the way, whatever the rule,
the anchor, the configuration, the limit and the window. Periods are passed over by a division that
is defined, and none before the first. -/
theorem isBounded :
    (∀ limit, IsBounded (ofRule rule anchor config limit)) ∧
      ∀ w, IsBounded (within rule anchor config w) ∧ (rule.interval : Int) ≠ 0 ∧
        (¬ w.last < w.first → ((within rule anchor config w).cursor.period : Int) =
          if rule.count = none ∧ anchor < w.first then
            max ((unitsTo rule anchor w.first).tdiv rule.interval - 1) 0
          else 0) := by
  constructor
  · intro limit
    exact isBounded_start rule anchor config limit none (Search.inBounds_before (Nat.zero_le _))
  · intro w
    have hinterval := rule.interval_pos
    refine ⟨?_, by omega, ?_⟩
    · by_cases hw : w.last < w.first
      · rw [within, if_pos hw]
        apply isBounded_start rule anchor config none none
        exact (Search.inBounds_before (Nat.zero_le _)).finish
      · rw [within_of_not_lt rule hw]
        apply isBounded_start rule anchor config none (some w)
        exact Search.inBounds_before (Nat.le_succ_of_le (skipped_le_count rule w))
    · intro hw
      rw [within_of_not_lt rule hw]
      exact skipped_eq rule anchor config w

end Occurrences

end Recurrence
