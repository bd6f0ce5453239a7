import Recurrence.Proofs.Expansion.Walk
import Recurrence.Proofs.Instant

/-!
All that the periods hold. The readings of the periods ascend, and on a clock that keeps the order
of the dates so do their instants. A search that is not given up too early misses only instants
past the end of the rule or the window.
-/

namespace Recurrence

namespace Search

variable {τ : Type} (s : Search τ)

/-- The readings that the rule picks in the periods from `n` on. -/
def readings (n : Nat) : List DateTime :=
  ((List.range' n (Date.count + 1 - n)).filter fun k ↦ (s.periods.start? k).isSome).flatMap
    s.candidates

def stream [Instant τ] (n : Nat) : List τ :=
  (s.readings n).filterMap (Instant.atWallClock? s.anchor)

variable {s} {n k : Nat} {r : DateTime}

theorem mem_readings :
    r ∈ s.readings n ↔ ∃ k, n ≤ k ∧ (s.periods.start? k).isSome ∧ r ∈ s.candidates k := by
  simp only [readings, List.mem_flatMap, List.mem_filter, List.mem_range'_1]
  constructor
  · rintro ⟨k, ⟨⟨hk, _⟩, hstart⟩, hr⟩
    exact ⟨k, hk, hstart, hr⟩
  · rintro ⟨k, hk, hstart, hr⟩
    obtain ⟨day, hday⟩ := Option.isSome_iff_exists.1 hstart
    have hle := Periods.le_count_of_start? hday
    exact ⟨k, ⟨⟨hk, by omega⟩, hstart⟩, hr⟩

theorem mem_candidates (hr : r ∈ s.candidates k) :
    r.time = s.time ∧ s.periods.freq.unitOf r.date = s.periods.unit k := by
  obtain ⟨d, hd, rfl⟩ := List.mem_map.1 hr
  exact ⟨rfl, (s.periods.freq.mem_days_iff).1 ((s.pattern.pick_sublist _).subset hd)⟩

theorem pairwise_candidates (k : Nat) :
    (s.candidates k).Pairwise fun r r' ↦ r.date.number < r'.date.number :=
  List.pairwise_map.2
    ((s.periods.freq.pairwise_days (s.periods.unit k)).sublist (s.pattern.pick_sublist _))

theorem pairwise_readings (n : Nat) :
    (s.readings n).Pairwise fun r r' ↦ r.date.number < r'.date.number := by
  refine List.pairwise_flatMap.2 ⟨fun k _ ↦ pairwise_candidates k, ?_⟩
  refine ((List.pairwise_lt_range' ..).filter _).imp fun {k l} hkl r hr r' hr' ↦ ?_
  refine s.periods.freq.number_lt_of_unitOf_lt ?_
  rw [(mem_candidates hr).2, (mem_candidates hr').2]
  exact s.periods.unit_lt_iff.2 hkl

theorem time_of_mem_readings (hr : r ∈ s.readings n) : r.time = s.time := by
  obtain ⟨k, _, _, hk⟩ := mem_readings.1 hr
  exact (mem_candidates hk).1

theorem readings_eq_append (h : (s.periods.start? n).isSome) :
    s.readings n = s.candidates n ++ s.readings (n + 1) := by
  obtain ⟨day, hday⟩ := Option.isSome_iff_exists.1 h
  have hle := Periods.le_count_of_start? hday
  rw [readings, readings, show Date.count + 1 - n = Date.count + 1 - (n + 1) + 1 by omega,
    List.range'_succ, List.filter_cons, if_pos h, List.flatMap_cons]

theorem readings_eq_of_candidates_eq_nil (h : s.candidates n = []) :
    s.readings n = s.readings (n + 1) := by
  by_cases hstart : (s.periods.start? n).isSome = true
  · rw [readings_eq_append hstart, h, List.nil_append]
  · rw [readings, readings]
    obtain hlt | hle := Nat.lt_or_ge Date.count n
    · rw [Nat.sub_eq_zero_of_le hlt, Nat.sub_eq_zero_of_le (Nat.le_succ_of_le hlt)]
      rfl
    · rw [show Date.count + 1 - n = Date.count + 1 - (n + 1) + 1 by omega, List.range'_succ,
        List.filter_cons, if_neg hstart]

theorem readings_eq_of_empty (hnk : n ≤ k) (h : ∀ j, n ≤ j → j < k → s.candidates j = []) :
    s.readings n = s.readings k := by
  induction k, hnk using Nat.le_induction with
  | base => rfl
  | succ k hnk ih =>
    rw [ih fun j hj hjk ↦ h j hj (Nat.lt_succ_of_lt hjk),
      readings_eq_of_candidates_eq_nil (h k hnk (Nat.lt_succ_self k))]

variable [LT τ] [DecidableLT τ] [Instant τ]

omit [LT τ] [DecidableLT τ] in
theorem mem_stream {x : τ} :
    x ∈ s.stream n ↔ ∃ r ∈ s.readings n, Instant.atWallClock? s.anchor r = some x :=
  List.mem_filterMap

omit [LT τ] [DecidableLT τ] in
theorem stream_eq_append (hnk : n ≤ k) (hempty : ∀ j, n ≤ j → j < k → s.candidates j = [])
    (hstart : (s.periods.start? k).isSome) : s.stream n = s.batch k ++ s.stream (k + 1) := by
  rw [stream, readings_eq_of_empty hnk hempty, readings_eq_append hstart, List.filterMap_append]
  rfl

theorem supply_sublist_stream (n : Nat) : (s.supply n).Sublist (s.stream n) := by
  rcases h : s.refill (Date.count + 1 - n) n none with _ | ⟨m, pending⟩
  · rw [supply_eq_nil s h]
    exact List.nil_sublist _
  · obtain ⟨k, rfl, hnk, hempty, hstart, rfl⟩ := s.refill_eq_some h
    have hlt := s.lt_of_refill h
    rw [supply_eq_append s h, stream_eq_append hnk hempty hstart]
    exact (List.Sublist.refl _).append (supply_sublist_stream (k + 1))
termination_by Date.count + 1 - n
decreasing_by omega

variable [Timeline τ] (hs : s.FromAnchor) (ha : KeepsOrder s.anchor)

include hs ha

theorem beyond_of_startsTooLate {day : Date} {x : τ} (hlate : s.startsTooLate day = true)
    (hday : day.number ≤ r.date.number) (htime : r.time = s.time)
    (hx : Instant.atWallClock? s.anchor r = some x) :
    s.exceedsBound x = true ∨ s.isPastWindow x = true := by
  obtain ⟨m, hm, hlate⟩ := (Option.any_eq_true _ _).1 hlate
  have hx : Instant.atWallClock? s.anchor ⟨r.date, (Instant.wallClock s.anchor).time⟩ = some x := by
    rw [← hs.time, ← htime]
    exact hx
  obtain hexceeds | hpast := Bool.or_eq_true_iff.1 hlate
  · obtain ⟨bound, hbound, hexceeds⟩ := (Option.any_eq_true _ _).1 hexceeds
    refine .inl ((Option.any_eq_true _ _).2 ⟨bound, hbound, ?_⟩)
    exact ha.exceeds bound (.inl rfl) hday hm hx hexceeds
  · obtain ⟨w, hw, hpast⟩ := (Option.any_eq_true _ _).1 hpast
    refine .inr ((Option.any_eq_true _ _).2 ⟨w, hw, decide_eq_true ?_⟩)
    have hle := ha.not_lt (.inl rfl) hday hm hx
    have hlt := of_decide_eq_true hpast
    rw [Timeline.lt_iff] at *
    omega

theorem beyond_of_mem_stream {day : Date} {x : τ} (hnk : n ≤ k)
    (hempty : ∀ j, n ≤ j → j < k → s.candidates j = []) (hday : s.periods.start? k = some day)
    (hlate : s.startsTooLate day = true) (hx : x ∈ s.stream n) :
    s.exceedsBound x = true ∨ s.isPastWindow x = true := by
  obtain ⟨r, hr, hx⟩ := mem_stream.1 hx
  rw [readings_eq_of_empty hnk hempty] at hr
  obtain ⟨j, hkj, -, hj⟩ := mem_readings.1 hr
  obtain ⟨htime, hunit⟩ := mem_candidates hj
  refine beyond_of_startsTooLate hs ha hlate ?_ htime hx
  rw [Periods.number_of_start? hday, Frequency.firstNumber_le_number_iff, hunit]
  exact s.periods.unit_le_iff.2 hkj

/-- Of all instants from a period on the search misses none but the last, which are too late. -/
theorem stream_eq_supply_append (hyears : 400 ≤ s.config.maxEmptyYears) (n : Nat) :
    ∃ missed, s.stream n = s.supply n ++ missed ∧
      ∀ x ∈ missed, s.exceedsBound x = true ∨ s.isPastWindow x = true := by
  rcases h : s.refill (Date.count + 1 - n) n none with _ | ⟨m, pending⟩
  · refine ⟨s.stream n, by rw [supply_eq_nil s h, List.nil_append], fun x hx ↦ ?_⟩
    obtain ⟨k, hnk, hbefore, hend⟩ := s.refill_eq_none (by omega) (by simp) h
    have hrest := hx
    rw [stream, readings_eq_of_empty hnk hbefore] at hrest
    obtain ⟨r, hr, -⟩ := mem_stream.1 hrest
    obtain ⟨j, hkj, hstart, hj⟩ := mem_readings.1 hr
    obtain hnone | ⟨day, hday, hlate⟩ | ⟨i, hgives⟩ := hend
    · rw [Periods.start?_eq_none_of_le hs.base hkj hnone] at hstart
      cases hstart
    · exact beyond_of_mem_stream hs ha hnk hbefore hday hlate hx
    · rw [candidates_eq_nil_of_givesUp hs hyears hgives (hgives.1.trans hkj)] at hj
      exact (List.not_mem_nil hj).elim
  · obtain ⟨k, rfl, hnk, hempty, hstart, rfl⟩ := s.refill_eq_some h
    have hlt := s.lt_of_refill h
    obtain ⟨missed, hmissed, hbeyond⟩ := stream_eq_supply_append hyears (k + 1)
    refine ⟨missed, ?_, hbeyond⟩
    rw [stream_eq_append hnk hempty hstart, supply_eq_append s h, hmissed, List.append_assoc]
termination_by Date.count + 1 - n
decreasing_by omega

theorem rest_before (hyears : 400 ≤ s.config.maxEmptyYears) (n : Nat) :
    s.rest (.before n) = s.sieve (.before n) (s.stream n) := by
  obtain ⟨missed, hstream, hbeyond⟩ := stream_eq_supply_append hs ha hyears n
  rw [hstream, s.sieve_append_of_beyond _ hbeyond]
  rfl

end Search

end Recurrence
