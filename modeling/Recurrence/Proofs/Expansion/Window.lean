import Recurrence.Proofs.Expansion.Ascent

namespace Recurrence

namespace Periods

variable {p : Periods} {d : Date} {j : Nat}

/-- The periods before the one of a date may be passed over but for the last. -/
theorem unit_add_le_of_lt_indexBefore (h : j < p.indexBefore d) :
    p.unit j + 2 * p.interval ≤ p.freq.unitOf d := by
  have hj : (j + 2) * p.interval ≤ (p.freq.unitOf d - p.base).toNat :=
    (Nat.le_div_iff_mul_le p.interval_pos).1 (by unfold indexBefore at h; omega)
  have hpos := p.interval_pos
  rw [Nat.add_mul] at hj
  unfold unit
  omega

theorem indexBefore_le_count {a : Date} (h : p.base = p.freq.unitOf a) (d : Date) :
    p.indexBefore d ≤ Date.count := by
  have hunits : p.freq.unitOf d - p.freq.unitOf a ≤ 7304483 := p.freq.unitOf_sub_le d a
  have hdiv := Nat.div_le_self (p.freq.unitOf d - p.base).toNat p.interval
  unfold indexBefore Date.count
  omega

end Periods

namespace Search

variable {τ : Type} [LT τ] [DecidableLT τ] [Instant τ] [Timeline τ] {s : Search τ}
  (hs : s.FromAnchor) (ha : KeepsOrder s.anchor) (hyears : 400 ≤ s.config.maxEmptyYears)

include hs ha hyears

theorem rest_eq_of_no_window (hwindow : s.window = none) :
    s.rest (.before 0) = admitted s.limit 0 (admitted s.rule.count 0 (s.ascent 0)) := by
  rw [rest_before hs ha hyears, sieve_before_of_no_window hwindow]
  rfl

theorem rest_eq_of_window {w : Window τ} (hwindow : s.window = some w) (hlimit : s.limit = none)
    (n : Nat) :
    s.rest (.before n) =
      (admitted s.rule.count 0 (s.ascent n)).filter fun x ↦ ¬ x < w.first ∧ ¬ w.last < x := by
  have hascends : (admitted s.rule.count 0 (s.ascent n)).Pairwise fun x y ↦
      (!s.isPastWindow y) = true → (!s.isPastWindow x) = true := by
    refine ((pairwise_ascent n).sublist (admitted_sublist _ _ _)).imp fun {x y} hxy hy ↦ ?_
    simp only [isPastWindow, hwindow, Option.any_some, Bool.not_eq_true', decide_eq_false_iff_not]
      at hy ⊢
    rw [Timeline.lt_iff] at *
    omega
  rw [rest_before hs ha hyears, sieve_before, hlimit]
  change ((admitted s.rule.count 0 (s.ascent n)).takeWhile fun x ↦ !s.isPastWindow x).filter _ = _
  rw [takeWhile_eq_filter hascends, List.filter_filter]
  refine List.filter_congr fun x _ ↦ ?_
  simp [isPastWindow, isBeforeWindow, hwindow]

omit hyears in
theorem filter_ascent {n : Nat} {p keep : τ → Bool}
    (hkeep : ∀ x ∈ s.stream 0, p x = true → (keep x = true ↔ x ∈ s.stream n)) :
    (s.ascent n).filter p = (s.ascent 0).filter fun x ↦ p x && keep x := by
  refine List.Pairwise.eq_of_mem_iff (r := (· < ·)) ((pairwise_ascent n).filter _)
    ((pairwise_ascent 0).filter _) fun x ↦ ?_
  simp only [List.mem_filter, mem_ascent hs ha, Bool.and_eq_true]
  constructor
  · rintro ⟨⟨hx, hanchor, hbound⟩, hp⟩
    have hx' : x ∈ s.stream 0 := by
      obtain ⟨r, hr, hrx⟩ := mem_stream.1 hx
      obtain ⟨k, _, hk⟩ := mem_readings.1 hr
      exact mem_stream.2 ⟨r, mem_readings.2 ⟨k, Nat.zero_le k, hk⟩, hrx⟩
    exact ⟨⟨hx', hanchor, hbound⟩, hp, (hkeep x hx' hp).2 hx⟩
  · rintro ⟨⟨hx, hanchor, hbound⟩, hp, hk⟩
    exact ⟨⟨(hkeep x hx hp).1 hk, hanchor, hbound⟩, hp⟩

end Search

namespace Occurrences

section AnyTime

variable {τ : Type} [LT τ] [DecidableLT τ] [Instant τ] (rule : Rule) {anchor : τ} {config : Config}

def skipped (rule : Rule) (anchor : τ) (config : Config) (w : Window τ) : Nat :=
  if rule.count = none ∧ anchor < w.first then
    (Search.start rule anchor config).periods.indexBefore (Instant.wallClock w.first).date
  else 0

theorem skipped_le_count (w : Window τ) : skipped rule anchor config w ≤ Date.count := by
  unfold skipped
  split
  · have hbase := (Search.fromAnchor_start rule anchor config none none).base
    exact Periods.indexBefore_le_count hbase _
  · exact Nat.zero_le _

theorem within_of_not_lt {w : Window τ} (hw : ¬ w.last < w.first) :
    within rule anchor config w = ⟨{ Search.start rule anchor config with window := some w },
      .before (skipped rule anchor config w)⟩ :=
  if_neg hw

theorem toList_within_eq_rest {w : Window τ} (hw : ¬ w.last < w.first) :
    Source.toList (within rule anchor config w) =
      ({ Search.start rule anchor config with window := some w } : Search τ).rest
        (.before (skipped rule anchor config w)) := by
  rw [within_of_not_lt rule hw]
  exact toList_eq_rest _ _ (Nat.le_succ_of_le (skipped_le_count rule w))

theorem toList_within_of_lt {w : Window τ} (hw : w.last < w.first) :
    Source.toList (within rule anchor config w) = [] := by
  rw [within, if_pos hw, toList_eq_rest _ _ (Nat.zero_le _)]
  rfl

variable [Timeline τ] (ha : KeepsOrder anchor) (hyears : 400 ≤ config.maxEmptyYears)

include ha hyears

theorem toList_ofRule (limit : Option Nat) :
    Source.toList (ofRule rule anchor config limit) =
      admitted limit 0 (admitted rule.count 0 ((Search.start rule anchor config).ascent 0)) :=
  (toList_eq_rest _ _ (Nat.zero_le _)).trans
    (Search.rest_eq_of_no_window (Search.fromAnchor_start rule anchor config limit none) ha hyears
      rfl)

theorem toList_within {w : Window τ} (hw : ¬ w.last < w.first) :
    Source.toList (within rule anchor config w) =
      (admitted rule.count 0 ((Search.start rule anchor config).ascent
        (skipped rule anchor config w))).filter fun x ↦ ¬ x < w.first ∧ ¬ w.last < x :=
  (toList_within_eq_rest rule hw).trans
    (Search.rest_eq_of_window (Search.fromAnchor_start rule anchor config none (some w)) ha hyears
      rfl rfl _)

theorem toList_within_eq_filter {w : Window τ} (keep : τ → Bool)
    (hkeep : ∀ x ∈ (Search.start rule anchor config).stream 0, ¬ x < w.first → ¬ w.last < x →
      (keep x = true ↔
        x ∈ (Search.start rule anchor config).stream (skipped rule anchor config w))) :
    Source.toList (within rule anchor config w) =
      (Source.toList (ofRule rule anchor config none)).filter
        fun x ↦ ¬ x < w.first ∧ ¬ w.last < x ∧ keep x = true := by
  have hs : (Search.start rule anchor config).FromAnchor :=
    Search.fromAnchor_start rule anchor config none none
  by_cases hw : w.last < w.first
  · rw [toList_within_of_lt rule hw]
    refine (List.filter_eq_nil_iff.2 fun x _ hx ↦ ?_).symm
    obtain ⟨hfirst, hlast, _⟩ := of_decide_eq_true hx
    rw [Timeline.lt_iff] at *
    omega
  rw [toList_within rule ha hyears hw, toList_ofRule rule ha hyears none]
  by_cases hskip : rule.count = none ∧ anchor < w.first
  · rw [hskip.1]
    have hfilter : (((Search.start rule anchor config).ascent (skipped rule anchor config w)).filter
          fun x ↦ ¬ x < w.first ∧ ¬ w.last < x) =
        ((Search.start rule anchor config).ascent 0).filter
          fun x ↦ decide (¬ x < w.first ∧ ¬ w.last < x) && keep x :=
      Search.filter_ascent hs ha fun x hx hp ↦
        hkeep x hx (of_decide_eq_true hp).1 (of_decide_eq_true hp).2
    refine hfilter.trans (List.filter_congr fun x _ ↦ ?_)
    simp [Bool.and_assoc]
  · have hzero : skipped rule anchor config w = 0 := if_neg hskip
    rw [hzero]
    refine List.filter_congr fun x hx ↦ ?_
    have hx := (admitted_sublist _ _ _).subset hx
    have hstream := ((Search.mem_ascent hs ha).1 hx).1
    have hk := hkeep x hstream
    rw [hzero] at hk
    simp only [decide_eq_decide]
    constructor
    · exact fun h ↦ ⟨h.1, h.2, (hk h.1 h.2).2 hstream⟩
    · exact fun h ↦ ⟨h.1, h.2.1⟩

end AnyTime

section Floating

variable (rule : Rule) {anchor : DateTime} {config : Config}

/-- A reading that is not before another lies in no period passed over on the way to that. -/
theorem mem_stream_skipped {w : Window DateTime} {x : DateTime}
    (hx : x ∈ (Search.start rule anchor config).stream 0) (hfirst : ¬ x < w.first) :
    x ∈ (Search.start rule anchor config).stream (skipped rule anchor config w) := by
  obtain ⟨r, hr, hrx⟩ := Search.mem_stream.1 hx
  obtain rfl := Option.some.inj hrx
  obtain ⟨j, _, hstart, hj⟩ := Search.mem_readings.1 hr
  refine Search.mem_stream.2 ⟨r, Search.mem_readings.2 ⟨j, ?_, hstart, hj⟩, rfl⟩
  unfold skipped
  split
  · by_contra hlt
    have hunits := Periods.unit_add_le_of_lt_indexBefore (Nat.lt_of_not_le hlt)
    have hpos := (Search.start rule anchor config).periods.interval_pos
    rw [← (Search.mem_candidates hj).2] at hunits
    refine hfirst (DateTime.lt_iff_date_lt_or_time_lt.2 (.inl ?_))
    exact (Search.start rule anchor config).periods.freq.number_lt_of_unitOf_lt
      (Int.lt_of_lt_of_le (by omega) hunits)
  · exact Nat.zero_le j

/-- In floating time a window gives all occurrences that lie in it, counted from the anchor. -/
theorem toList_within_floating (anchor first last : DateTime) :
    Source.toList (within rule anchor {} ⟨first, last⟩) =
      (Source.toList (ofRule rule anchor {} none)).filter fun x ↦ first ≤ x ∧ x ≤ last := by
  refine (toList_within_eq_filter rule (keepsOrder_floating anchor) Config.le_default
    (fun _ ↦ true) fun x hx hfirst _ ↦ iff_of_true rfl (mem_stream_skipped rule hx hfirst)).trans ?_
  refine List.filter_congr fun x _ ↦ ?_
  simp only [DateTime.le_iff_not_lt, and_true]

end Floating

end Occurrences

end Recurrence
