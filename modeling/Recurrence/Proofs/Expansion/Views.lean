import Recurrence.Proofs.Expansion.Membership
import Recurrence.Proofs.Expansion.Patience

/-!
The occurrences of a series and those in a window, seen by a search that may be given up. Each view
shows what the search comes to before it is given up, and the two begin to wait in different
periods: behind a stretch of empty periods that exhausts the search from the anchor on, a window
that begins in that stretch still shows occurrences.
-/

namespace Recurrence

theorem mem_iff_of_eq_append {α : Type} {p : α → Prop} {xs ys missed : List α}
    (h : ys = xs ++ missed) (hxs : ∀ x ∈ xs, ¬ p x) (hmissed : ∀ x ∈ missed, p x) {x : α} :
    x ∈ xs ↔ x ∈ ys ∧ ¬ p x := by
  rw [h, List.mem_append]
  constructor
  · exact fun hx ↦ ⟨.inl hx, hxs x hx⟩
  · rintro ⟨hx | hx, hnot⟩
    · exact hx
    · exact absurd (hmissed x hx) hnot

namespace Search

variable {s : Search DateTime} {i j n : Nat} {x : DateTime}

theorem eq_of_mem_batch (hi : x ∈ s.batch i) (hj : x ∈ s.batch j) : i = j := by
  obtain ⟨r, hr, hrx⟩ := List.mem_filterMap.1 hi
  obtain ⟨r', hr', hrx'⟩ := List.mem_filterMap.1 hj
  obtain rfl := Option.some.inj hrx
  obtain rfl := Option.some.inj hrx'
  have hunit : s.periods.unit i = s.periods.unit j :=
    (mem_candidates hr).2.symm.trans (mem_candidates hr').2
  exact Nat.le_antisymm (s.periods.unit_le_iff.1 (Int.le_of_eq hunit))
    (s.periods.unit_le_iff.1 (Int.le_of_eq hunit.symm))

/-- What is given out is not missed, for its period is the only one that holds it. -/
theorem not_misses_of_mem_rest (hx : x ∈ s.rest (.before n)) : ¬ s.Misses n x := by
  rintro ⟨i, k, j, hni, hgives, hkj, hj⟩
  have hx : x ∈ s.supply n := (sieve_sublist (.before n) (s.supply n)).subset hx
  obtain ⟨j', -, hj', hbefore⟩ := exists_mem_batch_of_mem_supply hx
  obtain rfl := eq_of_mem_batch hj' hj
  have hle := hbefore i k hni hgives
  omega

end Search

namespace Occurrences

variable (rule : Rule) (anchor : DateTime) (c : Config) (w : Window DateTime) {x : DateTime}

theorem mem_toList_ofRule_iff :
    x ∈ Source.toList (ofRule rule anchor c none) ↔
      x ∈ Source.toList (ofRule rule anchor {} none) ∧
        ¬ (Search.start rule anchor c).Misses 0 x := by
  obtain hle | hge := Nat.le_total c.maxEmptyYears ({} : Config).maxEmptyYears
  · obtain ⟨missed, hlist, hmissed⟩ := toList_ofRule_waiting rule anchor hle none
    refine mem_iff_of_eq_append hlist (fun y hy ↦ ?_) hmissed
    rw [ofRule, toList_eq_rest _ _ (Nat.zero_le _)] at hy
    exact Search.not_misses_of_mem_rest hy
  · have hs := Search.fromAnchor_start rule anchor c none none
    rw [toList_ofRule_eq_default rule anchor hge]
    exact (and_iff_left (Search.not_misses hs hge 0 x)).symm

theorem mem_toList_within_default_iff :
    x ∈ Source.toList (within rule anchor {} w) ↔
      x ∈ Source.toList (ofRule rule anchor {} none) ∧ w.first ≤ x ∧ x ≤ w.last := by
  have hfilter := toList_within_eq_filter rule (keepsOrder_floating anchor) Config.le_default
    (w := w) (fun _ ↦ true) fun x hx hfirst _ ↦
      iff_of_true rfl (mem_stream_skipped rule hx hfirst)
  rw [hfilter, List.mem_filter, DateTime.le_iff_not_lt, DateTime.le_iff_not_lt]
  simp only [decide_eq_true_eq, and_true]

theorem mem_toList_within_iff :
    x ∈ Source.toList (within rule anchor c w) ↔
      x ∈ Source.toList (within rule anchor {} w) ∧
        ¬ (Search.start rule anchor c).Misses (skipped rule anchor c w) x := by
  obtain hle | hge := Nat.le_total c.maxEmptyYears ({} : Config).maxEmptyYears
  · obtain ⟨missed, hlist, hmissed⟩ := toList_within_waiting rule anchor hle w
    refine mem_iff_of_eq_append hlist (fun y hy ↦ ?_) hmissed
    by_cases hw : w.last < w.first
    · rw [toList_within_of_lt rule hw] at hy
      cases hy
    · let s : Search DateTime := { Search.start rule anchor c with window := some w }
      rw [toList_within_eq_rest rule hw] at hy
      exact Search.not_misses_of_mem_rest (s := s) hy
  · have hs := Search.fromAnchor_start rule anchor c none none
    rw [toList_within_eq_default rule anchor hge]
    exact (and_iff_left (Search.not_misses hs hge _ x)).symm

theorem misses_skipped_iff
    (h : rule.count ≠ none ∨ w.first ≤ anchor ∨ 400 ≤ c.maxEmptyYears) :
    (Search.start rule anchor c).Misses (skipped rule anchor c w) x ↔
      (Search.start rule anchor c).Misses 0 x := by
  obtain hcount | hfirst | hyears := h
  · have hzero : skipped rule anchor c w = 0 := if_neg fun hskips ↦ hcount hskips.1
    rw [hzero]
  · have hzero : skipped rule anchor c w = 0 :=
      if_neg fun hskips ↦ DateTime.le_iff_not_lt.1 hfirst hskips.2
    rw [hzero]
  · have hs := Search.fromAnchor_start rule anchor c none none
    exact iff_of_false (Search.not_misses hs hyears _ x) (Search.not_misses hs hyears _ x)

theorem pairwise_toList_within : (Source.toList (within rule anchor c w)).Pairwise (· < ·) := by
  by_cases hw : w.last < w.first
  · rw [toList_within_of_lt rule hw]
    exact .nil
  · let s : Search DateTime := { Search.start rule anchor c with window := some w }
    rw [toList_within_eq_rest rule hw]
    exact Search.pairwise_sieve (s := s) (.before _) (s.supply _)

end Occurrences

namespace Series

theorem contains_iff_mem_toList (s : Series DateTime) (x : DateTime) :
    s.contains x = true ↔ x ∈ Source.toList s.occurrences := by
  rw [contains_iff_exists_position]
  refine ⟨fun ⟨y, hy, hsame⟩ ↦ ?_, fun hx ↦ ⟨x, hx, rfl⟩⟩
  rwa [← DateTime.position_inj.1 hsame]

/-- In floating time both views show occurrences that a patient search finds, less those that the
search misses, all from the anchor on and a window from the period where it begins. So what a window
shows is an occurrence exactly if it is not missed from the anchor on. Where the search in a window
begins with the anchor, or is patient, the window shows the occurrences in it. -/
theorem toList_between_floating (s : Series DateTime) (first last : DateTime) :
    let search := Search.start s.rule s.anchor s.config
    let skipped := Occurrences.skipped s.rule s.anchor s.config ⟨first, last⟩
    let patient := Source.toList ({ s with config := {} } : Series DateTime).occurrences
    let whole := Source.toList s.occurrences
    let inWindow := Source.toList (s.between first last)
    (∀ x, x ∈ whole ↔ x ∈ patient ∧ ¬ search.Misses 0 x) ∧
      (∀ x, x ∈ inWindow ↔ x ∈ patient ∧ (first ≤ x ∧ x ≤ last) ∧ ¬ search.Misses skipped x) ∧
      (∀ x ∈ whole, first ≤ x → x ≤ last → x ∈ inWindow) ∧
      (∀ x ∈ inWindow, (s.contains x = true ↔ x ∈ whole) ∧ (x ∈ whole ↔ ¬ search.Misses 0 x)) ∧
      (s.rule.count ≠ none ∨ first ≤ s.anchor ∨ 400 ≤ s.config.maxEmptyYears →
        inWindow = whole.filter fun x ↦ first ≤ x ∧ x ≤ last) := by
  intro search skipped patient whole inWindow
  have hwhole (x : DateTime) : x ∈ whole ↔ x ∈ patient ∧ ¬ search.Misses 0 x :=
    Occurrences.mem_toList_ofRule_iff s.rule s.anchor s.config
  have hinWindow (x : DateTime) :
      x ∈ inWindow ↔ x ∈ patient ∧ (first ≤ x ∧ x ≤ last) ∧ ¬ search.Misses skipped x := by
    rw [← and_assoc]
    refine (Occurrences.mem_toList_within_iff s.rule s.anchor s.config _).trans ?_
    exact and_congr_left' (Occurrences.mem_toList_within_default_iff s.rule s.anchor _)
  refine ⟨hwhole, hinWindow, fun x hx hfirst hlast ↦ ?_, fun x hx ↦ ⟨?_, ?_⟩, fun h ↦ ?_⟩
  · obtain ⟨hpatient, hnot⟩ := (hwhole x).1 hx
    refine (hinWindow x).2 ⟨hpatient, ⟨hfirst, hlast⟩, ?_⟩
    rintro ⟨i, k, j, -, hmissed⟩
    exact hnot ⟨i, k, j, Nat.zero_le i, hmissed⟩
  · exact s.contains_iff_mem_toList x
  · exact (hwhole x).trans (and_iff_right ((hinWindow x).1 hx).1)
  · have hmisses (x : DateTime) : search.Misses skipped x ↔ search.Misses 0 x :=
      Occurrences.misses_skipped_iff s.rule s.anchor s.config _ h
    refine List.Pairwise.eq_of_mem_iff (r := (· < ·))
      (Occurrences.pairwise_toList_within s.rule s.anchor s.config _)
      ((Occurrences.pairwise_toList_ofRule s.rule s.anchor s.config none).filter _) fun x ↦ ?_
    refine (hinWindow x).trans ?_
    rw [List.mem_filter, decide_eq_true_eq]
    refine .trans ?_ (and_congr_left' (hwhole x).symm)
    rw [hmisses x]
    exact (and_congr_right' and_comm).trans and_assoc.symm

theorem toList_between_floating_leapDays :
    let anchor : DateTime := ⟨⟨737790, by decide, by decide⟩, .midnight⟩
    let leapDay : DateTime := ⟨⟨738944, by decide, by decide⟩, .midnight⟩
    let s : Series DateTime := ⟨Occurrences.leapDays, anchor, ⟨4, by decide⟩⟩
    leapDay ∈ Source.toList s.occurrences ∧ leapDay ∈ Source.toList (s.between leapDay leapDay) ∧
      s.contains leapDay = true ∧ anchor ≤ s.anchor ∧
      Source.toList (s.between anchor leapDay) =
        (Source.toList s.occurrences).filter fun x ↦ anchor ≤ x ∧ x ≤ leapDay := by
  intro anchor leapDay s
  have hnext : (Source.next s.occurrences).1 = some leapDay := by decide +kernel
  have hmem := Source.mem_toList_of_next hnext
  have hanchor : anchor ≤ s.anchor := Int.le_refl _
  obtain ⟨-, -, hshown, hcontains, -⟩ := s.toList_between_floating leapDay leapDay
  have hwindow := hshown leapDay hmem (Int.le_refl _) (Int.le_refl _)
  obtain ⟨-, -, -, -, hequal⟩ := s.toList_between_floating anchor leapDay
  exact ⟨hmem, hwindow, (hcontains leapDay hwindow).1.2 hmem, hanchor, hequal (.inr (.inl hanchor))⟩

/-- With a year of patience the search from the anchor on is given up in 2022, the one in a window
begins in 2023 and comes to the leap day. -/
theorem exists_mem_between_not_mem_occurrences :
    let anchor : DateTime := ⟨⟨737790, by decide, by decide⟩, .midnight⟩
    let leapDay : DateTime := ⟨⟨738944, by decide, by decide⟩, .midnight⟩
    let s : Series DateTime := ⟨Occurrences.leapDays, anchor, ⟨1, by decide⟩⟩
    leapDay ∈ Source.toList (s.between leapDay leapDay) ∧
      leapDay ∉ Source.toList s.occurrences ∧ s.contains leapDay = false := by
  intro anchor leapDay s
  have hbetween : (Source.next (s.between leapDay leapDay)).1 = some leapDay := by decide +kernel
  have hnone : (Source.next s.occurrences).1 = none := by decide +kernel
  have hnot : leapDay ∉ Source.toList s.occurrences := by
    rw [Source.toList_eq_nil_iff.2 hnone]
    exact List.not_mem_nil
  refine ⟨Source.mem_toList_of_next hbetween, hnot, ?_⟩
  exact Bool.eq_false_iff.2 (mt (s.contains_iff_mem_toList leapDay).1 hnot)

end Series

end Recurrence
