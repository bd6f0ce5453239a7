import Recurrence.Proofs.Expansion.Window
import Recurrence.Proofs.Zone.Zoned

/-!
A window whose bounds are given in another zone than the anchor. Clocks are up to 26 hours apart, so
that a window can begin on a date two days after that of an occurrence in it. One period of slack
does not make up for two days where a rule repeats day by day, and these occurrences are lost.
-/

namespace Recurrence

namespace Frequency

variable {f : Frequency}

theorem firstNumber_add_seven_le (hf : f ≠ .daily) (u : Int) :
    f.firstNumber u + 7 ≤ f.firstNumber (u + 1) := by
  cases f with
  | daily => exact absurd rfl hf
  | weekly =>
    simp only [firstNumber]
    omega
  | monthly =>
    have hlength := Year.monthLength_bounds (u / 12) (m := (u % 12).toNat + 1) (Nat.le_add_left 1 _)
    rw [firstNumber_monthly_succ]
    omega
  | yearly =>
    simp only [firstNumber, Year.firstNumber_succ, Year.length]
    omega

theorem eq_daily_of_units {d e : Date} {interval : Nat} (hpos : 1 ≤ interval)
    (hunits : f.unitOf d + 2 * interval ≤ f.unitOf e) (hdays : e.number ≤ d.number + 2) :
    f = .daily ∧ interval = 1 ∧ e.number = d.number + 2 := by
  by_cases hf : f = .daily
  · subst hf
    change d.number + 2 * interval ≤ e.number at hunits
    refine ⟨rfl, ?_, ?_⟩ <;> omega
  · have hlt := f.lt_firstNumber_unitOf_succ d
    have hseven := firstNumber_add_seven_le hf (f.unitOf d + 1)
    have hmono := f.firstNumber_le_iff.2
      (show f.unitOf d + 1 + 1 ≤ f.unitOf e by omega)
    have hle := f.firstNumber_unitOf_le e
    omega

end Frequency

namespace Zoned

/-- An instant not before another has at least the date two days before, and its clock skips nothing
if it has no later one. -/
theorem date_le_add_two {z : Zone} {r : DateTime} {x first : Zoned} (hz : z.KeepsDays)
    (hfirst : first.zone.KeepsDays) (hx : ofWallClock? z r = some x) (hle : ¬ x < first) :
    first.wallClock.date.number ≤ r.date.number + 2 ∧
      (first.wallClock.date.number = r.date.number + 2 →
        x.wallClock.date.number = r.date.number) := by
  rw [Timeline.lt_iff, Int.not_lt] at hle
  have hposition : first.timestamp.position ≤ x.timestamp.position := hle
  have hwall : first.wallClock.position = first.timestamp.position +
      (first.zone.offsetAt first.timestamp.position).minutes * 60000000000 :=
    first.position_wallClock
  have heast := hfirst.east first.timestamp.position
  have hwest := hz.west r.position
  have hplace : x.timestamp.position =
      r.position - (z.offsetOn r.position).minutes * 60000000000 :=
    (ofWallClock?_eq_some_iff.1 hx).2
  have hfirstDate := first.wallClock.date_number_eq
  have hdate := r.date_number_eq
  refine ⟨by omega, fun htwo ↦ ?_⟩
  have hsettle := hz.settle_eq r.position (by omega)
  rw [DateTime.date_number_eq, position_wallClock_of_eq_some hx, hsettle, ← hdate]

theorem date_le_wallClock {z : Zone} {r : DateTime} {x : Zoned} (hz : z.KeepsDays)
    (hx : ofWallClock? z r = some x) : r.date.number ≤ x.wallClock.date.number := by
  have hle := hz.le_settle r.position
  rw [← position_wallClock_of_eq_some hx] at hle
  rw [DateTime.date_number_eq, DateTime.date_number_eq]
  omega

end Zoned

namespace Occurrences

variable (rule : Rule) (anchor first last : Zoned)

/-- An occurrence that a window from `first` on loses: the rule repeats every day without a count,
and the window begins two dates after the occurrence or later. -/
def IsLost (x : Zoned) : Prop :=
  (rule.freq = .daily ∧ rule.interval = 1 ∧ rule.count = none) ∧ anchor < first ∧
    x.wallClock.date.number + 2 ≤ first.wallClock.date.number

instance : DecidablePred (IsLost rule anchor first) :=
  fun _ ↦ inferInstanceAs (Decidable ((_ ∧ _ ∧ _) ∧ _ ∧ _))

section Clocks

variable {rule anchor first} (ha : anchor.zone.KeepsDays) (hfirst : first.zone.KeepsDays)

include ha hfirst

theorem lt_skipped_iff_isLost {j : Nat} {r : DateTime} {x : Zoned}
    (hr : r ∈ (Search.start rule anchor {}).candidates j)
    (hx : Zoned.ofWallClock? anchor.zone r = some x) (hle : ¬ x < first) :
    j < skipped rule anchor {} ⟨first, last⟩ ↔ IsLost rule anchor first x := by
  obtain ⟨hdays, hsame⟩ := Zoned.date_le_add_two ha hfirst hx hle
  have hwall := Zoned.date_le_wallClock ha hx
  have hunit := (Search.mem_candidates hr).2
  unfold skipped
  constructor
  · intro hj
    split at hj
    · rename_i hskip
      have hunits := Periods.unit_add_le_of_lt_indexBefore hj
      rw [← hunit] at hunits
      obtain ⟨hfreq, hinterval, htwo⟩ : rule.freq = .daily ∧ rule.interval = 1 ∧
          first.wallClock.date.number = r.date.number + 2 :=
        Frequency.eq_daily_of_units rule.interval_pos hunits hdays
      exact ⟨⟨hfreq, hinterval, hskip.1⟩, hskip.2, by rw [hsame htwo, htwo]⟩
    · exact absurd hj (Nat.not_lt_zero j)
  · rintro ⟨⟨hfreq, hinterval, hcount⟩, hlt, htwo⟩
    rw [if_pos ⟨hcount, hlt⟩]
    change rule.freq.unitOf r.date =
      rule.freq.unitOf anchor.wallClock.date + (j * rule.interval : Nat) at hunit
    change j < (rule.freq.unitOf first.wallClock.date -
      rule.freq.unitOf anchor.wallClock.date).toNat / rule.interval - 1
    rw [hfreq, hinterval, Nat.mul_one] at hunit
    rw [hfreq, hinterval, Nat.div_one]
    simp only [Frequency.unitOf] at hunit ⊢
    omega

theorem not_isLost_iff_mem_stream {x : Zoned}
    (hx : x ∈ (Search.start rule anchor {}).stream 0) (hle : ¬ x < first) :
    ¬ IsLost rule anchor first x ↔
      x ∈ (Search.start rule anchor {}).stream (skipped rule anchor {} ⟨first, last⟩) := by
  constructor
  · intro hkept
    obtain ⟨r, hr, hrx⟩ := Search.mem_stream.1 hx
    obtain ⟨j, -, hstart, hj⟩ := Search.mem_readings.1 hr
    refine Search.mem_stream.2 ⟨r, Search.mem_readings.2 ⟨j, ?_, hstart, hj⟩, hrx⟩
    by_contra hlt
    exact hkept ((lt_skipped_iff_isLost last ha hfirst hj hrx hle).1 (Nat.lt_of_not_le hlt))
  · intro hmem hlost
    obtain ⟨r, hr, hrx⟩ := Search.mem_stream.1 hmem
    obtain ⟨j, hge, -, hj⟩ := Search.mem_readings.1 hr
    have hlt := (lt_skipped_iff_isLost last ha hfirst hj hrx hle).2 hlost
    exact Nat.not_lt_of_ge hge hlt

variable (rule) in
theorem toList_within_eq_filter_isLost :
    Source.toList (within rule anchor {} ⟨first, last⟩) =
      (Source.toList (ofRule rule anchor {} none)).filter
        fun x ↦ (first ≤ x ∧ x ≤ last) ∧ ¬ IsLost rule anchor first x := by
  refine (toList_within_eq_filter rule (keepsOrder_zoned ha) Config.le_default
    (fun x ↦ ¬ IsLost rule anchor first x) fun x hx hle _ ↦ ?_).trans ?_
  · rw [decide_eq_true_iff]
    exact not_isLost_iff_mem_stream last ha hfirst hx hle
  · refine List.filter_congr fun x _ ↦ ?_
    simp only [Zoned.le_iff_not_lt, decide_eq_true_eq, and_assoc]

end Clocks

/-- A window whose bounds may be in another zone gives exactly the occurrences in it that it does
not lose, and so it gives all that lie in it just where it loses none. -/
theorem toList_within_zoned (ha : anchor.zone.IsNamed) (hfirst : first.zone.IsNamed) :
    Source.toList (within rule anchor {} ⟨first, last⟩) =
      (Source.toList (ofRule rule anchor {} none)).filter
        (fun x ↦ (first ≤ x ∧ x ≤ last) ∧ ¬ IsLost rule anchor first x) ∧
    (Source.toList (within rule anchor {} ⟨first, last⟩) =
        (Source.toList (ofRule rule anchor {} none)).filter (fun x ↦ first ≤ x ∧ x ≤ last) ↔
      ∀ x ∈ Source.toList (ofRule rule anchor {} none),
        first ≤ x → x ≤ last → ¬ IsLost rule anchor first x) := by
  have hkept := toList_within_eq_filter_isLost rule last ha.keepsDays hfirst.keepsDays
  refine ⟨hkept, fun hall x hx hle hle' hlost ↦ ?_, fun hnone ↦ ?_⟩
  · have hmem : x ∈ Source.toList (within rule anchor {} ⟨first, last⟩) := by
      rw [hall]
      exact List.mem_filter.2 ⟨hx, decide_eq_true ⟨hle, hle'⟩⟩
    rw [hkept] at hmem
    exact (of_decide_eq_true (List.mem_filter.1 hmem).2).2 hlost
  · rw [hkept]
    refine List.filter_congr fun x hx ↦ decide_eq_decide.2 ⟨And.left, fun h ↦ ⟨h, ?_⟩⟩
    exact hnone x hx h.1 h.2

def everyDay : Rule where
  freq := .daily

/-- 23:30 on 2020-01-01 in the zone farthest to the west. -/
def firstEvening : Timestamp := ⟨63713561400000000000, by decide, by decide⟩

/-- 23:30 on 2020-01-08 there. -/
def eighthEvening : Timestamp := ⟨63714166200000000000, by decide, by decide⟩

/-- Half an hour before, which is 01:00 on 2020-01-10 in the zone farthest to the east. -/
def earlyMorning : Timestamp := ⟨63714164400000000000, by decide, by decide⟩

/-- 00:00 on 2020-01-12 there. -/
def nextMidnight : Timestamp := ⟨63714333600000000000, by decide, by decide⟩

theorem eighthEvening_mem_ofRule :
    let west : Zone := .fixed (Zone.east (-720))
    let anchor : Zoned := ⟨firstEvening, west⟩
    let x : Zoned := ⟨eighthEvening, west⟩
    x ∈ Source.toList (ofRule everyDay anchor {} none) := by
  intro west anchor x
  have hnamed : west.IsNamed := by decide
  have hs := Search.fromAnchor_start everyDay anchor {} none none
  have ha : KeepsOrder anchor := keepsOrder_zoned hnamed.keepsDays
  have heighth : (⟨⟨737431, by decide, by decide⟩, ⟨84600000000000, by decide⟩⟩ : DateTime) ∈
      (Search.start everyDay anchor {}).readings 0 :=
    Search.mem_readings.2 ⟨7, Nat.zero_le 7, by decide, by decide⟩
  rw [toList_ofRule everyDay ha Config.le_default]
  exact (Search.mem_ascent hs ha).2
    ⟨Search.mem_stream.2 ⟨_, heighth, by decide⟩, by decide, by decide⟩

theorem toList_within_evenings_ne_filter :
    let west : Zone := .fixed (Zone.east (-720))
    let east : Zone := .fixed (Zone.east 840)
    let anchor : Zoned := ⟨firstEvening, west⟩
    let first : Zoned := ⟨earlyMorning, east⟩
    let last : Zoned := ⟨nextMidnight, east⟩
    west.IsNamed ∧ east.IsNamed ∧
      Source.toList (within everyDay anchor {} ⟨first, last⟩) ≠
        (Source.toList (ofRule everyDay anchor {} none)).filter fun x ↦ first ≤ x ∧ x ≤ last := by
  intro west east anchor first last
  have hwest : west.IsNamed := by decide
  have heast : east.IsNamed := by decide
  have hlies : first ≤ ⟨eighthEvening, west⟩ ∧ ⟨eighthEvening, west⟩ ≤ last := by decide
  have hlost : IsLost everyDay anchor first ⟨eighthEvening, west⟩ := by decide
  refine ⟨hwest, heast, fun hall ↦ ?_⟩
  have hmem : ⟨eighthEvening, west⟩ ∈
      Source.toList (within everyDay anchor {} ⟨first, last⟩) := by
    rw [hall]
    exact List.mem_filter.2 ⟨eighthEvening_mem_ofRule, decide_eq_true hlies⟩
  rw [toList_within_eq_filter_isLost everyDay last hwest.keepsDays heast.keepsDays] at hmem
  exact (of_decide_eq_true (List.mem_filter.1 hmem).2).2 hlost

theorem toList_within_zoned_evenings :
    let west : Zone := .fixed (Zone.east (-720))
    let east : Zone := .fixed (Zone.east 840)
    let anchor : Zoned := ⟨firstEvening, west⟩
    let first : Zoned := ⟨earlyMorning, east⟩
    let last : Zoned := ⟨nextMidnight, east⟩
    west.IsNamed ∧ east.IsNamed ∧
      Source.toList (within everyDay anchor {} ⟨first, last⟩) =
        (Source.toList (ofRule everyDay anchor {} none)).filter
          fun x ↦ (first ≤ x ∧ x ≤ last) ∧ ¬ IsLost everyDay anchor first x := by
  intro west east anchor first last
  have hwest : west.IsNamed := by decide
  have heast : east.IsNamed := by decide
  exact ⟨hwest, heast, (toList_within_zoned everyDay anchor first last hwest heast).1⟩

end Occurrences

end Recurrence
