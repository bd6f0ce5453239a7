import Recurrence.Proofs.Expansion.Membership
import Recurrence.Proofs.Expansion.Meaning
import Recurrence.Proofs.Expansion.Truncation
import Recurrence.Proofs.Zone.Fold

namespace Recurrence

namespace RuleData

variable {r : RuleData} {a d : Date}

def IsPlain (r : RuleData) : Prop :=
  r.byMonth = [] ∧ r.byWeekNo = [] ∧ r.byMonthDay = [] ∧ r.byDay = [] ∧ r.bySetPos = []

instance : Decidable r.IsPlain := inferInstanceAs (Decidable (_ ∧ _))

theorem keeps_iff_isLikeAnchor (h : r.IsPlain) : r.Keeps a d ↔ r.IsLikeAnchor a d := by
  obtain ⟨hmonth, hweekNo, hmonthDay, hday, -⟩ := h
  have hnone : r.NamesNoDays := ⟨fun hw ↦ hw.2 hweekNo, hmonthDay, hday⟩
  constructor
  · rintro ⟨-, -, -, -, hlike⟩
    exact hlike hnone
  · intro hlike
    exact ⟨absurd hmonth, fun _ ↦ absurd hweekNo, absurd hmonthDay, absurd hday, fun _ ↦ hlike⟩

theorem isLikeAnchor_iff_eq (h : r.byMonth = []) (hunit : r.freq.unitOf d = r.freq.unitOf a) :
    r.IsLikeAnchor a d ↔ d = a := by
  refine ⟨fun hlike ↦ ?_, ?_⟩
  · unfold IsLikeAnchor at hlike
    cases hfreq : r.freq with
    | daily =>
      simp only [hfreq, Frequency.unitOf] at hunit
      exact Date.number_inj.1 hunit
    | weekly =>
      simp only [hfreq, Frequency.unitOf] at hunit hlike
      have hd := Date.weekday_eq_iff.1 hlike
      have ha := (Date.weekday_eq_iff (d := a)).1 rfl
      exact Date.number_inj.1 (by omega)
    | monthly =>
      simp only [hfreq, Frequency.unitOf] at hunit hlike
      have hd₁ := d.month_pos
      have hd₂ := d.month_le
      have ha₁ := a.month_pos
      have ha₂ := a.month_le
      exact Date.eq_of_civil (by omega) (by omega) hlike
    | yearly =>
      simp only [hfreq, Frequency.unitOf] at hunit hlike
      exact Date.eq_of_civil hunit (hlike.2 h) hlike.1
  · rintro rfl
    unfold IsLikeAnchor
    split <;> simp

end RuleData

namespace Search

variable {τ : Type} [LT τ] [DecidableLT τ] [Instant τ] {rule : Rule} {anchor : τ} {config : Config}

omit [LT τ] [DecidableLT τ] in
theorem candidates_zero_of_isPlain (h : rule.IsPlain) :
    (start rule anchor config).candidates 0 = [Instant.wallClock anchor] := by
  let a := (Instant.wallClock anchor).date
  have hunit : (start rule anchor config).periods.unit 0 = rule.freq.unitOf a := by
    simp [Periods.unit, start, a]
  have hpick : (Pattern.ofRule rule.toRuleData a).pick (rule.freq.days (rule.freq.unitOf a)) =
      [a] := by
    rw [Pattern.pick_eq, RuleData.bySetPos_ofRule, if_pos h.2.2.2.2]
    refine List.Pairwise.eq_of_mem_iff ((rule.freq.pairwise_days _).filter _)
      (List.pairwise_singleton _ _) fun d ↦ ?_
    rw [Pattern.passed, List.mem_filter, Frequency.mem_days_iff, decide_eq_true_eq,
      RuleData.passes_iff_keeps, RuleData.keeps_iff_isLikeAnchor h, List.mem_singleton]
    constructor
    · rintro ⟨hd, hlike⟩
      exact (RuleData.isLikeAnchor_iff_eq h.1 hd).1 hlike
    · rintro rfl
      exact ⟨rfl, (RuleData.isLikeAnchor_iff_eq h.1 rfl).2 rfl⟩
  rw [candidates, hunit]
  exact congrArg (List.map _) hpick

variable (ha : KeepsOrder anchor)
  (hback : Instant.atWallClock? anchor (Instant.wallClock anchor) = some anchor)
  (hadmits : rule.admits anchor = true)

include ha hback hadmits

/-- A day up to the anchor's does not start too late, for the anchor itself is not too late. -/
theorem startsTooLate_eq_false {day : Date}
    (hday : day.number ≤ (Instant.wallClock anchor).date.number) :
    (start rule anchor config).startsTooLate day = false := by
  refine (Option.any_eq_false _ _).2 fun x hx ↦ ?_
  have hpast : (start rule anchor config).isPastWindow x = false := rfl
  have hx : rule.admits x = true := Rule.admits_iff.2 fun bound hbound ↦ by
    by_contra hexceeds
    have hanchor :=
      ha.exceeds bound (.inl rfl) hday hx hback (Bool.eq_true_of_not_eq_false hexceeds)
    rw [Rule.admits_iff.1 hadmits bound hbound] at hanchor
    cases hanchor
  rw [hpast, Bool.or_false, exceedsBound_eq_not_admits, Bool.not_eq_false']
  exact hx

theorem refill_zero_of_isPlain (h : rule.IsPlain) :
    (start rule anchor config).refill (Date.count + 1 - 0) 0 none = some (1, [anchor]) := by
  let s := start rule anchor config
  have hbase : s.periods.base = s.periods.freq.unitOf (Instant.wallClock anchor).date := rfl
  have hunit : s.periods.unit 0 = rule.freq.unitOf (Instant.wallClock anchor).date := by
    simp [Periods.unit, s, start]
  have hle := rule.freq.firstNumber_unitOf_le (Instant.wallClock anchor).date
  have hstart : (s.periods.start? 0).isSome := by
    refine (Periods.start?_isSome_iff hbase).2 ⟨by simp, ?_⟩
    rw [hunit]
    exact hle.trans (Instant.wallClock anchor).date.le_last
  obtain ⟨day, hday⟩ := Option.isSome_iff_exists.1 hstart
  have hnumber := Periods.number_of_start? hday
  rw [hunit] at hnumber
  have hlate : s.startsTooLate day = false := startsTooLate_eq_false ha hback hadmits (by
    rw [hnumber]
    exact hle)
  have hcandidates : s.candidates 0 = [Instant.wallClock anchor] := candidates_zero_of_isPlain h
  have hanchor : s.anchor = anchor := rfl
  change s.refill (Date.count + 1) 0 none = _
  simp [refill, hday, hlate, hcandidates, hanchor, hback]

end Search

namespace Occurrences

variable {τ : Type} [LT τ] [DecidableLT τ] [Instant τ] {rule : Rule} {anchor : τ}

theorem toList_ofRule_of_isPlain [Timeline τ] (h : rule.IsPlain) (hcount : ∀ n ∈ rule.count, 1 ≤ n)
    (ha : KeepsOrder anchor)
    (hback : Instant.atWallClock? anchor (Instant.wallClock anchor) = some anchor)
    (hadmits : rule.admits anchor = true) (config : Config) :
    ∃ rest, Source.toList (ofRule rule anchor config none) = anchor :: rest := by
  let s := Search.start rule anchor config
  let c : Cursor τ := .before 0
  have hsupply : s.supply 0 = anchor :: s.supply 1 :=
    Search.supply_eq_append s (Search.refill_zero_of_isPlain ha hback hadmits h)
  have hlist : Source.toList (ofRule rule anchor config none) = s.sieve c (s.supply 0) :=
    toList_eq_rest s c (Nat.zero_le _)
  have hlimit : ¬ s.hasReachedLimit c = true := Bool.false_ne_true
  have hreached : ¬ s.hasReachedCount c = true := by
    intro hany
    obtain ⟨n, hn, hzero⟩ := (Option.any_eq_true _ _).1 hany
    have hzero : n ≤ 0 := of_decide_eq_true hzero
    have hpos := hcount n hn
    omega
  have hpassed : ¬ s.isPassed c anchor = true := by
    have hirrefl : ¬ anchor < anchor := Std.Irrefl.irrefl anchor
    simpa [Search.isPassed, s, c, Search.start, Cursor.before] using hirrefl
  have hbound : ¬ s.exceedsBound anchor = true := by
    rw [Search.exceedsBound_eq_not_admits, Bool.not_eq_true', Bool.not_eq_false]
    exact hadmits
  have hpast : ¬ s.isPastWindow anchor = true := Bool.false_ne_true
  have hbefore : ¬ s.isBeforeWindow anchor = true := Bool.false_ne_true
  rw [hlist, hsupply, Search.sieve_cons hreached hpassed hbound hlimit hpast hbefore []]
  exact ⟨_, rfl⟩

theorem exists_reading_of_mem {config : Config} {x : τ}
    (hx : x ∈ Source.toList (ofRule rule anchor config none)) :
    ∃ r, Instant.atWallClock? anchor r = some x := by
  let s := Search.start rule anchor config
  have hlist : Source.toList (ofRule rule anchor config none) = s.sieve (.before 0) (s.supply 0) :=
    toList_eq_rest s (.before 0) (Nat.zero_le _)
  rw [hlist] at hx
  have hx := (rising_sublist _ _).subset ((Search.sieve_sublist_rising _ _).subset hx)
  have hx := (s.supply_sublist_stream 0).subset (List.mem_of_mem_filter hx)
  obtain ⟨r, -, hr⟩ := Search.mem_stream.1 hx
  exact ⟨r, hr⟩

theorem next_eq_some_iff {o : Occurrences τ} {x : τ} :
    (Source.next o).1 = some x ↔ ∃ rest, Source.toList o = x :: rest := by
  rcases hnext : Source.next o with ⟨_ | y, o'⟩
  · simp [Source.toList_eq_nil hnext]
  · simp [Source.toList_eq_cons hnext, eq_comm]

theorem occursAt_anchor_iff [Timeline τ] : rule.occursAt anchor anchor = true ↔
    ∃ y ∈ Source.toList (ofRule rule anchor {} none),
      Timeline.position y = Timeline.position anchor := by
  rw [Series.occursAt_eq_contains, Series.contains_iff_exists_position]
  rfl

section Zoned

variable {rule : Rule} (h : rule.IsPlain) (hcount : ∀ n ∈ rule.count, 1 ≤ n) {anchor : Zoned}
  (hnamed : anchor.zone.IsNamed) (hadmits : rule.admits anchor = true)

include hnamed

theorem not_isRepeated_of_mem {config : Config}
    (hx : anchor ∈ Source.toList (ofRule rule anchor config none)) : ¬ anchor.IsRepeated := by
  obtain ⟨r, hr⟩ := exists_reading_of_mem hx
  exact Zoned.not_isRepeated_of_ofWallClock? hnamed.placesFirst hr

include h hcount hadmits

theorem toList_ofRule_zoned (hnot : ¬ anchor.IsRepeated) (config : Config) :
    ∃ rest, Source.toList (ofRule rule anchor config none) = anchor :: rest :=
  toList_ofRule_of_isPlain h hcount (keepsOrder_zoned hnamed.keepsDays)
    ((Zoned.ofWallClock?_wallClock_iff hnamed.placesFirst).2 hnot) hadmits config

theorem next_eq_anchor_iff (config : Config) :
    (Source.next (ofRule rule anchor config none)).1 = some anchor ↔ ¬ anchor.IsRepeated := by
  rw [next_eq_some_iff]
  constructor
  · rintro ⟨rest, hlist⟩
    exact not_isRepeated_of_mem hnamed (hlist ▸ List.mem_cons_self)
  · intro hnot
    exact toList_ofRule_zoned h hcount hnamed hadmits hnot config

theorem occursAt_anchor_iff_not_isRepeated :
    rule.occursAt anchor anchor = true ↔ ¬ anchor.IsRepeated := by
  rw [occursAt_anchor_iff]
  constructor
  · rintro ⟨y, hy, hsame⟩
    obtain ⟨r, hr⟩ := exists_reading_of_mem hy
    have hzone := (Zoned.ofWallClock?_eq_some_iff.1 hr).1
    have heq : y = anchor := Zoned.eq_of_position hzone hsame
    exact not_isRepeated_of_mem hnamed (heq ▸ hy)
  · intro hnot
    obtain ⟨rest, hlist⟩ := toList_ofRule_zoned h hcount hnamed hadmits hnot {}
    exact ⟨anchor, hlist ▸ List.mem_cons_self, rfl⟩

end Zoned

/-- A rule without BY parameters starts at its anchor, in floating time and at every instant of a
zone of the table but those at which its clocks show a reading again. The instant of a reading is
not such a one. -/
theorem starts_at_anchor (rule : Rule) (h : rule.IsPlain) (hcount : ∀ n ∈ rule.count, 1 ≤ n)
    (config : Config) :
    (∀ anchor : DateTime, rule.admits anchor = true →
      (Source.next (ofRule rule anchor config none)).1 = some anchor ∧
        rule.occursAt anchor anchor = true) ∧
    (∀ anchor : Zoned, anchor.zone.IsNamed → rule.admits anchor = true →
      ((Source.next (ofRule rule anchor config none)).1 = some anchor ↔ ¬ anchor.IsRepeated) ∧
        (rule.occursAt anchor anchor = true ↔ ¬ anchor.IsRepeated)) ∧
    ∀ (zone : Zone) (wall : DateTime) (anchor : Zoned), zone.IsNamed →
      Zoned.ofWallClock? zone wall = some anchor → ¬ anchor.IsRepeated := by
  refine ⟨fun anchor hadmits ↦ ?_, fun anchor hnamed hadmits ↦ ?_,
    fun zone wall anchor hnamed hwall ↦ ?_⟩
  · have hlist := toList_ofRule_of_isPlain h hcount (keepsOrder_floating anchor) rfl hadmits
    obtain ⟨rest, hdefault⟩ := hlist {}
    exact ⟨next_eq_some_iff.2 (hlist config),
      occursAt_anchor_iff.2 ⟨anchor, hdefault ▸ List.mem_cons_self, rfl⟩⟩
  · exact ⟨next_eq_anchor_iff h hcount hnamed hadmits config,
      occursAt_anchor_iff_not_isRepeated h hcount hnamed hadmits⟩
  · obtain ⟨rfl, -⟩ := Zoned.ofWallClock?_eq_some_iff.1 hwall
    exact Zoned.not_isRepeated_of_ofWallClock? hnamed.placesFirst hwall

def everySecondNight : Rule where
  freq := .daily
  interval := 2
  count := some 3

/-- 01:30 on 2025-11-02 in New York, where the clocks go back half an hour later. -/
def firstTurn : Zoned := ⟨⟨63897658200000000000, by decide, by decide⟩, Zone.newYork⟩

def secondTurn : Zoned := ⟨⟨63897661800000000000, by decide, by decide⟩, Zone.newYork⟩

theorem starts_at_anchor_firstTurn :
    everySecondNight.IsPlain ∧ (∀ n ∈ everySecondNight.count, 1 ≤ n) ∧
      Zone.newYork.IsNamed ∧ Zoned.ofWallClock? Zone.newYork firstTurn.wallClock = some firstTurn ∧
      (Source.next (ofRule everySecondNight firstTurn {} none)).1 = some firstTurn ∧
      everySecondNight.occursAt firstTurn firstTurn = true := by
  have hplain : everySecondNight.IsPlain := by decide
  have hcount : ∀ n ∈ everySecondNight.count, 1 ≤ n := by decide
  have hnamed : Zone.newYork.IsNamed := by decide
  have hwall : Zoned.ofWallClock? Zone.newYork firstTurn.wallClock = some firstTurn := by decide
  obtain ⟨-, hzoned, hreading⟩ := starts_at_anchor everySecondNight hplain hcount {}
  have hnot := hreading Zone.newYork firstTurn.wallClock firstTurn hnamed hwall
  have hfirst := hzoned firstTurn hnamed rfl
  exact ⟨hplain, hcount, hnamed, hwall, hfirst.1.2 hnot, hfirst.2.2 hnot⟩

/-- From the second turn of a reading on a rule does not start there. -/
theorem not_starts_at_secondTurn :
    everySecondNight.IsPlain ∧ (∀ n ∈ everySecondNight.count, 1 ≤ n) ∧
      secondTurn.zone.IsNamed ∧ everySecondNight.admits secondTurn = true ∧
      (Source.next (ofRule everySecondNight secondTurn {} none)).1 ≠ some secondTurn ∧
      everySecondNight.occursAt secondTurn secondTurn = false := by
  have hplain : everySecondNight.IsPlain := by decide
  have hcount : ∀ n ∈ everySecondNight.count, 1 ≤ n := by decide
  have hnamed : secondTurn.zone.IsNamed := by decide
  have hrepeated : secondTurn.IsRepeated := ⟨firstTurn, by decide, by decide, by decide⟩
  refine ⟨hplain, hcount, hnamed, rfl, fun hnext ↦ ?_, Bool.eq_false_iff.2 fun hoccurs ↦ ?_⟩
  · exact (next_eq_anchor_iff hplain hcount hnamed rfl {}).1 hnext hrepeated
  · exact (occursAt_anchor_iff_not_isRepeated hplain hcount hnamed rfl).1 hoccurs hrepeated

end Occurrences

end Recurrence
