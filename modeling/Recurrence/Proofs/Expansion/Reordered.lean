import Recurrence.Proofs.Expansion.Plan
import Recurrence.Proofs.Expansion.Safety

namespace Recurrence

namespace RuleData

/-- The rules differ in nothing but the order of their BY values. -/
structure IsReordered (r r' : RuleData) : Prop where
  freq : r'.freq = r.freq
  interval : r'.interval = r.interval
  count : r'.count = r.count
  bound : r'.bound = r.bound
  byMonth : r'.byMonth.Perm r.byMonth
  byWeekNo : r'.byWeekNo.Perm r.byWeekNo
  byMonthDay : r'.byMonthDay.Perm r.byMonthDay
  byDay : r'.byDay.Perm r.byDay
  bySetPos : r'.bySetPos.Perm r.bySetPos

end RuleData

theorem eq_nil_iff_of_perm {α : Type} {xs ys : List α} (h : ys.Perm xs) : ys = [] ↔ xs = [] := by
  rw [← List.length_eq_zero_iff, h.length_eq, List.length_eq_zero_iff]

theorem Position.select_of_perm {α : Type} {positions positions' : List Int}
    (h : positions'.Perm positions) (items : List α) :
    select positions' items = select positions items := by
  have hpicked (i : Nat) :
      IsPicked positions' items.length i ↔ IsPicked positions items.length i := by
    simp only [IsPicked, h.mem_iff]
  simp only [select_eq_filter, hpicked]

namespace Pattern

structure IsReordered (p p' : Pattern) : Prop where
  byMonth : p'.byMonth.Perm p.byMonth
  byWeekNo : p'.byWeekNo.Perm p.byWeekNo
  byMonthDay : p'.byMonthDay.Perm p.byMonthDay
  weekdays : p'.weekdays.Perm p.weekdays
  ranked : p'.ranked.Perm p.ranked
  scope : p'.scope = p.scope
  bySetPos : p'.bySetPos.Perm p.bySetPos

section Rules

variable {r r' : RuleData} (h : r.IsReordered r')

include h

theorem isReordered_given : (given r).IsReordered (given r') where
  byMonth := h.byMonth
  byWeekNo := by
    simp only [given, h.freq]
    split
    · exact h.byWeekNo
    · exact .refl []
  byMonthDay := h.byMonthDay
  weekdays := by
    simp only [given, h.freq]
    exact (h.byDay.filter _).map _
  ranked := by
    simp only [given, h.freq]
    split
    · exact h.byDay.filterMap _
    · exact .refl []
  scope := by simp only [given, h.freq, eq_nil_iff_of_perm h.byMonth]
  bySetPos := h.bySetPos

theorem isReordered_ofRule (anchor : Date) : (ofRule r anchor).IsReordered (ofRule r' anchor) := by
  have hgiven := isReordered_given h
  have hmonth := eq_nil_iff_of_perm hgiven.byMonth
  simp only [ofRule, eq_nil_iff_of_perm hgiven.byWeekNo, eq_nil_iff_of_perm hgiven.byMonthDay,
    eq_nil_iff_of_perm h.byDay, h.freq]
  split
  · cases r.freq with
    | daily => exact hgiven
    | weekly => exact { hgiven with weekdays := .refl _ }
    | monthly => exact { hgiven with byMonthDay := .refl _ }
    | yearly =>
      refine { hgiven with byMonth := ?_, byMonthDay := .refl _ }
      simp only [withAnchor, hmonth]
      split
      · exact .refl _
      · exact hgiven.byMonth
  · exact hgiven

end Rules

variable {p p' : Pattern} (h : p.IsReordered p')

include h

theorem passes_iff_of_isReordered (d : Date) : p'.Passes d ↔ p.Passes d := by
  simp only [Passes, PassesMonth, PassesWeekNo, Date.LiesInWeek, PassesMonthDay, PassesWeekday,
    h.scope, eq_nil_iff_of_perm h.byMonth, eq_nil_iff_of_perm h.byWeekNo,
    eq_nil_iff_of_perm h.byMonthDay, eq_nil_iff_of_perm h.weekdays, eq_nil_iff_of_perm h.ranked,
    h.byMonth.mem_iff, h.byWeekNo.mem_iff, h.byMonthDay.mem_iff, h.weekdays.mem_iff,
    h.ranked.mem_iff]

theorem pick_of_isReordered (days : List Date) : p'.pick days = p.pick days := by
  have hpassed : p'.passed days = p.passed days := by
    simp only [passed, passes_iff_of_isReordered h]
  rw [pick_eq, pick_eq, hpassed, Position.select_of_perm h.bySetPos]
  simp only [eq_nil_iff_of_perm h.bySetPos]

end Pattern

namespace Search

variable {τ : Type} [LT τ] [DecidableLT τ] [Instant τ]

/-- Searches with the same plan that ask the same of every instant. -/
structure GoesAlike (s s' : Search τ) : Prop extends s.SamePlan s' where
  anchor : s'.anchor = s.anchor
  isPassed : s'.isPassed = s.isPassed
  exceedsBound : s'.exceedsBound = s.exceedsBound
  isPastWindow : s'.isPastWindow = s.isPastWindow
  isBeforeWindow : s'.isBeforeWindow = s.isBeforeWindow
  hasReachedCount : s'.hasReachedCount = s.hasReachedCount
  hasReachedLimit : s'.hasReachedLimit = s.hasReachedLimit

section GoesAlike

variable {s s' : Search τ} (h : s.GoesAlike s')

include h

theorem startsTooLate_of_goesAlike (day : Date) : s'.startsTooLate day = s.startsTooLate day := by
  simp only [startsTooLate, h.anchor, h.exceedsBound, h.isPastWindow]

theorem refill_of_goesAlike (left n : Nat) (since : Option Date) :
    s'.refill left n since = s.refill left n since := by
  induction left generalizing n since with
  | zero => rfl
  | succ left ih =>
    simp only [refill, h.periods, h.candidates, h.isExhausted, h.anchor,
      startsTooLate_of_goesAlike h, ih]

theorem scan_of_goesAlike (c : Cursor τ) (xs : List τ) : s'.scan c xs = s.scan c xs := by
  induction xs generalizing c with
  | nil => rfl
  | cons x xs ih =>
    simp only [scan, h.hasReachedCount, h.isPassed, h.exceedsBound, h.isPastWindow,
      h.isBeforeWindow, ih]

theorem advance_of_goesAlike (left : Nat) (c : Cursor τ) :
    s'.advance left c = s.advance left c := by
  induction left generalizing c with
  | zero => rfl
  | succ left ih =>
    simp only [advance, scan_of_goesAlike h, h.hasReachedCount, refill_of_goesAlike h, ih]

theorem next_of_goesAlike (c : Cursor τ) : s'.next c = s.next c := by
  simp only [next, h.hasReachedLimit, advance_of_goesAlike h]

end GoesAlike

end Search

namespace Occurrences

variable {τ : Type} [LT τ] [DecidableLT τ] [Instant τ]

/-- Two sources give the same items, and so many calls of each get the same answers. -/
def GiveTheSame (o o' : Occurrences τ) : Prop :=
  Source.toList o' = Source.toList o ∧ ∀ n, (Source.calls n o').1 = (Source.calls n o).1

theorem calls_of_goesAlike {s s' : Search τ} (h : s.GoesAlike s') (n : Nat) (c : Cursor τ) :
    (Source.calls n (⟨s', c⟩ : Occurrences τ)).1 = (Source.calls n (⟨s, c⟩ : Occurrences τ)).1 := by
  induction n generalizing c with
  | zero => rfl
  | succ n ih =>
    rcases hnext : s.next c with ⟨answer, c'⟩
    have hnext' : s'.next c = (answer, c') := (Search.next_of_goesAlike h c).trans hnext
    rw [Source.calls, Source.calls, next_eq hnext, next_eq hnext']
    exact congrArg (answer :: ·) (ih c')

theorem toList_of_goesAlike {s s' : Search τ} (h : s.GoesAlike s') (c : Cursor τ) :
    Source.toList (⟨s', c⟩ : Occurrences τ) = Source.toList (⟨s, c⟩ : Occurrences τ) := by
  rcases hnext : s.next c with ⟨_ | x, c'⟩
  · have hnext' : s'.next c = (none, c') := (Search.next_of_goesAlike h c).trans hnext
    rw [Source.toList_eq_nil (next_eq hnext), Source.toList_eq_nil (next_eq hnext')]
  · have hnext' : s'.next c = (some x, c') := (Search.next_of_goesAlike h c).trans hnext
    rw [Source.toList_eq_cons (next_eq hnext), Source.toList_eq_cons (next_eq hnext'),
      toList_of_goesAlike h c']
termination_by c.remaining
decreasing_by exact s.isAfter_of_next hnext

theorem giveTheSame_of_goesAlike {s s' : Search τ} (h : s.GoesAlike s') (c : Cursor τ) :
    GiveTheSame ⟨s, c⟩ ⟨s', c⟩ :=
  ⟨toList_of_goesAlike h c, fun n ↦ calls_of_goesAlike h n c⟩

section Rules

variable {r r' : Rule} (h : r.IsReordered r'.toRuleData) (anchor : τ) (config : Config)

include h

theorem goesAlike_start (limit : Option Nat) (window : Option (Window τ)) :
    ({ Search.start r anchor config with limit := limit, window := window } : Search τ).GoesAlike
      { Search.start r' anchor config with limit := limit, window := window } where
  periods := by simp only [Search.start, h.freq, h.interval]
  candidates := by
    funext n
    have hpattern := Pattern.isReordered_ofRule h (Instant.wallClock anchor).date
    simp only [Search.candidates, Search.start, Periods.unit, h.freq, h.interval,
      Pattern.pick_of_isReordered hpattern]
  isExhausted := by
    funext since day
    simp only [Search.isExhausted, Search.start, h.interval]
  anchor := rfl
  isPassed := rfl
  exceedsBound := by
    funext x
    simp only [Search.exceedsBound, Search.start, h.bound]
  isPastWindow := rfl
  isBeforeWindow := rfl
  hasReachedCount := by
    funext c
    simp only [Search.hasReachedCount, Search.start, h.count]
  hasReachedLimit := rfl

theorem giveTheSame_ofRule (limit : Option Nat) :
    GiveTheSame (ofRule r anchor config limit) (ofRule r' anchor config limit) :=
  giveTheSame_of_goesAlike (goesAlike_start h anchor config limit none) (.before 0)

theorem skipped_of_isReordered (w : Window τ) :
    skipped r' anchor config w = skipped r anchor config w := by
  simp only [skipped, Search.start, h.freq, h.interval, h.count]

theorem giveTheSame_within (w : Window τ) :
    GiveTheSame (within r anchor config w) (within r' anchor config w) := by
  by_cases hw : w.last < w.first
  · have hstart := goesAlike_start h anchor config none none
    rw [within, within, if_pos hw, if_pos hw]
    exact giveTheSame_of_goesAlike hstart (Cursor.before 0).finish
  · have hstart := goesAlike_start h anchor config none (some w)
    rw [within_of_not_lt r hw, within_of_not_lt r' hw, skipped_of_isReordered h]
    exact giveTheSame_of_goesAlike hstart (.before (skipped r anchor config w))

end Rules

/-- Rules whose BY values come in another order give the same occurrences, call by call. -/
theorem giveTheSame_of_isReordered (r r' : Rule) (h : r.IsReordered r'.toRuleData) (anchor : τ)
    (config : Config) :
    (∀ limit, GiveTheSame (ofRule r anchor config limit) (ofRule r' anchor config limit)) ∧
      ∀ w, GiveTheSame (within r anchor config w) (within r' anchor config w) :=
  ⟨giveTheSame_ofRule h anchor config, giveTheSame_within h anchor config⟩

def mondaysAndFridays : Rule where
  freq := .yearly
  byMonth := [1, 3]
  byDay := [⟨some 1, .monday⟩, ⟨none, .friday⟩, ⟨some (-1), .monday⟩]
  bySetPos := [2, -1]

def fridaysAndMondays : Rule where
  freq := .yearly
  byMonth := [3, 1]
  byDay := [⟨none, .friday⟩, ⟨some (-1), .monday⟩, ⟨some 1, .monday⟩]
  bySetPos := [-1, 2]

/-- From 2025-11-02 in New York on, the first three of them and those of the next four hundred days. -/
theorem giveTheSame_of_isReordered_mondaysAndFridays :
    let anchor : Zoned := ⟨⟨63897661800000000000, by decide, by decide⟩, Zone.newYork⟩
    let last : Zoned := ⟨⟨63932221800000000000, by decide, by decide⟩, Zone.newYork⟩
    mondaysAndFridays.IsReordered fridaysAndMondays.toRuleData ∧
      GiveTheSame (ofRule mondaysAndFridays anchor {} (some 3))
        (ofRule fridaysAndMondays anchor {} (some 3)) ∧
      GiveTheSame (within mondaysAndFridays anchor {} ⟨anchor, last⟩)
        (within fridaysAndMondays anchor {} ⟨anchor, last⟩) := by
  intro anchor last
  have hreordered : mondaysAndFridays.IsReordered fridaysAndMondays.toRuleData := by
    constructor <;> decide
  have hsame := giveTheSame_of_isReordered mondaysAndFridays fridaysAndMondays hreordered anchor {}
  exact ⟨hreordered, hsame.1 (some 3), hsame.2 ⟨anchor, last⟩⟩

end Occurrences

end Recurrence
