import Recurrence.Expansion.Pattern
import Recurrence.Proofs.Expansion.Periods
import Recurrence.Proofs.Expansion.Position

namespace Recurrence

theorem map_filterMap_eq {ι α β : Type} {l : List ι} {g : ι → Option α} {g' : ι → Option β}
    {φ : α → Option β} (h : ∀ i ∈ l, ∃ a b, g i = some a ∧ g' i = some b ∧ φ a = some b) :
    (l.filterMap g).map φ = (l.filterMap g').map some := by
  induction l with
  | nil => rfl
  | cons i l ih =>
    obtain ⟨a, b, ha, hb, hφ⟩ := h i List.mem_cons_self
    simp only [List.filterMap_cons, ha, hb, List.map_cons, hφ]
    rw [ih fun j hj ↦ h j (List.mem_cons_of_mem i hj)]

namespace Frequency

variable (f : Frequency) {u : Int} {k : Nat}

theorem map_addYears?_days (hfirst : -3652425 ≤ f.firstNumber u)
    (hlast : f.firstNumber (u + f.cycle * k + 1) ≤ 3652059) :
    (f.days u).map (·.addYears? (400 * k)) = (f.days (u + f.cycle * k)).map some := by
  have hlength := f.length_days_add_cycles u k
  have hnumber := f.firstNumber_add_cycles u k
  rw [days, days, hlength]
  refine map_filterMap_eq fun i hi ↦ ?_
  have hi := List.mem_range.1 hi
  refine ⟨⟨f.firstNumber u + i, by omega, by omega⟩,
    ⟨f.firstNumber (u + f.cycle * k) + i, by omega, by omega⟩, Date.ofNumber?_eq_some_iff.2 rfl,
    Date.ofNumber?_eq_some_iff.2 rfl, ?_⟩
  rw [Date.addYears?_cycles, Date.ofNumber?_eq_some_iff]
  dsimp only
  omega

end Frequency

namespace Pattern

variable (p : Pattern)

theorem passes_iff_of_cycles {k : Nat} {d e : Date} (h : d.IsCyclesAfter k e) :
    p.Passes e ↔ p.Passes d := by
  simp only [Passes, PassesMonth, PassesWeekNo, Date.LiesInWeek, PassesMonthDay, PassesWeekday,
    h.month_eq, h.isoWeeks_eq, h.isoWeek_eq, h.monthLength_eq, h.day_eq, h.weekday_eq,
    h.hasRank_iff]

def passed (days : List Date) : List Date := days.filter fun d ↦ p.Passes d

theorem pick_eq (days : List Date) :
    p.pick days =
      if p.bySetPos = [] then p.passed days else Position.select p.bySetPos (p.passed days) :=
  rfl

theorem pick_sublist (days : List Date) : (p.pick days).Sublist days := by
  rw [pick_eq]
  split
  · exact List.filter_sublist
  · exact (Position.select_sublist _ _).trans List.filter_sublist

theorem map_addYears?_passed {k : Nat} {days days' : List Date}
    (h : days.map (·.addYears? (400 * k)) = days'.map some) :
    (p.passed days).map (·.addYears? (400 * k)) = (p.passed days').map some := by
  induction days generalizing days' with
  | nil =>
    obtain rfl : days' = [] := by simpa using h
    rfl
  | cons d days ih =>
    cases days' with
    | nil => cases h
    | cons e days' =>
      obtain ⟨hd, hrest⟩ := List.cons.inj h
      have hiff := p.passes_iff_of_cycles (Date.isCyclesAfter_of_addYears? hd)
      by_cases hp : p.Passes d
      · simpa [passed, hp, hiff.2 hp, hd] using ih hrest
      · simpa [passed, hp, hiff.not.2 hp] using ih hrest

theorem map_addYears?_pick {k : Nat} {days days' : List Date}
    (h : days.map (·.addYears? (400 * k)) = days'.map some) :
    (p.pick days).map (·.addYears? (400 * k)) = (p.pick days').map some := by
  have hpassed := p.map_addYears?_passed h
  rw [pick_eq, pick_eq]
  split
  · exact hpassed
  · rw [← Position.select_map, hpassed, Position.select_map]

/-- Without enough days for any of its positions a pattern picks nothing, and fewer days do not
help. -/
theorem pick_eq_nil_of_length_le {days days' : List Date}
    (hlength : (p.passed days').length ≤ (p.passed days).length) (h : p.pick days = []) :
    p.pick days' = [] := by
  rw [pick_eq] at h ⊢
  split at h
  · rename_i hpos
    rw [if_pos hpos]
    rw [h] at hlength
    exact List.eq_nil_of_length_eq_zero (Nat.le_zero.1 hlength)
  · rename_i hpos
    rw [if_neg hpos, Position.select_eq_nil_iff]
    exact fun n hn ↦ Position.resolve?_eq_none_of_le hlength (Position.select_eq_nil_iff.1 h n hn)

theorem length_passed_days_le (f : Frequency) {u : Int} {k : Nat}
    (hfirst : -3652425 ≤ f.firstNumber u) :
    (p.passed (f.days (u + f.cycle * k))).length ≤ (p.passed (f.days u)).length := by
  have hnumber := f.firstNumber_add_cycles u k
  rw [passed, passed, ← List.countP_eq_length_filter, ← List.countP_eq_length_filter,
    Frequency.days, Frequency.days, f.length_days_add_cycles, List.countP_filterMap,
    List.countP_filterMap]
  refine List.countP_mono_left fun i hi h ↦ ?_
  cases he : Date.ofNumber? (f.firstNumber (u + f.cycle * k) + i) with
  | none =>
    rw [he] at h
    cases h
  | some e =>
    rw [he] at h
    have hnumber' := Date.ofNumber?_eq_some_iff.1 he
    have hle := e.le_last
    let d : Date := ⟨f.firstNumber u + i, by omega, by omega⟩
    have hd : Date.ofNumber? (f.firstNumber u + i) = some d := Date.ofNumber?_eq_some_iff.2 rfl
    have hcycles : d.IsCyclesAfter k e := by
      dsimp only [Date.IsCyclesAfter, d]
      omega
    rw [hd]
    exact decide_eq_true ((p.passes_iff_of_cycles hcycles).1 (of_decide_eq_true h))

end Pattern

end Recurrence
