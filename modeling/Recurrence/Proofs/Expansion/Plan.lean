import Recurrence.Proofs.Expansion.Stream

/-!
Searches with the same plan pick the same readings in the same periods and are given up after the
same stretches, whatever the rules end with and whatever their clocks make of the readings. They
part only at a period that starts too late for one of them.
-/

namespace Recurrence.Search

variable {τ σ : Type}

structure SamePlan (s : Search τ) (s' : Search σ) : Prop where
  periods : s'.periods = s.periods
  candidates : s'.candidates = s.candidates
  isExhausted : s'.isExhausted = s.isExhausted

variable [LT τ] [DecidableLT τ] [Instant τ] [LT σ] [DecidableLT σ] [Instant σ] {s : Search τ}
  {s' : Search σ} (h : s.SamePlan s') (hnever : ∀ day, s'.startsTooLate day = false)

include h hnever

theorem refill_of_samePlan (left n : Nat) (since : Option Date) :
    (s.refill left n since = none ∧ s'.refill left n since = none) ∨
      (∃ k, s.refill left n since = some (k + 1, s.batch k) ∧
        s'.refill left n since = some (k + 1, s'.batch k)) ∨
      s.refill left n since = none ∧ ∃ k day, n ≤ k ∧
        (∀ j, n ≤ j → j < k → s.candidates j = []) ∧ s.periods.start? k = some day ∧
        s.startsTooLate day = true := by
  fun_induction refill s left n since with
  | case1 n since => exact .inl ⟨rfl, rfl⟩
  | case2 left n since hnone =>
    refine .inl ⟨rfl, ?_⟩
    simp only [refill, h.periods, hnone]
  | case3 left n since day hday hlate =>
    exact .inr (.inr ⟨rfl, n, day, Nat.le_refl n, fun j hnj hjn ↦ by omega, hday, hlate⟩)
  | case4 left n since day hday hlate hempty hexhausted =>
    refine .inl ⟨rfl, ?_⟩
    simp only [refill, h.periods, h.candidates, h.isExhausted, hday, hnever, hempty, hexhausted,
      if_true, Bool.false_eq_true, if_false]
  | case5 left n since day hday hlate hempty hgoes ih =>
    have hrefill : s'.refill (left + 1) n since = s'.refill left (n + 1) (since.getD day) := by
      rw [refill, h.periods, hday]
      simp only [h.candidates, h.isExhausted, hnever, hempty, hgoes, Bool.false_eq_true, if_false]
    rw [hrefill]
    obtain hnone | hsome | ⟨hnone, k, late, hk, hbefore, hlate'⟩ := ih
    · exact .inl hnone
    · exact .inr (.inl hsome)
    · refine .inr (.inr ⟨hnone, k, late, Nat.le_of_succ_le hk, fun j hnj hjk ↦ ?_, hlate'⟩)
      obtain rfl | hlt := Nat.eq_or_lt_of_le hnj
      · exact hempty
      · exact hbefore j hlt hjk
  | case6 left n since day hday hlate hne =>
    refine .inr (.inl ⟨n, rfl, ?_⟩)
    rw [refill, h.periods, hday]
    simp only [hnever, batch, h.candidates, Bool.false_eq_true, if_false]

/-- If neither search comes to a period that starts too late, the one supplies what the clock of the
other makes of it. -/
theorem supply_of_samePlan (hnever' : ∀ day, s.startsTooLate day = false) {f : σ → Option τ}
    (hbatch : ∀ k, s.batch k = (s'.batch k).filterMap f) (n : Nat) :
    s.supply n = (s'.supply n).filterMap f := by
  obtain ⟨hnone, hnone'⟩ | ⟨k, hsome, hsome'⟩ | ⟨-, k, day, -, -, -, hlate⟩ :=
    refill_of_samePlan h hnever (Date.count + 1 - n) n none
  · rw [supply_eq_nil s hnone, supply_eq_nil s' hnone', List.filterMap_nil]
  · have hlt := s.lt_of_refill hsome
    rw [supply_eq_append s hsome, supply_eq_append s' hsome', List.filterMap_append, hbatch,
      supply_of_samePlan hnever' hbatch (k + 1)]
  · rw [hnever'] at hlate
    cases hlate
termination_by Date.count + 1 - n
decreasing_by omega

end Recurrence.Search
