import Recurrence.Expansion.Occurrences
import Recurrence.Proofs.Expansion.Exhaustion

/-!
What a search gives out, said without its cursor. The instants of the periods that a search comes
to are put one after another, those that do not rise are passed over, the end of the rule, its
count and the window cut the list, and the limit cuts what is left of it.
-/

namespace Recurrence

variable {τ : Type} [LT τ] [DecidableLT τ]

/-- The items that are greater than all before them, which `last` is one of. -/
def rising (last : Option τ) : List τ → List τ
  | [] => []
  | x :: xs => if last.any fun l ↦ ¬ l < x then rising last xs else x :: rising (some x) xs

/-- The items that a bound still admits when so many are used. -/
def admitted {α : Type} (bound : Option Nat) (used : Nat) (xs : List α) : List α :=
  match bound with
  | none => xs
  | some n => xs.take (n - used)

section Admitted

variable {α : Type} {bound : Option Nat} {used : Nat} {x : α} {xs : List α}

@[simp]
theorem admitted_nil : admitted bound used ([] : List α) = [] := by
  cases bound <;> simp [admitted]

@[simp]
theorem admitted_none : admitted none used xs = xs := rfl

theorem admitted_eq_nil (h : bound.any fun n ↦ n ≤ used) : admitted bound used xs = [] := by
  obtain ⟨n, rfl, hn⟩ := (Option.any_eq_true _ _).1 h
  rw [admitted, Nat.sub_eq_zero_of_le (of_decide_eq_true hn), List.take_zero]

theorem admitted_cons (h : ¬ bound.any fun n ↦ n ≤ used) :
    admitted bound used (x :: xs) = x :: admitted bound (used + 1) xs := by
  cases bound with
  | none => rfl
  | some n =>
    have hlt : used < n := by simpa using h
    rw [admitted, admitted, show n - used = n - (used + 1) + 1 by omega, List.take_succ_cons]

end Admitted

namespace Search

theorem rising_cons_of_not_passed {s : Search τ} {c : Cursor τ} {x : τ} {xs : List τ}
    (hpassed : ¬ s.isPassed c x = true) :
    rising c.last ((x :: xs).filter fun x ↦ ¬ x < s.anchor) =
      x :: rising (some x) (xs.filter fun x ↦ ¬ x < s.anchor) := by
  obtain ⟨hx, hlast⟩ : ¬ x < s.anchor ∧ ¬ (c.last.any fun l ↦ ¬ l < x) = true := by
    simpa [isPassed] using hpassed
  rw [List.filter_cons_of_pos (by simpa using hx), rising, if_neg hlast]

variable [Instant τ] (s : Search τ)

def batch (n : Nat) : List τ := (s.candidates n).filterMap (Instant.atWallClock? s.anchor)

theorem refill_eq_some {left n m : Nat} {since : Option Date} {pending : List τ}
    (h : s.refill left n since = some (m, pending)) :
    ∃ k, m = k + 1 ∧ n ≤ k ∧ (∀ j, n ≤ j → j < k → s.candidates j = []) ∧
      (s.periods.start? k).isSome ∧ pending = s.batch k := by
  fun_induction refill s left n since with
  | case1 => cases h
  | case2 => cases h
  | case3 => cases h
  | case4 => cases h
  | case5 left n since day hday hlate hempty hgoes ih =>
    obtain ⟨k, hm, hk, hbefore, hstart, hpending⟩ := ih h
    refine ⟨k, hm, by omega, fun j hnj hjk ↦ ?_, hstart, hpending⟩
    obtain rfl | hlt := Nat.eq_or_lt_of_le hnj
    · exact hempty
    · exact hbefore j hlt hjk
  | case6 left n since day hday hlate hne =>
    cases h
    exact ⟨n, rfl, Nat.le_refl n, fun j hnj hjn ↦ by omega, by rw [hday]; rfl, rfl⟩

/-- The instants of the periods from `n` on that the search comes to. -/
def supply (n : Nat) : List τ :=
  match _h : s.refill (Date.count + 1 - n) n none with
  | none => []
  | some (m, pending) => pending ++ supply m
termination_by Date.count + 1 - n
decreasing_by
  have := s.lt_of_refill _h
  omega

theorem supply_eq_nil {n : Nat} (h : s.refill (Date.count + 1 - n) n none = none) :
    s.supply n = [] := by
  rw [supply]
  split
  · rfl
  · simp_all

theorem supply_eq_append {n m : Nat} {pending : List τ}
    (h : s.refill (Date.count + 1 - n) n none = some (m, pending)) :
    s.supply n = pending ++ s.supply m := by
  rw [supply]
  split <;> simp_all

/-- What the search gives out of the instants that are to come. -/
def sieve (c : Cursor τ) (xs : List τ) : List τ :=
  admitted s.limit c.given
    (((admitted s.rule.count c.found
      ((rising c.last (xs.filter fun x ↦ ¬ x < s.anchor)).takeWhile
        fun x ↦ !s.exceedsBound x)).takeWhile
          fun x ↦ !s.isPastWindow x).filter fun x ↦ !s.isBeforeWindow x)

section Sieve

variable {s} {c : Cursor τ} {x : τ} {xs : List τ}

@[simp]
theorem sieve_nil : s.sieve c [] = [] := by simp [sieve, rising]

theorem sieve_eq_nil_of_limit (h : s.hasReachedLimit c = true) : s.sieve c xs = [] :=
  admitted_eq_nil h

theorem sieve_eq_nil_of_count (h : s.hasReachedCount c = true) : s.sieve c xs = [] := by
  have hnone (ys : List τ) : admitted s.rule.count c.found ys = [] := admitted_eq_nil h
  simp [sieve, hnone]

theorem sieve_cons_of_passed (h : s.isPassed c x = true) : s.sieve c (x :: xs) = s.sieve c xs := by
  unfold sieve
  by_cases hx : x < s.anchor
  · rw [List.filter_cons_of_neg (by simpa using hx)]
  · have hlast : c.last.any fun l ↦ ¬ l < x := by simpa [isPassed, hx] using h
    rw [List.filter_cons_of_pos (by simpa using hx), rising, if_pos hlast]

variable (hcount : ¬ s.hasReachedCount c = true) (hpassed : ¬ s.isPassed c x = true)

include hpassed in
theorem sieve_cons_of_exceeds (h : s.exceedsBound x = true) : s.sieve c (x :: xs) = [] := by
  rw [sieve, rising_cons_of_not_passed hpassed, List.takeWhile_cons_of_neg (by simpa using h)]
  simp

variable (hbound : ¬ s.exceedsBound x = true)

include hcount hpassed hbound

theorem admitted_cons_of_not_exceeds :
    admitted s.rule.count c.found
        ((rising c.last ((x :: xs).filter fun x ↦ ¬ x < s.anchor)).takeWhile
          fun x ↦ !s.exceedsBound x) =
      x :: admitted s.rule.count (c.found + 1)
        ((rising (some x) (xs.filter fun x ↦ ¬ x < s.anchor)).takeWhile
          fun x ↦ !s.exceedsBound x) := by
  rw [rising_cons_of_not_passed hpassed, List.takeWhile_cons_of_pos (by simpa using hbound),
    admitted_cons hcount]

theorem sieve_cons_of_past (h : s.isPastWindow x = true) : s.sieve c (x :: xs) = [] := by
  rw [sieve, admitted_cons_of_not_exceeds hcount hpassed hbound,
    List.takeWhile_cons_of_neg (by simpa using h)]
  simp

theorem sieve_cons_of_before (hpast : ¬ s.isPastWindow x = true) (h : s.isBeforeWindow x = true) :
    s.sieve c (x :: xs) = s.sieve { c with last := some x, found := c.found + 1 } xs := by
  rw [sieve, admitted_cons_of_not_exceeds hcount hpassed hbound,
    List.takeWhile_cons_of_pos (by simpa using hpast), List.filter_cons_of_neg (by simpa using h)]
  rfl

theorem sieve_cons (hlimit : ¬ s.hasReachedLimit c = true) (hpast : ¬ s.isPastWindow x = true)
    (h : ¬ s.isBeforeWindow x = true) (pending : List τ) :
    s.sieve c (x :: xs) =
      x :: s.sieve { c with
        pending := pending, last := some x, found := c.found + 1, given := c.given + 1 } xs := by
  rw [sieve, admitted_cons_of_not_exceeds hcount hpassed hbound,
    List.takeWhile_cons_of_pos (by simpa using hpast), List.filter_cons_of_pos (by simpa using h),
    admitted_cons hlimit]
  rfl

end Sieve

theorem sieve_cons_cases (c : Cursor τ) (x : τ) :
    (∀ xs, s.sieve c (x :: xs) = []) ∨ (∃ c', ∀ xs, s.sieve c (x :: xs) = s.sieve c' xs) ∨
      ∃ c', ∀ xs, s.sieve c (x :: xs) = x :: s.sieve c' xs := by
  by_cases hlimit : s.hasReachedLimit c = true
  · exact .inl fun _ ↦ sieve_eq_nil_of_limit hlimit
  by_cases hcount : s.hasReachedCount c = true
  · exact .inl fun _ ↦ sieve_eq_nil_of_count hcount
  by_cases hpassed : s.isPassed c x = true
  · exact .inr (.inl ⟨c, fun _ ↦ sieve_cons_of_passed hpassed⟩)
  by_cases hbound : s.exceedsBound x = true
  · exact .inl fun _ ↦ sieve_cons_of_exceeds hpassed hbound
  by_cases hpast : s.isPastWindow x = true
  · exact .inl fun _ ↦ sieve_cons_of_past hcount hpassed hbound hpast
  by_cases hbefore : s.isBeforeWindow x = true
  · exact .inr (.inl ⟨_, fun _ ↦ sieve_cons_of_before hcount hpassed hbound hpast hbefore⟩)
  · exact .inr (.inr ⟨_, fun _ ↦ sieve_cons hcount hpassed hbound hlimit hpast hbefore []⟩)

theorem sieve_eq_nil_of_beyond {c : Cursor τ} {ys : List τ}
    (h : ∀ y ∈ ys, s.exceedsBound y = true ∨ s.isPastWindow y = true) : s.sieve c ys = [] := by
  induction ys with
  | nil => exact sieve_nil
  | cons y ys ih =>
    have hys := ih fun z hz ↦ h z (List.mem_cons_of_mem y hz)
    by_cases hcount : s.hasReachedCount c = true
    · exact sieve_eq_nil_of_count hcount
    by_cases hpassed : s.isPassed c y = true
    · rw [sieve_cons_of_passed hpassed, hys]
    by_cases hbound : s.exceedsBound y = true
    · exact sieve_cons_of_exceeds hpassed hbound
    · exact sieve_cons_of_past hcount hpassed hbound
        ((h y List.mem_cons_self).resolve_left hbound)

theorem sieve_append_of_beyond {c : Cursor τ} (xs : List τ) {ys : List τ}
    (h : ∀ y ∈ ys, s.exceedsBound y = true ∨ s.isPastWindow y = true) :
    s.sieve c (xs ++ ys) = s.sieve c xs := by
  induction xs generalizing c with
  | nil => rw [List.nil_append, sieve_eq_nil_of_beyond s h, sieve_nil]
  | cons x xs ih =>
    obtain hnil | ⟨c', hskip⟩ | ⟨c', hgive⟩ := s.sieve_cons_cases c x
    · rw [List.cons_append, hnil, hnil]
    · rw [List.cons_append, hskip, hskip, ih]
    · rw [List.cons_append, hgive, hgive, ih]

theorem sieve_append_of_scan {c c' : Cursor τ} {xs : List τ} {x : τ} (ys : List τ)
    (hlimit : ¬ s.hasReachedLimit c = true) (h : s.scan c xs = (some x, c')) :
    s.sieve c (xs ++ ys) = x :: s.sieve c' (c'.pending ++ ys) ∧ c'.done = c.done := by
  fun_induction scan s c xs with
  | case1 => cases h
  | case2 => cases h
  | case3 c y rest hcount hpassed ih =>
    rw [List.cons_append, sieve_cons_of_passed hpassed]
    exact ih hlimit h
  | case4 => cases h
  | case5 => cases h
  | case6 c y rest hcount hpassed hbound _ hpast hbefore ih =>
    rw [List.cons_append, sieve_cons_of_before hcount hpassed hbound hpast hbefore]
    exact ih hlimit h
  | case7 c y rest hcount hpassed hbound _ hpast hbefore =>
    cases h
    exact ⟨sieve_cons hcount hpassed hbound hlimit hpast hbefore rest, rfl⟩

theorem sieve_append_of_scan_eq_none {c c' : Cursor τ} {xs : List τ} (ys : List τ)
    (hdone : c.done = false) (h : s.scan c xs = (none, c')) :
    (c'.done = true ∧ s.sieve c (xs ++ ys) = []) ∨
      (c'.done = false ∧ c'.given = c.given ∧ s.sieve c (xs ++ ys) = s.sieve c' ys) := by
  fun_induction scan s c xs with
  | case1 c =>
    cases h
    exact .inr ⟨hdone, rfl, rfl⟩
  | case2 c y rest hcount =>
    cases h
    exact .inl ⟨rfl, sieve_eq_nil_of_count hcount⟩
  | case3 c y rest hcount hpassed ih =>
    rw [List.cons_append, sieve_cons_of_passed hpassed]
    exact ih hdone h
  | case4 c y rest hcount hpassed hbound =>
    cases h
    exact .inl ⟨rfl, sieve_cons_of_exceeds hpassed hbound⟩
  | case5 c y rest hcount hpassed hbound _ hpast =>
    cases h
    exact .inl ⟨rfl, sieve_cons_of_past hcount hpassed hbound hpast⟩
  | case6 c y rest hcount hpassed hbound _ hpast hbefore ih =>
    rw [List.cons_append, sieve_cons_of_before hcount hpassed hbound hpast hbefore]
    exact ih hdone h
  | case7 => cases h

def rest (c : Cursor τ) : List τ :=
  if c.done then [] else s.sieve c (c.pending ++ s.supply c.period)

theorem rest_eq {c : Cursor τ} (h : c.done = false) :
    s.rest c = s.sieve c (c.pending ++ s.supply c.period) := by
  rw [rest, h]
  rfl

/-- The calendar has so few periods that the search always goes through enough of them. -/
theorem rest_advance {left : Nat} {c : Cursor τ} (hdone : c.done = false)
    (hlimit : ¬ s.hasReachedLimit c = true) (hperiod : c.period ≤ Date.count + 1)
    (hleft : Date.count + 2 ≤ left + c.period) :
    (∀ c', s.advance left c = (none, c') → s.rest c = []) ∧
      ∀ x c', s.advance left c = (some x, c') →
        s.rest c = x :: s.rest c' ∧ c'.period ≤ Date.count + 1 := by
  fun_induction advance s left c with
  | case1 => omega
  | case2 left c y c₁ hscan =>
    refine ⟨fun c' h ↦ (by cases h), fun x c' h ↦ ?_⟩
    cases h
    obtain ⟨hsieve, hdone'⟩ := s.sieve_append_of_scan (s.supply c.period) hlimit hscan
    have hperiod' : c₁.period = c.period := by simpa [hscan] using s.period_scan c c.pending
    rw [rest_eq s hdone, rest_eq s (hdone'.trans hdone), hperiod', hsieve]
    exact ⟨rfl, hperiod⟩
  | case3 left c c₁ hscan hend =>
    refine ⟨fun c' _ ↦ ?_, fun x c' h ↦ by cases h⟩
    rw [rest_eq s hdone]
    obtain ⟨_, hsieve⟩ | ⟨hdone', _, hsieve⟩ :=
      s.sieve_append_of_scan_eq_none (s.supply c.period) hdone hscan
    · exact hsieve
    · rw [hdone', Bool.false_or] at hend
      rw [hsieve, sieve_eq_nil_of_count hend]
  | case4 left c c₁ hscan hend hrefill =>
    refine ⟨fun c' _ ↦ ?_, fun x c' h ↦ by cases h⟩
    have hperiod' : c₁.period = c.period := by simpa [hscan] using s.period_scan c c.pending
    rw [rest_eq s hdone]
    obtain ⟨_, hsieve⟩ | ⟨_, _, hsieve⟩ :=
      s.sieve_append_of_scan_eq_none (s.supply c.period) hdone hscan
    · exact hsieve
    · rw [hsieve, ← hperiod', supply_eq_nil s hrefill, sieve_nil]
  | case5 left c c₁ hscan hend n pending hrefill ih =>
    have hperiod' : c₁.period = c.period := by simpa [hscan] using s.period_scan c c.pending
    have hlt := s.lt_of_refill hrefill
    obtain ⟨k, rfl, _, _, hstart, _⟩ := s.refill_eq_some hrefill
    obtain ⟨day, hday⟩ := Option.isSome_iff_exists.1 hstart
    have hk := Periods.le_count_of_start? hday
    obtain ⟨hdone', _⟩ | ⟨hdone', hgiven, hsieve⟩ :=
      s.sieve_append_of_scan_eq_none (s.supply c.period) hdone hscan
    · simp [hdone'] at hend
    · have hlimit' : ¬ s.hasReachedLimit c₁ = true := by rwa [hasReachedLimit, hgiven]
      let c₂ : Cursor τ := { c₁ with period := k + 1, pending := pending }
      have hdone₂ : c₂.done = false := hdone'
      have hrest : s.rest c = s.rest c₂ := by
        rw [rest_eq s hdone, rest_eq s hdone₂, hsieve, ← hperiod', supply_eq_append s hrefill]
        rfl
      rw [hrest]
      exact ih hdone₂ hlimit' (Nat.succ_le_succ hk) (by dsimp only; omega)

theorem rest_next {c : Cursor τ} (hperiod : c.period ≤ Date.count + 1) :
    (∀ c', s.next c = (none, c') → s.rest c = []) ∧
      ∀ x c', s.next c = (some x, c') → s.rest c = x :: s.rest c' ∧ c'.period ≤ Date.count + 1 := by
  unfold next
  split
  · rename_i hend
    refine ⟨fun c' _ ↦ ?_, fun x c' h ↦ by cases h⟩
    rw [rest]
    split
    · rfl
    · exact sieve_eq_nil_of_limit (by simp_all)
  · rename_i hgoes
    have hdone : c.done = false := by simp_all
    have hlimit : ¬ s.hasReachedLimit c = true := by simp_all
    exact s.rest_advance hdone hlimit hperiod (by omega)

end Search

namespace Source

variable {σ α : Type} [Source σ α] {s s' : σ} {x : α}

theorem toList_eq_nil (h : next s = (none, s')) : toList s = [] := by
  rw [toList]
  split <;> simp_all

theorem toList_eq_cons (h : next s = (some x, s')) : toList s = x :: toList s' := by
  rw [toList]
  split <;> simp_all

theorem mem_toList_of_next (h : (next s).1 = some x) : x ∈ toList s := by
  rw [toList_eq_cons (Prod.ext h rfl)]
  exact List.mem_cons_self

theorem toList_eq_nil_iff : toList s = [] ↔ (next s).1 = none := by
  rcases hnext : next s with ⟨_ | x, s'⟩
  · simp [toList_eq_nil hnext]
  · simp [toList_eq_cons hnext]

end Source

namespace Occurrences

variable [Instant τ]

theorem next_eq {search : Search τ} {c c' : Cursor τ} {answer : Option τ}
    (h : search.next c = (answer, c')) :
    Source.next (⟨search, c⟩ : Occurrences τ) = (answer, ⟨search, c'⟩) := by
  change next ⟨search, c⟩ = _
  rw [next, h]

theorem toList_eq_rest (search : Search τ) (c : Cursor τ) (hperiod : c.period ≤ Date.count + 1) :
    Source.toList (⟨search, c⟩ : Occurrences τ) = search.rest c := by
  have hrest := search.rest_next hperiod
  rcases hnext : search.next c with ⟨_ | x, c'⟩
  · rw [Source.toList_eq_nil (next_eq hnext), hrest.1 c' hnext]
  · obtain ⟨hcons, hperiod'⟩ := hrest.2 x c' hnext
    rw [Source.toList_eq_cons (next_eq hnext), hcons, toList_eq_rest search c' hperiod']
termination_by c.remaining
decreasing_by exact search.isAfter_of_next hnext

end Occurrences

end Recurrence
