import Mathlib.Data.List.Infix
import Recurrence.Proofs.Calendar.YearsLater
import Recurrence.Proofs.Expansion.Window
import Recurrence.Zone.Table

namespace Recurrence

namespace Search

variable {τ : Type} (s : Search τ)

def waiting (c : Config) : Search τ := { s with config := c }

section

variable (c : Config) (n : Nat)

@[simp]
theorem periods_waiting : (s.waiting c).periods = s.periods := rfl

@[simp]
theorem candidates_waiting : (s.waiting c).candidates n = s.candidates n := rfl

@[simp]
theorem startsTooLate_waiting [LT τ] [DecidableLT τ] [Instant τ] (day : Date) :
    (s.waiting c).startsTooLate day = s.startsTooLate day := rfl

end

variable {s} {c : Config} (hc : s.config.maxEmptyYears ≤ c.maxEmptyYears)

section Exhausted

include hc

theorem isExhausted_of_waiting {since since' day : Date} (hsince : since.number ≤ since'.number)
    (h : (s.waiting c).isExhausted since' day = true) : s.isExhausted since day = true := by
  obtain ⟨later, hlater, hle⟩ := (Option.any_eq_true _ _).1 h
  obtain ⟨sooner, hsooner, hle'⟩ := Date.exists_addYears?_of_le hsince
    (Nat.mul_le_mul_right s.rule.interval hc) hlater
  have hle : later.number ≤ day.number := of_decide_eq_true hle
  exact (Option.any_eq_true _ _).2 ⟨sooner, hsooner, decide_eq_true (hle'.trans hle)⟩

end Exhausted

variable [LT τ] [DecidableLT τ] [Instant τ]

section Waiting

include hc

theorem refill_waiting {left n i : Nat} {since : Option Date} (hin : i ≤ n)
    (hsince : ∀ day, s.periods.start? n = some day →
      s.periods.start? i = some (since.getD day))
    (hempty : ∀ j, i ≤ j → j < n → s.candidates j = []) :
    (s.waiting c).refill left n since = s.refill left n since ∨
      s.refill left n since = none ∧ ∃ k, s.GivesUp i k := by
  fun_induction refill s left n since with
  | case1 => exact .inl rfl
  | case2 left n since hnone => exact .inl (by simp only [refill, periods_waiting, hnone])
  | case3 left n since day hday hlate =>
    exact .inl (by simp only [refill, periods_waiting, startsTooLate_waiting, hday, hlate, if_true])
  | case4 left n since day hday hlate hnone hexhausted =>
    refine .inr ⟨rfl, n, hin, fun j hij hjn ↦ ?_, _, day, hsince day hday, hday, hexhausted⟩
    obtain rfl | hlt := Nat.eq_or_lt_of_le hjn
    · exact hnone
    · exact hempty j hij hlt
  | case5 left n since day hday hlate hnone hgoes ih =>
    have hgoes' : ¬ (s.waiting c).isExhausted (since.getD day) day = true := fun h ↦
      hgoes (isExhausted_of_waiting hc (Int.le_refl _) h)
    have hrefill : (s.waiting c).refill (left + 1) n since =
        (s.waiting c).refill left (n + 1) (some (since.getD day)) := by
      simp only [refill, periods_waiting, startsTooLate_waiting, candidates_waiting, hday, hnone,
        if_neg hlate, if_neg hgoes']
    rw [hrefill]
    refine ih (Nat.le_succ_of_le hin) (fun _ _ ↦ hsince day hday) fun j hij hjn ↦ ?_
    obtain rfl | hlt := Nat.eq_or_lt_of_le (Nat.le_of_lt_succ hjn)
    · exact hnone
    · exact hempty j hij hlt
  | case6 left n since day hday hlate hne =>
    refine .inl ?_
    rw [refill, periods_waiting, hday]
    simp only [startsTooLate_waiting, candidates_waiting, if_neg hlate]
    rfl

end Waiting

theorem exists_of_refill {left n m : Nat} {since : Option Date} {pending : List τ}
    (h : s.refill left n since = some (m, pending)) :
    ∃ k first, m = k + 1 ∧ s.candidates k ≠ [] ∧ s.periods.start? n = some first ∧
      ∀ j day, n ≤ j → j < k → s.periods.start? j = some day →
        ¬ s.isExhausted (since.getD first) day = true := by
  fun_induction refill s left n since with
  | case1 => cases h
  | case2 => cases h
  | case3 => cases h
  | case4 => cases h
  | case5 left n since first hfirst _ _ hgoes ih =>
    obtain ⟨k, _, hm, hne, -, hbefore⟩ := ih h
    refine ⟨k, first, hm, hne, hfirst, fun j day hnj hjk hday ↦ ?_⟩
    obtain rfl | hlt := Nat.eq_or_lt_of_le hnj
    · rw [hfirst, Option.some.injEq] at hday
      rwa [← hday]
    · exact hbefore j day hlt hjk hday
  | case6 left n since first hfirst _ hne =>
    cases h
    exact ⟨n, first, rfl, hne, hfirst, fun j day hnj hjn ↦ by omega⟩

theorem not_givesUp_of_refill {left n m i k : Nat} {pending : List τ}
    (h : s.refill left n none = some (m, pending)) (hni : n ≤ i) (him : i < m) :
    ¬ s.GivesUp i k := by
  rintro ⟨hik, hempty, since, day, hsince, hday, hexhausted⟩
  obtain ⟨l, first, rfl, hne, hfirst, hgoes⟩ := exists_of_refill h
  obtain hkl | hlk := Nat.lt_or_ge k l
  · -- the search waits from period `n` on, so longer than from period `i` on
    refine hgoes k day (by omega) hkl hday (isExhausted_of_waiting (Nat.le_refl _) ?_ hexhausted)
    rw [Option.getD_none, Periods.number_of_start? hfirst, Periods.number_of_start? hsince]
    exact s.periods.freq.firstNumber_le_iff.2 (s.periods.unit_le_iff.2 hni)
  · exact hne (hempty l (by omega) hlk)

theorem exists_mem_batch_of_mem_supply {n : Nat} {x : τ} (hx : x ∈ s.supply n) :
    ∃ j, n ≤ j ∧ x ∈ s.batch j ∧ ∀ i k, n ≤ i → s.GivesUp i k → j ≤ k := by
  rcases h : s.refill (Date.count + 1 - n) n none with _ | ⟨m, pending⟩
  · rw [supply_eq_nil s h] at hx
    cases hx
  · obtain ⟨l, rfl, hnl, -, -, rfl⟩ := s.refill_eq_some h
    have hlt := s.lt_of_refill h
    have hlater (i k : Nat) (hni : n ≤ i) (hgives : s.GivesUp i k) : l + 1 ≤ i :=
      Nat.le_of_not_lt fun hil ↦ not_givesUp_of_refill h hni hil hgives
    rw [supply_eq_append s h, List.mem_append] at hx
    obtain hx | hx := hx
    · refine ⟨l, hnl, hx, fun i k hni hgives ↦ ?_⟩
      have hli := hlater i k hni hgives
      have hik := hgives.1
      omega
    · obtain ⟨j, hlj, hj, hbefore⟩ := exists_mem_batch_of_mem_supply hx
      exact ⟨j, by omega, hj, fun i k hni hgives ↦ hbefore i k (hlater i k hni hgives) hgives⟩
termination_by Date.count + 1 - n
decreasing_by omega

/-- A search from period `n` on is given up before the period that holds `x`. -/
def Misses (s : Search τ) (n : Nat) (x : τ) : Prop :=
  ∃ i k j, n ≤ i ∧ s.GivesUp i k ∧ k < j ∧ x ∈ s.batch j

omit [LT τ] [DecidableLT τ] in
/-- What waits for a whole cycle of the calendar misses nothing. -/
theorem not_misses (hs : s.FromAnchor) (hyears : 400 ≤ s.config.maxEmptyYears) (n : Nat) (x : τ) :
    ¬ s.Misses n x := by
  rintro ⟨i, k, j, -, hgives, hkj, hx⟩
  have hij := hgives.1.trans (Nat.le_of_lt hkj)
  rw [batch, candidates_eq_nil_of_givesUp hs hyears hgives hij] at hx
  cases hx

section Waiting

include hc

theorem supply_waiting (n : Nat) : ∃ missed, (s.waiting c).supply n = s.supply n ++ missed ∧
    ∀ x ∈ missed, s.Misses n x := by
  have hrefill : (s.waiting c).refill (Date.count + 1 - n) n none =
      s.refill (Date.count + 1 - n) n none ∨
      s.refill (Date.count + 1 - n) n none = none ∧ ∃ k, s.GivesUp n k :=
    refill_waiting hc (Nat.le_refl n) (fun _ h ↦ h) fun j hnj hjn ↦ by omega
  obtain heq | ⟨hnone, k, hgives⟩ := hrefill
  · rcases h : s.refill (Date.count + 1 - n) n none with _ | ⟨m, pending⟩
    · rw [h] at heq
      refine ⟨[], ?_, fun x hx ↦ by cases hx⟩
      rw [supply_eq_nil s h, supply_eq_nil (s.waiting c) heq, List.append_nil]
    · rw [h] at heq
      have hlt := s.lt_of_refill h
      obtain ⟨missed, hmissed, hmisses⟩ := supply_waiting m
      refine ⟨missed, ?_, fun x hx ↦ ?_⟩
      · rw [supply_eq_append s h, supply_eq_append (s.waiting c) heq, hmissed, List.append_assoc]
      · obtain ⟨i, k, j, hmi, hrest⟩ := hmisses x hx
        exact ⟨i, k, j, by omega, hrest⟩
  · refine ⟨(s.waiting c).supply n, by rw [supply_eq_nil s hnone, List.nil_append], fun x hx ↦ ?_⟩
    have hx : x ∈ s.stream n := ((s.waiting c).supply_sublist_stream n).subset hx
    obtain ⟨r, hr, hrx⟩ := mem_stream.1 hx
    obtain ⟨j, hnj, -, hj⟩ := mem_readings.1 hr
    refine ⟨n, k, j, Nat.le_refl n, hgives, ?_, List.mem_filterMap.2 ⟨r, hj, hrx⟩⟩
    by_contra hle
    rw [hgives.2.1 j hnj (Nat.not_lt.1 hle)] at hj
    cases hj
termination_by Date.count + 1 - n
decreasing_by omega

end Waiting

theorem sieve_sublist (cur : Cursor τ) (xs : List τ) : (s.sieve cur xs).Sublist xs :=
  (sieve_sublist_rising cur xs).trans ((rising_sublist _ _).trans List.filter_sublist)

theorem sieve_append (cur : Cursor τ) (xs ys : List τ) :
    ∃ more, s.sieve cur (xs ++ ys) = s.sieve cur xs ++ more ∧ more.Sublist ys := by
  induction xs generalizing cur with
  | nil =>
    exact ⟨s.sieve cur ys, by rw [sieve_nil, List.nil_append, List.nil_append],
      sieve_sublist cur ys⟩
  | cons x xs ih =>
    obtain hnil | ⟨cur', hskip⟩ | ⟨cur', hgive⟩ := s.sieve_cons_cases cur x
    · exact ⟨[], by rw [List.cons_append, hnil, hnil, List.append_nil], List.nil_sublist ys⟩
    · obtain ⟨more, hmore, hsublist⟩ := ih cur'
      exact ⟨more, by rw [List.cons_append, hskip, hskip, hmore], hsublist⟩
    · obtain ⟨more, hmore, hsublist⟩ := ih cur'
      exact ⟨more, by rw [List.cons_append, hgive, hgive, hmore, List.cons_append], hsublist⟩

include hc in
theorem rest_waiting (n : Nat) : ∃ missed,
    (s.waiting c).rest (.before n) = s.rest (.before n) ++ missed ∧ ∀ x ∈ missed, s.Misses n x := by
  obtain ⟨missed, hsupply, hmisses⟩ := supply_waiting hc n
  obtain ⟨more, hmore, hsublist⟩ := s.sieve_append (.before n) (s.supply n) missed
  refine ⟨more, ?_, fun x hx ↦ hmisses x (hsublist.subset hx)⟩
  change s.sieve (.before n) ((s.waiting c).supply n) = s.sieve (.before n) (s.supply n) ++ more
  rw [hsupply, hmore]

end Search

namespace Occurrences

variable {τ : Type} [LT τ] [DecidableLT τ] [Instant τ] (rule : Rule) (anchor : τ) {c c' : Config}

section

variable (hc : c.maxEmptyYears ≤ c'.maxEmptyYears)

include hc

theorem toList_ofRule_waiting (limit : Option Nat) : ∃ missed,
    Source.toList (ofRule rule anchor c' limit) =
      Source.toList (ofRule rule anchor c limit) ++ missed ∧
    ∀ x ∈ missed, (Search.start rule anchor c).Misses 0 x := by
  let s : Search τ := { Search.start rule anchor c with limit := limit }
  have hlist : Source.toList (ofRule rule anchor c limit) = s.rest (.before 0) :=
    toList_eq_rest s (.before 0) (Nat.zero_le _)
  have hlist' : Source.toList (ofRule rule anchor c' limit) = (s.waiting c').rest (.before 0) :=
    toList_eq_rest (s.waiting c') (.before 0) (Nat.zero_le _)
  rw [hlist, hlist']
  exact Search.rest_waiting (s := s) hc 0

theorem toList_within_waiting (w : Window τ) : ∃ missed,
    Source.toList (within rule anchor c' w) = Source.toList (within rule anchor c w) ++ missed ∧
    ∀ x ∈ missed, (Search.start rule anchor c).Misses (skipped rule anchor c w) x := by
  let s : Search τ := { Search.start rule anchor c with window := some w }
  by_cases hw : w.last < w.first
  · refine ⟨[], ?_, fun x hx ↦ by cases hx⟩
    rw [toList_within_of_lt rule hw, toList_within_of_lt rule hw, List.append_nil]
  · have hskipped : skipped rule anchor c' w = skipped rule anchor c w := rfl
    rw [toList_within_eq_rest rule hw, toList_within_eq_rest rule hw, hskipped]
    exact Search.rest_waiting (s := s) hc (skipped rule anchor c w)

end

section

variable (hyears : 400 ≤ c.maxEmptyYears)

include hyears

theorem toList_ofRule_eq_default (limit : Option Nat) :
    Source.toList (ofRule rule anchor c limit) = Source.toList (ofRule rule anchor {} limit) := by
  obtain ⟨missed, hlist, hmisses⟩ := toList_ofRule_waiting rule anchor (c := {}) hyears limit
  have hs := Search.fromAnchor_start rule anchor {} none none
  have hnil : missed = [] := List.eq_nil_iff_forall_not_mem.2 fun x hx ↦
    Search.not_misses hs Config.le_default _ x (hmisses x hx)
  rw [hlist, hnil, List.append_nil]

theorem toList_within_eq_default (w : Window τ) :
    Source.toList (within rule anchor c w) = Source.toList (within rule anchor {} w) := by
  obtain ⟨missed, hlist, hmisses⟩ := toList_within_waiting rule anchor (c := {}) hyears w
  have hs := Search.fromAnchor_start rule anchor {} none none
  have hnil : missed = [] := List.eq_nil_iff_forall_not_mem.2 fun x hx ↦
    Search.not_misses hs Config.le_default _ x (hmisses x hx)
  rw [hlist, hnil, List.append_nil]

end

/-- Whatever the clock does, a search that may wait longer gives out the same occurrences first, all
of them or those in a window, and from 400 years on the same occurrences altogether. -/
theorem patience_only_lengthens (limit : Option Nat) (w : Window τ) :
    (∀ c c' : Config, c.maxEmptyYears ≤ c'.maxEmptyYears →
      Source.toList (ofRule rule anchor c limit) <+: Source.toList (ofRule rule anchor c' limit) ∧
        Source.toList (within rule anchor c w) <+: Source.toList (within rule anchor c' w)) ∧
    ∀ c c' : Config, 400 ≤ c.maxEmptyYears → 400 ≤ c'.maxEmptyYears →
      Source.toList (ofRule rule anchor c limit) = Source.toList (ofRule rule anchor c' limit) ∧
        Source.toList (within rule anchor c w) = Source.toList (within rule anchor c' w) := by
  refine ⟨fun c c' hc ↦ ?_, fun c c' hyears hyears' ↦ ?_⟩
  · obtain ⟨missed, hlist, -⟩ := toList_ofRule_waiting rule anchor hc limit
    obtain ⟨missed', hlist', -⟩ := toList_within_waiting rule anchor hc w
    exact ⟨⟨missed, hlist.symm⟩, ⟨missed', hlist'.symm⟩⟩
  · rw [toList_ofRule_eq_default rule anchor hyears, toList_ofRule_eq_default rule anchor hyears',
      toList_within_eq_default rule anchor hyears, toList_within_eq_default rule anchor hyears']
    exact ⟨rfl, rfl⟩

def leapDays : Rule where
  freq := .yearly
  byMonth := [2]
  byMonthDay := [29]

/-- From midnight of 2021-01-01 in Berlin on, where no year has a leap day before 2024. -/
theorem patience_only_lengthens_leapDays :
    let anchor : Zoned := ⟨⟨63745052400000000000, by decide, by decide⟩, Zone.berlin⟩
    let occurrences (c : Config) := Source.toList (ofRule leapDays anchor c none)
    let impatient : Config := ⟨1, by decide⟩
    let patient : Config := ⟨4, by decide⟩
    let lasting : Config := ⟨800, by decide⟩
    impatient.maxEmptyYears ≤ patient.maxEmptyYears ∧
      occurrences impatient <+: occurrences patient ∧
      occurrences impatient = [] ∧ occurrences patient ≠ [] ∧
      400 ≤ lasting.maxEmptyYears ∧ occurrences {} = occurrences lasting := by
  intro anchor occurrences impatient patient lasting
  have hle : impatient.maxEmptyYears ≤ patient.maxEmptyYears := by decide
  have hyears : 400 ≤ lasting.maxEmptyYears := by decide
  have hnone : (Source.next (ofRule leapDays anchor impatient none)).1 = none := by
    decide +kernel
  have hsome : (Source.next (ofRule leapDays anchor patient none)).1 ≠ none := by
    decide +kernel
  obtain ⟨hfirst, hsame⟩ := patience_only_lengthens leapDays anchor none ⟨anchor, anchor⟩
  exact ⟨hle, (hfirst impatient patient hle).1, Source.toList_eq_nil_iff.2 hnone,
    mt Source.toList_eq_nil_iff.1 hsome, hyears, (hsame {} lasting Config.le_default hyears).1⟩

end Occurrences

end Recurrence
