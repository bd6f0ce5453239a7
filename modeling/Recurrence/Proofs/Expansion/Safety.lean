import Recurrence.Proofs.Expansion.Window
import Recurrence.Proofs.Zone.Zoned
import Recurrence.Zone.Table

namespace Recurrence

namespace Source

variable {σ α : Type} [Source σ α] (Ended : σ → Prop)
  (hended : ∀ {s : σ}, Ended s → ∃ s', next s = (none, s') ∧ Ended s')

include hended

theorem calls_of_ended (n : Nat) {s : σ} (h : Ended s) :
    (calls n s).1 = List.replicate n none := by
  induction n generalizing s with
  | zero => rfl
  | succ n ih =>
    obtain ⟨s', hnext, hs'⟩ := hended h
    rw [calls, hnext, List.replicate_succ, ← ih hs']

theorem calls_eq (hends : ∀ {s s' : σ}, next s = (none, s') → Ended s') (n : Nat) (s : σ) :
    (calls n s).1 =
      ((toList s).take n).map some ++ List.replicate (n - ((toList s).take n).length) none := by
  induction n generalizing s with
  | zero => simp [calls]
  | succ n ih =>
    rcases hnext : next s with ⟨_ | x, s'⟩
    · rw [toList_eq_nil hnext, calls, hnext]
      simp [calls_of_ended Ended hended n (hends hnext), List.replicate_succ]
    · rw [toList_eq_cons hnext, calls, hnext]
      simp [ih s']

end Source

namespace Search

variable {τ : Type} [LT τ] [DecidableLT τ] [Instant τ] {s : Search τ} {c c' : Cursor τ}

theorem next_of_done (h : c.done = true) : s.next c = (none, c.finish) := by
  rw [next, h]
  rfl

theorem done_of_advance {left : Nat} (h : s.advance left c = (none, c')) : c'.done = true := by
  fun_induction advance s left c with
  | case1 => cases h; rfl
  | case2 => cases h
  | case3 => cases h; rfl
  | case4 => cases h; rfl
  | case5 _ _ _ _ _ _ _ _ ih => exact ih h

theorem done_of_next (h : s.next c = (none, c')) : c'.done = true := by
  unfold next at h
  split at h
  · cases h; rfl
  · exact done_of_advance h

end Search

theorem length_admitted_le {α : Type} {bound : Option Nat} {n : Nat} (hn : n ∈ bound)
    (xs : List α) : (admitted bound 0 xs).length ≤ n := by
  obtain rfl := Option.mem_def.1 hn
  exact List.length_take_le n xs

section AnyClock

variable {τ : Type} [LE τ] [LT τ] [Instant τ]

/-- What may be given out for a rule from an anchor on. -/
structure IsSafe (rule : Rule) (anchor : τ) (limit : Option Nat) (window : Option (Window τ))
    (xs : List τ) : Prop where
  ascends : xs.Pairwise (· < ·)
  from_anchor : ∀ x ∈ xs, anchor ≤ x
  admitted : ∀ x ∈ xs, ∀ bound ∈ rule.bound, Instant.exceeds x bound = false
  length_le_count : ∀ count ∈ rule.count, xs.length ≤ count
  length_le_limit : ∀ n ∈ limit, xs.length ≤ n
  mem_window : ∀ w ∈ window, ∀ x ∈ xs, w.first ≤ x ∧ x ≤ w.last

theorem IsSafe.sublist {rule : Rule} {anchor : τ} {limit : Option Nat}
    {window : Option (Window τ)} {xs ys : List τ} (h : IsSafe rule anchor limit window ys)
    (hxs : xs.Sublist ys) : IsSafe rule anchor limit window xs where
  ascends := h.ascends.sublist hxs
  from_anchor x hx := h.from_anchor x (hxs.subset hx)
  admitted x hx := h.admitted x (hxs.subset hx)
  length_le_count n hn := hxs.length_le.trans (h.length_le_count n hn)
  length_le_limit n hn := hxs.length_le.trans (h.length_le_limit n hn)
  mem_window w hw x hx := h.mem_window w hw x (hxs.subset hx)

theorem isSafe_nil {rule : Rule} {anchor : τ} {limit : Option Nat} {window : Option (Window τ)} :
    IsSafe rule anchor limit window [] := by
  constructor <;> simp

variable [DecidableLT τ] [Std.IsLinearPreorder τ] [Std.LawfulOrderLT τ]

namespace Search

variable (s : Search τ)

theorem isSafe_sieve (n : Nat) (xs : List τ) :
    IsSafe s.rule s.anchor s.limit s.window (s.sieve (.before n) xs) where
  ascends := pairwise_sieve _ _
  from_anchor x hx := Std.not_lt.1 (of_mem_sieve hx).1
  admitted x hx bound hbound := by
    have hx := (of_mem_sieve hx).2.1
    simpa [exceedsBound, Option.mem_def.1 hbound] using hx
  length_le_count count hcount := by
    rw [sieve_before]
    refine (admitted_sublist _ _ _).length_le.trans (List.filter_sublist.length_le.trans ?_)
    exact (List.takeWhile_sublist _).length_le.trans (length_admitted_le hcount _)
  length_le_limit limit hlimit := length_admitted_le hlimit _
  mem_window w hw x hx := by
    obtain ⟨-, -, hpast, hbefore⟩ := of_mem_sieve hx
    rw [isPastWindow, Option.mem_def.1 hw] at hpast
    rw [isBeforeWindow, Option.mem_def.1 hw] at hbefore
    exact ⟨Std.not_lt.1 (by simpa using hbefore), Std.not_lt.1 (by simpa using hpast)⟩

end Search

namespace Occurrences

omit [LE τ] [Std.IsLinearPreorder τ] [Std.LawfulOrderLT τ] in
theorem calls_eq (o : Occurrences τ) (n : Nat) : (Source.calls n o).1 =
    ((Source.toList o).take n).map some ++
      List.replicate (n - ((Source.toList o).take n).length) none := by
  refine Source.calls_eq (fun o : Occurrences τ ↦ o.cursor.done = true) ?_ ?_ n o
  · rintro ⟨search, c⟩ hdone
    exact ⟨_, next_eq (Search.next_of_done hdone), rfl⟩
  · rintro ⟨search, c⟩ o' hnext
    rcases hc : search.next c with ⟨answer, c'⟩
    rw [next_eq hc] at hnext
    cases hnext
    exact Search.done_of_next hc

variable (rule : Rule) (anchor : τ) (config : Config)

theorem isSafe_toList_ofRule (limit : Option Nat) :
    IsSafe rule anchor limit none (Source.toList (ofRule rule anchor config limit)) := by
  let s : Search τ := { Search.start rule anchor config with limit := limit }
  obtain ⟨xs, hxs⟩ := toList_ofRule_eq_sieve rule anchor config limit
  rw [hxs]
  exact s.isSafe_sieve 0 xs

theorem isSafe_toList_within (w : Window τ) :
    IsSafe rule anchor none (some w) (Source.toList (within rule anchor config w)) := by
  let s : Search τ := { Search.start rule anchor config with window := some w }
  by_cases hw : w.last < w.first
  · rw [toList_within_of_lt rule hw]
    exact isSafe_nil
  · rw [toList_within_eq_rest rule hw]
    exact s.isSafe_sieve _ _

/-- Whatever the clock does, so many calls are answered with the first occurrences and then with
nothing any more; these occurrences ascend from the anchor on, within the end of the rule, its
count, the limit and the window. -/
theorem calls_isSafe (n : Nat) :
    (∀ limit,
      let o := ofRule rule anchor config limit
      let xs := (Source.toList o).take n
      (Source.calls n o).1 = xs.map some ++ List.replicate (n - xs.length) none ∧
        IsSafe rule anchor limit none xs) ∧
    ∀ w,
      let o := within rule anchor config w
      let xs := (Source.toList o).take n
      (Source.calls n o).1 = xs.map some ++ List.replicate (n - xs.length) none ∧
        IsSafe rule anchor none (some w) xs := by
  constructor
  · intro limit o xs
    have hsafe := isSafe_toList_ofRule rule anchor config limit
    exact ⟨calls_eq o n, hsafe.sublist (List.take_sublist n _)⟩
  · intro w o xs
    have hsafe := isSafe_toList_within rule anchor config w
    exact ⟨calls_eq o n, hsafe.sublist (List.take_sublist n _)⟩

end Occurrences

end AnyClock

namespace Occurrences

def nightsOfNovember : Rule where
  freq := .daily
  count := some 5
  bound := some (.floating ⟨⟨739584, by decide, by decide⟩, ⟨86399 * 1000000000, by decide⟩⟩)

/-- From the second 01:30 of 2025-11-02 in New York, to which its clock does not lead back. -/
theorem calls_isSafe_repeatedNight :
    let anchor : Zoned := ⟨⟨63897661800000000000, by decide, by decide⟩, Zone.newYork⟩
    let o := ofRule nightsOfNovember anchor {} (some 3)
    let xs := (Source.toList o).take 4
    Std.IsLinearPreorder Zoned ∧ Std.LawfulOrderLT Zoned ∧
      Instant.atWallClock? anchor (Instant.wallClock anchor) ≠ some anchor ∧
      (Source.calls 4 o).1 = xs.map some ++ List.replicate (4 - xs.length) none ∧
      IsSafe nightsOfNovember anchor (some 3) none xs := by
  intro anchor o xs
  have hfold : Instant.atWallClock? anchor (Instant.wallClock anchor) ≠ some anchor := by decide
  exact ⟨inferInstance, inferInstance, hfold,
    (calls_isSafe nightsOfNovember anchor {} 4).1 (some 3)⟩

end Occurrences

end Recurrence
