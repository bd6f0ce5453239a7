import Recurrence.Proofs.Expansion.Ascent
import Recurrence.Proofs.Expansion.Plan
import Recurrence.Proofs.Zone.Zoned

namespace Recurrence

theorem forall_mem_dropWhile_not {α : Type} {p : α → Bool} {xs : List α}
    (h : xs.Pairwise fun x y ↦ p y = true → p x = true) : ∀ x ∈ xs.dropWhile p, ¬ p x = true := by
  induction xs with
  | nil => intro x hx; cases hx
  | cons x xs ih =>
    obtain ⟨hx, hxs⟩ := List.pairwise_cons.1 h
    by_cases hp : p x = true
    · rw [List.dropWhile_cons_of_pos hp]
      exact ih hxs
    · rw [List.dropWhile_cons_of_neg hp]
      intro y hy hpy
      obtain rfl | hy := List.mem_cons.1 hy
      · exact hp hpy
      · exact hp (hx y hy hpy)

namespace Rule

def unended (r : Rule) : Rule where
  toRuleData := { r.toRuleData with count := none, bound := none }
  valid := { r.valid with count := fun _ h ↦ by cases h }

def admits {τ : Type} [Instant τ] (r : Rule) (x : τ) : Bool :=
  !r.bound.any fun bound ↦ Instant.exceeds x bound

theorem admits_iff {τ : Type} [Instant τ] {r : Rule} {x : τ} :
    r.admits x = true ↔ ∀ bound ∈ r.bound, Instant.exceeds x bound = false := by
  rw [admits, Bool.not_eq_true', Option.any_eq_false]
  rfl

end Rule

namespace Search

variable {τ : Type} [LT τ] [DecidableLT τ] [Instant τ] (s : Search τ)

omit [LT τ] [DecidableLT τ] in
theorem exceedsBound_eq_not_admits (x : τ) : s.exceedsBound x = !s.rule.admits x :=
  (Bool.not_not _).symm

def unended : Search τ := { s with rule := s.rule.unended, limit := none, window := none }

omit [LT τ] [DecidableLT τ] [Instant τ] in
theorem samePlan_unended : s.SamePlan s.unended := ⟨rfl, rfl, rfl⟩

theorem startsTooLate_unended (day : Date) : s.unended.startsTooLate day = false :=
  (Option.any_eq_false _ _).2 fun _ _ ↦ rfl

theorem rest_unended : s.unended.rest (.before 0) =
    rising none ((s.unended.supply 0).filter fun x ↦ ¬ x < s.anchor) := by
  have hrest : s.unended.rest (.before 0) = s.unended.sieve (.before 0) (s.unended.supply 0) := rfl
  rw [hrest, sieve_before_of_no_window rfl]
  exact List.takeWhile_eq_self_iff.2 fun _ _ ↦ rfl

variable {s} [Timeline τ] (hs : s.FromAnchor) (ha : KeepsOrder s.anchor) (hwindow : s.window = none)

include hs ha hwindow

theorem supply_unended (n : Nat) : ∃ missed, s.unended.supply n = s.supply n ++ missed ∧
    ∀ x ∈ missed, s.exceedsBound x = true := by
  obtain ⟨hnone, hnone'⟩ | ⟨k, hsome, hsome'⟩ | ⟨hnone, k, day, hk, hempty, hday, hlate⟩ :=
    refill_of_samePlan s.samePlan_unended s.startsTooLate_unended (Date.count + 1 - n) n none
  · refine ⟨[], ?_, fun x hx ↦ by cases hx⟩
    rw [supply_eq_nil s hnone, supply_eq_nil s.unended hnone', List.append_nil]
  · have hlt := s.lt_of_refill hsome
    obtain ⟨missed, hmissed, hexceeds⟩ := supply_unended (k + 1)
    refine ⟨missed, ?_, hexceeds⟩
    rw [supply_eq_append s hsome, supply_eq_append s.unended hsome', hmissed, List.append_assoc]
    rfl
  · refine ⟨s.unended.supply n, by rw [supply_eq_nil s hnone, List.nil_append], fun x hx ↦ ?_⟩
    have hx : x ∈ s.stream n := (s.unended.supply_sublist_stream n).subset hx
    refine (beyond_of_mem_stream hs ha hk hempty hday hlate hx).resolve_right ?_
    simp [isPastWindow, hwindow]
termination_by Date.count + 1 - n
decreasing_by omega

theorem rest_eq_of_unended :
    s.rest (.before 0) = admitted s.limit 0 (admitted s.rule.count 0
      ((s.unended.rest (.before 0)).takeWhile fun x ↦ !s.exceedsBound x)) := by
  obtain ⟨missed, hsupply, hexceeds⟩ := supply_unended hs ha hwindow 0
  rw [rest_unended, ← sieve_before_of_no_window hwindow 0, hsupply,
    s.sieve_append_of_beyond _ fun x hx ↦ .inl (hexceeds x hx)]
  rfl

omit hwindow [Timeline τ] in
theorem pairwise_rest_unended : (s.unended.rest (.before 0)).Pairwise fun x y ↦
    (!s.exceedsBound y) = true → (!s.exceedsBound x) = true := by
  have hsublist : (s.unended.rest (.before 0)).Sublist (s.stream 0) := by
    rw [rest_unended]
    exact (rising_sublist _ _).trans
      (List.filter_sublist.trans (s.unended.supply_sublist_stream 0))
  refine ((pairwise_stream hs ha 0).sublist hsublist).imp fun {x y} h hy ↦ ?_
  by_contra hx
  have hx : s.exceedsBound x = true := by simpa using hx
  simp [h.2 hx] at hy

end Search

namespace Occurrences

variable {τ : Type} [LT τ] [DecidableLT τ] [Instant τ]

/-- The occurrences of the rule are those of the rule without its count and its end, cut off where
the end no longer admits them, then by the count and then by the limit. What follows the cut is not
admitted either. -/
def AreCut (rule : Rule) (anchor : τ) (config : Config) (limit : Option Nat) : Prop :=
  let all := Source.toList (ofRule rule.unended anchor config none)
  Source.toList (ofRule rule anchor config limit) =
      admitted limit 0 (admitted rule.count 0 (all.takeWhile rule.admits)) ∧
    ∀ x ∈ all.dropWhile rule.admits, ¬ rule.admits x = true

theorem areCut_of_keepsOrder [Timeline τ] (rule : Rule) {anchor : τ} (ha : KeepsOrder anchor)
    (config : Config) (limit : Option Nat) : AreCut rule anchor config limit := by
  let s : Search τ := { Search.start rule anchor config with limit := limit }
  have hs : s.FromAnchor := Search.fromAnchor_start rule anchor config limit none
  have hall : Source.toList (ofRule rule.unended anchor config none) =
      s.unended.rest (.before 0) := toList_eq_rest s.unended (.before 0) (Nat.zero_le _)
  have hcut : Source.toList (ofRule rule anchor config limit) = s.rest (.before 0) :=
    toList_eq_rest s (.before 0) (Nat.zero_le _)
  rw [AreCut, hall, hcut]
  exact ⟨Search.rest_eq_of_unended hs ha rfl,
    forall_mem_dropWhile_not (Search.pairwise_rest_unended hs ha)⟩

/-- In floating time and in every zone of the table, the end, the count and the limit only cut. -/
theorem ends_only_cut (rule : Rule) (config : Config) (limit : Option Nat) :
    (∀ anchor : DateTime, AreCut rule anchor config limit) ∧
      ∀ anchor : Zoned, anchor.zone.IsNamed → AreCut rule anchor config limit :=
  ⟨fun anchor ↦ areCut_of_keepsOrder rule (keepsOrder_floating anchor) config limit,
    fun _ hnamed ↦ areCut_of_keepsOrder rule (keepsOrder_zoned hnamed.keepsDays) config limit⟩

def lastDaysOf2011 : Rule where
  freq := .daily
  count := some 4
  bound := some (.floating ⟨⟨734501, by decide, by decide⟩, ⟨86399000000000, by decide⟩⟩)

/-- From noon on 2011-12-29 in Samoa, where the clocks skip the next day. -/
theorem ends_only_cut_lastDaysOf2011 :
    let anchor : Zoned := ⟨⟨63460792800000000000, by decide, by decide⟩, Zone.apia⟩
    anchor.zone.IsNamed ∧ AreCut lastDaysOf2011 anchor {} (some 3) := by
  intro anchor
  have hnamed : anchor.zone.IsNamed := by decide
  exact ⟨hnamed, (ends_only_cut lastDaysOf2011 {} (some 3)).2 anchor hnamed⟩

end Occurrences

end Recurrence
