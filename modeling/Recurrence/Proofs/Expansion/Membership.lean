import Mathlib.Order.RelClasses
import Recurrence.Expansion.Series
import Recurrence.Proofs.Expansion.Ascent
import Recurrence.Proofs.Zone.Zoned

namespace Recurrence

theorem takeWhile_append_find?_prefix {α : Type} (p : α → Bool) (ys : List α) :
    ys.takeWhile p ++ (ys.find? fun y ↦ !p y).toList <+: ys := by
  induction ys with
  | nil => exact List.prefix_rfl
  | cons y ys ih =>
    by_cases hy : p y = true
    · rw [List.takeWhile_cons_of_pos hy, List.find?_cons_of_neg (by simpa using hy)]
      exact (List.prefix_cons_inj y).2 ih
    · rw [List.takeWhile_cons_of_neg hy, List.find?_cons_of_pos (by simpa using hy)]
      exact List.prefix_append [y] ys

namespace Source

variable {σ α : Type} [Source σ α] [LT α] [DecidableLT α]

/-- What is to be taken of a list: the items that are smaller, and the first that is not. -/
def needed (x : α) (ys : List α) : List α :=
  ys.filter (fun y ↦ y < x) ++ (ys.find? fun y ↦ ¬ y < x).toList

theorem toList_list {β : Type} (ys : List β) : toList ys = ys := by
  induction ys with
  | nil => exact toList_eq_nil rfl
  | cons y ys ih =>
    have hnext : next (y :: ys) = (some y, ys) := rfl
    rw [toList_eq_cons hnext, ih]

theorem search_eq (s : σ) (x : α) :
    let found := (toList s).find? fun y ↦ ¬ y < x
    search s x = (found, ((toList s).takeWhile fun y ↦ y < x).length + found.toList.length) := by
  fun_induction search s x with
  | case1 s s' h =>
    rw [toList_eq_nil h]
    rfl
  | case2 s y s' h hlt found taken hsearch ih =>
    obtain ⟨rfl, rfl⟩ := Prod.mk.inj (hsearch.symm.trans ih)
    rw [toList_eq_cons h, List.takeWhile_cons_of_pos (by simpa using hlt),
      List.find?_cons_of_neg (by simpa using hlt), List.length_cons]
    exact congrArg (Prod.mk _) (Nat.add_right_comm _ _ _)
  | case3 s y s' h hle =>
    rw [toList_eq_cons h, List.takeWhile_cons_of_neg (by simpa using hle),
      List.find?_cons_of_pos (by simpa using hle)]
    rfl

section Ascending

variable [IsOrderConnected α (· < ·)] {s : σ} (h : (toList s).Pairwise fun y z ↦ ¬ z < y) (x : α)

include h

theorem needed_eq : needed x (toList s) =
    ((toList s).takeWhile fun y ↦ y < x) ++ ((toList s).find? fun y ↦ ¬ y < x).toList := by
  have hmono : (toList s).Pairwise fun y z ↦ decide (z < x) = true → decide (y < x) = true := by
    refine h.imp fun {y z} hyz hz ↦ decide_eq_true ?_
    exact (IsOrderConnected.conn z y x (of_decide_eq_true hz)).resolve_left hyz
  rw [needed, takeWhile_eq_filter hmono]

theorem needed_prefix : needed x (toList s) <+: toList s := by
  have hprefix := takeWhile_append_find?_prefix (fun y ↦ decide (y < x)) (toList s)
  rw [needed_eq h x]
  simpa using hprefix

theorem pulls_eq_length_needed : pulls s x = (needed x (toList s)).length := by
  rw [needed_eq h x, List.length_append, pulls, search_eq]

theorem contains_iff_exists_same :
    contains s x = true ↔ ∃ y ∈ toList s, ¬ y < x ∧ ¬ x < y := by
  rw [contains, search_eq, Option.any_eq_true]
  constructor
  · rintro ⟨y, hy, hle⟩
    exact ⟨y, List.mem_of_find?_eq_some hy, by simpa using List.find?_some hy, by simpa using hle⟩
  · rintro ⟨z, hz, hzx, hxz⟩
    obtain ⟨y, hy⟩ : ∃ y, (toList s).find? (fun y ↦ ¬ y < x) = some y :=
      Option.isSome_iff_exists.1 (List.find?_isSome.2 ⟨z, hz, by simpa using hzx⟩)
    refine ⟨y, hy, decide_eq_true fun hxy ↦ ?_⟩
    obtain ⟨-, before, after, hlist, hbefore⟩ := List.find?_eq_some_iff_append.1 hy
    rw [hlist] at h hz
    -- no item before the first that is not smaller is the same
    obtain hz | hz := List.mem_append.1 hz
    · exact absurd (hbefore z hz) (by simpa using hzx)
    obtain rfl | hz := List.mem_cons.1 hz
    · exact hxz hxy
    · have hyz := List.rel_of_pairwise_cons (List.pairwise_append.1 h).2.1 hz
      exact (IsOrderConnected.conn x z y hxy).elim hxz hyz

end Ascending

end Source

instance {τ : Type} [LT τ] [Timeline τ] : IsOrderConnected τ (· < ·) where
  conn x y z h := by
    rw [Timeline.lt_iff] at *
    rw [Timeline.lt_iff (x := y)]
    omega

namespace Series

variable {τ : Type} [LT τ] [DecidableLT τ] [Instant τ] [Timeline τ] (s : Series τ) (x : τ)

theorem pairwise_toList_occurrences :
    (Source.toList s.occurrences).Pairwise fun y z ↦ ¬ z < y := by
  refine (Occurrences.pairwise_toList_ofRule s.rule s.anchor s.config none).imp fun {y z} h ↦ ?_
  rw [Timeline.lt_iff] at *
  omega

theorem contains_iff_exists_position : s.contains x = true ↔
    ∃ y ∈ Source.toList s.occurrences, Timeline.position y = Timeline.position x := by
  rw [contains, Source.contains_iff_exists_same s.pairwise_toList_occurrences]
  simp only [Timeline.lt_iff]
  refine exists_congr fun y ↦ and_congr_right fun _ ↦ ?_
  omega

theorem occursAt_eq_contains (rule : Rule) (anchor : τ) :
    rule.occursAt anchor x = ({ rule, anchor } : Series τ).contains x := by
  unfold Rule.occursAt
  split
  · rename_i hlt
    refine (Bool.eq_false_iff.2 fun hcontains ↦ ?_).symm
    obtain ⟨y, hy, hsame⟩ := (contains_iff_exists_position _ x).1 hcontains
    have hanchor : ¬ y < anchor :=
      Occurrences.not_lt_anchor_of_mem_toList_ofRule rule anchor {} none hy
    rw [Timeline.lt_iff] at *
    omega
  · rfl

end Series

/-- An instant is found among the occurrences of a rule exactly if it is one of them, whatever zone
it is seen in. So it is in any source that does not descend, and there nothing is taken but what
is needed; items of which neither is smaller are the same. -/
theorem contains_iff_mem_occurrences :
    (∀ (rule : Rule) (config : Config) (anchor x : DateTime),
      let s : Series DateTime := ⟨rule, anchor, config⟩
      (s.contains x = true ↔ x ∈ Source.toList s.occurrences) ∧
        rule.occursAt anchor x = ({ rule, anchor } : Series DateTime).contains x) ∧
    (∀ (rule : Rule) (config : Config) (anchor x : Zoned),
      let s : Series Zoned := ⟨rule, anchor, config⟩
      (s.contains x = true ↔
        ∃ y ∈ Source.toList s.occurrences, y.timestamp = x.timestamp) ∧
        rule.occursAt anchor x = ({ rule, anchor } : Series Zoned).contains x) ∧
    ∀ (σ α : Type) [Source σ α] [LT α] [DecidableLT α] [IsOrderConnected α (· < ·)] (s : σ) (x : α),
      (Source.toList s).Pairwise (fun y z ↦ ¬ z < y) →
        (Source.contains s x = true ↔ ∃ y ∈ Source.toList s, ¬ y < x ∧ ¬ x < y) ∧
          Source.needed x (Source.toList s) <+: Source.toList s ∧
          Source.pulls s x = (Source.needed x (Source.toList s)).length := by
  refine ⟨fun rule config anchor x ↦ ⟨?_, Series.occursAt_eq_contains x rule anchor⟩,
    fun rule config anchor x ↦ ⟨?_, Series.occursAt_eq_contains x rule anchor⟩,
    fun σ α _ _ _ _ s x h ↦ ⟨Source.contains_iff_exists_same h x, Source.needed_prefix h x,
      Source.pulls_eq_length_needed h x⟩⟩
  · rw [Series.contains_iff_exists_position]
    refine ⟨fun ⟨y, hy, hsame⟩ ↦ ?_, fun hx ↦ ⟨x, hx, rfl⟩⟩
    rwa [← DateTime.position_inj.1 hsame]
  · rw [Series.contains_iff_exists_position]
    refine exists_congr fun y ↦ and_congr_right fun _ ↦ ?_
    rw [Timestamp.mk.injEq]
    rfl

theorem contains_iff_mem_occurrences_threes :
    let ys : List Nat := [1, 3, 3, 7]
    (Source.toList ys).Pairwise (fun y z ↦ ¬ z < y) ∧ Source.contains ys 3 = true ∧
      Source.pulls ys 3 = 2 := by
  intro ys
  have hys : Source.toList ys = ys := Source.toList_list ys
  have hascends : (Source.toList ys).Pairwise fun y z ↦ ¬ z < y := by
    rw [hys]
    decide
  obtain ⟨hcontains, -, hpulls⟩ :=
    contains_iff_mem_occurrences.2.2 (List Nat) Nat ys 3 hascends
  rw [hys] at hcontains hpulls
  exact ⟨hascends, hcontains.2 ⟨3, by decide, by decide⟩, hpulls.trans (by decide)⟩

end Recurrence
