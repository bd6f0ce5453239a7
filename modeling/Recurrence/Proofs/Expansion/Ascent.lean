import Mathlib.Data.List.Sort
import Mathlib.Data.List.TakeWhile
import Recurrence.Proofs.Expansion.Stream

namespace Recurrence

theorem takeWhile_eq_filter {α : Type} {p : α → Bool} {xs : List α}
    (h : xs.Pairwise fun x y ↦ p y = true → p x = true) : xs.takeWhile p = xs.filter p := by
  induction xs with
  | nil => rfl
  | cons x xs ih =>
    obtain ⟨hx, hxs⟩ := List.pairwise_cons.1 h
    by_cases hp : p x = true
    · rw [List.takeWhile_cons_of_pos hp, List.filter_cons_of_pos hp, ih hxs]
    · rw [List.takeWhile_cons_of_neg hp, List.filter_cons_of_neg hp]
      exact (List.filter_eq_nil_iff.2 fun y hy hpy ↦ hp (hx y hy hpy)).symm

theorem admitted_sublist {α : Type} (bound : Option Nat) (used : Nat) (xs : List α) :
    (admitted bound used xs).Sublist xs := by
  cases bound with
  | none => exact .refl xs
  | some n => exact List.take_sublist _ xs

section Rising

variable {τ : Type} [LT τ] [DecidableLT τ]

theorem rising_sublist (last : Option τ) (xs : List τ) : (rising last xs).Sublist xs := by
  induction xs generalizing last with
  | nil => exact .slnil
  | cons x xs ih =>
    rw [rising]
    split
    · exact (ih last).cons x
    · exact (ih (some x)).cons_cons x

theorem rising_eq_self {last : Option τ} {xs : List τ}
    (h : xs.Pairwise (· < ·)) (hlast : ∀ l ∈ last, ∀ x ∈ xs, l < x) : rising last xs = xs := by
  induction xs generalizing last with
  | nil => rfl
  | cons x xs ih =>
    obtain ⟨hx, hxs⟩ := List.pairwise_cons.1 h
    have hrises : ¬ (last.any fun l ↦ ¬ l < x) = true := by
      intro hany
      obtain ⟨l, hl, hlx⟩ := (Option.any_eq_true _ _).1 hany
      exact of_decide_eq_true hlx (hlast l hl x List.mem_cons_self)
    rw [rising, if_neg hrises, ih hxs]
    intro l hl y hy
    obtain rfl := Option.mem_some.1 hl
    exact hx y hy

section Transitive

variable [IsTrans τ (· < ·)]

theorem lt_of_mem_rising {last : Option τ} {xs : List τ} {l x : τ} (hl : l ∈ last)
    (hx : x ∈ rising last xs) : l < x := by
  induction xs generalizing last l with
  | nil => cases hx
  | cons y xs ih =>
    obtain rfl := Option.mem_def.1 hl
    rw [rising] at hx
    split at hx
    · exact ih rfl hx
    · rename_i hly
      have hly : l < y := by simpa using hly
      obtain rfl | hx := List.mem_cons.1 hx
      · exact hly
      · exact IsTrans.trans l y x hly (ih (Option.mem_some_self y) hx)

theorem pairwise_rising (last : Option τ) (xs : List τ) : (rising last xs).Pairwise (· < ·) := by
  induction xs generalizing last with
  | nil => exact .nil
  | cons x xs ih =>
    rw [rising]
    split
    · exact ih last
    · exact List.pairwise_cons.2
        ⟨fun y hy ↦ lt_of_mem_rising (Option.mem_some_self x) hy, ih (some x)⟩

end Transitive

theorem mem_rising {xs : List τ} (hxs : xs.Pairwise fun x y ↦ ¬ y < x)
    (heq : ∀ x ∈ xs, ∀ y ∈ xs, ¬ x < y → ¬ y < x → x = y) {last : Option τ} {x : τ} (hx : x ∈ xs)
    (hlast : ∀ l ∈ last, l < x) : x ∈ rising last xs := by
  induction xs generalizing last with
  | nil => cases hx
  | cons y xs ih =>
    obtain ⟨hy, hxs'⟩ := List.pairwise_cons.1 hxs
    have ih := @ih hxs' fun a ha b hb ↦
      heq a (List.mem_cons_of_mem y ha) b (List.mem_cons_of_mem y hb)
    rw [rising]
    split
    · rename_i hly
      obtain ⟨l, hl, hly⟩ := (Option.any_eq_true _ _).1 hly
      have hly : ¬ l < y := of_decide_eq_true hly
      obtain rfl | hx := List.mem_cons.1 hx
      · exact absurd (hlast l hl) hly
      · exact ih hx hlast
    · by_cases hyx : y < x
      · obtain rfl | hx := List.mem_cons.1 hx
        · exact List.mem_cons_self
        · refine List.mem_cons_of_mem y (ih hx fun l hl ↦ ?_)
          obtain rfl := Option.mem_some.1 hl
          exact hyx
      · have hxy : ¬ x < y := by
          obtain rfl | hx := List.mem_cons.1 hx
          · exact hyx
          · exact hy x hx
        rw [heq x hx y List.mem_cons_self hxy hyx]
        exact List.mem_cons_self

end Rising

namespace Search

variable {τ : Type} [LT τ] [DecidableLT τ] [Instant τ] (s : Search τ)

def ascent (n : Nat) : List τ :=
  (rising none ((s.stream n).filter fun x ↦ ¬ x < s.anchor)).takeWhile fun x ↦ !s.exceedsBound x

variable {s} {n : Nat} {x : τ}

theorem sieve_sublist_rising (c : Cursor τ) (xs : List τ) :
    (s.sieve c xs).Sublist (rising c.last (xs.filter fun x ↦ ¬ x < s.anchor)) :=
  (admitted_sublist _ _ _).trans <| List.filter_sublist.trans <|
    (List.takeWhile_sublist _).trans <| (admitted_sublist _ _ _).trans <| List.takeWhile_sublist _

theorem pairwise_sieve [IsTrans τ (· < ·)] (c : Cursor τ) (xs : List τ) :
    (s.sieve c xs).Pairwise (· < ·) :=
  (pairwise_rising c.last _).sublist (sieve_sublist_rising c xs)

theorem of_mem_sieve {c : Cursor τ} {xs : List τ} (hx : x ∈ s.sieve c xs) :
    ¬ x < s.anchor ∧ ¬ s.exceedsBound x = true ∧ ¬ s.isPastWindow x = true ∧
      ¬ s.isBeforeWindow x = true := by
  obtain ⟨hx, hbefore⟩ := List.mem_filter.1 ((admitted_sublist _ _ _).subset hx)
  have hpast := List.mem_takeWhile_imp hx
  have hx := (admitted_sublist _ _ _).subset ((List.takeWhile_sublist _).subset hx)
  have hbound := List.mem_takeWhile_imp hx
  have hx := (rising_sublist _ _).subset ((List.takeWhile_sublist _).subset hx)
  have hanchor := (List.mem_filter.1 hx).2
  exact ⟨by simpa using hanchor, by simpa using hbound, by simpa using hpast,
    by simpa using hbefore⟩

theorem sieve_before (n : Nat) (xs : List τ) :
    s.sieve (.before n) xs = admitted s.limit 0 (((admitted s.rule.count 0
      ((rising none (xs.filter fun x ↦ ¬ x < s.anchor)).takeWhile
        fun x ↦ !s.exceedsBound x)).takeWhile
          fun x ↦ !s.isPastWindow x).filter fun x ↦ !s.isBeforeWindow x) :=
  rfl

theorem sieve_before_of_no_window (hwindow : s.window = none) (n : Nat) (xs : List τ) :
    s.sieve (.before n) xs = admitted s.limit 0 (admitted s.rule.count 0
      ((rising none (xs.filter fun x ↦ ¬ x < s.anchor)).takeWhile fun x ↦ !s.exceedsBound x)) := by
  have hpast (x : τ) : (!s.isPastWindow x) = true := by simp [isPastWindow, hwindow]
  have hbefore (x : τ) : (!s.isBeforeWindow x) = true := by simp [isBeforeWindow, hwindow]
  rw [sieve_before, List.takeWhile_eq_self_iff.2 fun x _ ↦ hpast x,
    List.filter_eq_self.2 fun x _ ↦ hbefore x]

theorem pairwise_ascent [IsTrans τ (· < ·)] (n : Nat) : (s.ascent n).Pairwise (· < ·) :=
  (pairwise_rising none _).sublist (List.takeWhile_sublist _)

variable (hs : s.FromAnchor) (ha : KeepsOrder s.anchor)

include hs ha

omit [DecidableLT τ] in
theorem pairwise_stream (n : Nat) : (s.stream n).Pairwise fun x y ↦
    ¬ y < x ∧ (s.exceedsBound x = true → s.exceedsBound y = true) := by
  have htime : ∀ r ∈ s.readings n, r = ⟨r.date, (Instant.wallClock s.anchor).time⟩ := by
    intro r hr
    rw [← hs.time, ← time_of_mem_readings hr]
  refine List.pairwise_filterMap.2
    ((pairwise_readings n).imp_of_mem fun {r r'} hr hr' hlt x hx y hy ↦ ?_)
  rw [htime r hr] at hx
  rw [htime r' hr'] at hy
  refine ⟨ha.not_lt (.inr rfl) (Int.le_of_lt hlt) hx hy, fun hexceeds ↦ ?_⟩
  obtain ⟨bound, hbound, hexceeds⟩ := (Option.any_eq_true _ _).1 hexceeds
  exact (Option.any_eq_true _ _).2
    ⟨bound, hbound, ha.exceeds bound (.inr rfl) (Int.le_of_lt hlt) hx hy hexceeds⟩

theorem mem_ascent [Timeline τ] :
    x ∈ s.ascent n ↔ x ∈ s.stream n ∧ ¬ x < s.anchor ∧ ¬ s.exceedsBound x = true := by
  have hstream := pairwise_stream hs ha n
  have hrising : (rising none ((s.stream n).filter fun x ↦ ¬ x < s.anchor)).Pairwise fun x y ↦
      (!s.exceedsBound y) = true → (!s.exceedsBound x) = true := by
    refine (hstream.sublist ((rising_sublist _ _).trans List.filter_sublist)).imp
      fun {x y} h hy ↦ ?_
    by_contra hx
    have hx : s.exceedsBound x = true := by simpa using hx
    simp [h.2 hx] at hy
  have hsorted : ((s.stream n).filter fun x ↦ ¬ x < s.anchor).Pairwise fun x y ↦ ¬ y < x :=
    (hstream.sublist List.filter_sublist).imp And.left
  have heq : ∀ x ∈ (s.stream n).filter fun x ↦ ¬ x < s.anchor,
      ∀ y ∈ (s.stream n).filter fun x ↦ ¬ x < s.anchor, ¬ x < y → ¬ y < x → x = y := by
    intro x hx y hy
    obtain ⟨r, _, hx⟩ := mem_stream.1 (List.mem_of_mem_filter hx)
    obtain ⟨r', _, hy⟩ := mem_stream.1 (List.mem_of_mem_filter hy)
    exact ha.eq_of_not_lt hx hy
  rw [ascent, takeWhile_eq_filter hrising, List.mem_filter]
  constructor
  · rintro ⟨hx, hbound⟩
    obtain ⟨hx, hanchor⟩ := List.mem_filter.1 ((rising_sublist _ _).subset hx)
    exact ⟨hx, by simpa using hanchor, by simpa using hbound⟩
  · rintro ⟨hx, hanchor, hbound⟩
    refine ⟨mem_rising hsorted heq ?_ (by simp), by simpa using hbound⟩
    exact List.mem_filter.2 ⟨hx, by simpa using hanchor⟩

end Search

namespace Occurrences

variable {τ : Type} [LT τ] [DecidableLT τ] [Instant τ] (rule : Rule) (anchor : τ) (config : Config)
  (limit : Option Nat)

theorem toList_ofRule_eq_sieve : ∃ xs, Source.toList (ofRule rule anchor config limit) =
    ({ Search.start rule anchor config with limit := limit } : Search τ).sieve (.before 0) xs :=
  ⟨_, toList_eq_rest _ (.before 0) (Nat.zero_le _)⟩

theorem not_lt_anchor_of_mem_toList_ofRule {x : τ}
    (hx : x ∈ Source.toList (ofRule rule anchor config limit)) : ¬ x < anchor := by
  obtain ⟨xs, hxs⟩ := toList_ofRule_eq_sieve rule anchor config limit
  exact (Search.of_mem_sieve (hxs ▸ hx)).1

/-- Occurrences ascend, for what is not after the last one is passed over. -/
theorem pairwise_toList_ofRule [IsTrans τ (· < ·)] :
    (Source.toList (ofRule rule anchor config limit)).Pairwise (· < ·) := by
  obtain ⟨xs, hxs⟩ := toList_ofRule_eq_sieve rule anchor config limit
  exact hxs ▸ Search.pairwise_sieve _ _

end Occurrences

end Recurrence
