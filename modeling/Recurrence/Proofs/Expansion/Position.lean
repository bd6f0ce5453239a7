import Mathlib.Data.List.Sort
import Recurrence.Expansion.Position

namespace Recurrence

section EraseReps

variable {α : Type} [BEq α] [LawfulBEq α]

theorem mem_eraseReps_loop {xs acc : List α} {a x : α} :
    x ∈ List.eraseRepsBy.loop (· == ·) a xs acc ↔ x ∈ acc ∨ x = a ∨ x ∈ xs := by
  induction xs generalizing a acc with
  | nil => simp [List.eraseRepsBy.loop, or_comm]
  | cons b xs ih =>
    rw [List.eraseRepsBy.loop]
    split
    · rename_i hab
      obtain rfl := beq_iff_eq.1 hab
      simp [ih]
    · simp only [ih, List.mem_cons]
      tauto

theorem mem_eraseReps {xs : List α} {x : α} : x ∈ xs.eraseReps ↔ x ∈ xs := by
  cases xs with
  | nil => rfl
  | cons a xs => simp [List.eraseReps, List.eraseRepsBy, mem_eraseReps_loop]

variable [LinearOrder α]

theorem pairwise_eraseReps_loop {xs acc : List α} {a : α} (h : (a :: xs).Pairwise (· ≤ ·))
    (hacc : (a :: acc).Pairwise (· > ·)) :
    (List.eraseRepsBy.loop (· == ·) a xs acc).Pairwise (· < ·) := by
  induction xs generalizing a acc with
  | nil => exact List.pairwise_reverse.2 hacc
  | cons b xs ih =>
    rw [List.eraseRepsBy.loop]
    obtain ⟨hab, hb⟩ := List.pairwise_cons.1 h
    split
    · rename_i heq
      obtain rfl := beq_iff_eq.1 heq
      exact ih hb hacc
    · rename_i hne
      have hlt : a < b := lt_of_le_of_ne (hab b List.mem_cons_self) fun e ↦ by simp [e] at hne
      refine ih hb (List.pairwise_cons.2 ⟨fun c hc ↦ ?_, hacc⟩)
      obtain rfl | hc := List.mem_cons.1 hc
      · exact hlt
      · exact ((List.pairwise_cons.1 hacc).1 c hc).trans hlt

theorem pairwise_eraseReps {xs : List α} (h : xs.Pairwise (· ≤ ·)) :
    xs.eraseReps.Pairwise (· < ·) := by
  cases xs with
  | nil => exact .nil
  | cons a xs => exact pairwise_eraseReps_loop h (List.pairwise_singleton _ _)

end EraseReps

namespace Position

variable {α β : Type}

/-- Whether the item in place `i`, counted from 1, of so many items has one of the positions. -/
def IsPicked (positions : List Int) (length i : Nat) : Prop :=
  (i : Int) ∈ positions ∨ (i : Int) - length - 1 ∈ positions

instance (positions : List Int) (length i : Nat) : Decidable (IsPicked positions length i) :=
  inferInstanceAs (Decidable (_ ∨ _))

theorem resolve?_eq_some_iff {n : Int} {length i : Nat} :
    resolve? n length = some i ↔
      1 ≤ i ∧ i ≤ length ∧ ((i : Int) = n ∨ (i : Int) - length - 1 = n) := by
  simp only [resolve?]
  split <;> split <;> simp only [Option.some.injEq, reduceCtorEq, false_iff] <;> omega

theorem resolve?_eq_none_of_le {n : Int} {length length' : Nat} (h : length' ≤ length)
    (hn : resolve? n length = none) : resolve? n length' = none := by
  simp only [resolve?, ite_eq_right_iff, reduceCtorEq, imp_false] at *
  split at * <;> omega

def places (positions : List Int) (length : Nat) : List Nat :=
  ((positions.filterMap (resolve? · length)).mergeSort).eraseReps

theorem select_eq (positions : List Int) (items : List α) :
    select positions items = (places positions items.length).filterMap fun p ↦ items[p - 1]? :=
  rfl

theorem mem_places {positions : List Int} {length i : Nat} :
    i ∈ places positions length ↔ 1 ≤ i ∧ i ≤ length ∧ IsPicked positions length i := by
  simp only [places, mem_eraseReps, List.mem_mergeSort, List.mem_filterMap, resolve?_eq_some_iff,
    IsPicked]
  constructor
  · rintro ⟨n, hn, h₁, h₂, rfl | rfl⟩
    · exact ⟨h₁, h₂, .inl hn⟩
    · exact ⟨h₁, h₂, .inr hn⟩
  · rintro ⟨h₁, h₂, h | h⟩
    · exact ⟨_, h, h₁, h₂, .inl rfl⟩
    · exact ⟨_, h, h₁, h₂, .inr rfl⟩

theorem places_eq (positions : List Int) (length : Nat) :
    places positions length =
      (List.range' 1 length).filter fun i ↦ IsPicked positions length i := by
  have hsorted : ((positions.filterMap (resolve? · length)).mergeSort).Pairwise (· ≤ ·) :=
    List.pairwise_mergeSort' (· ≤ ·) _
  refine List.Pairwise.eq_of_mem_iff (r := (· < ·)) (pairwise_eraseReps hsorted)
    ((List.pairwise_lt_range' ..).filter _) fun i ↦ ?_
  rw [mem_places, List.mem_filter, List.mem_range'_1, decide_eq_true_eq, and_assoc,
    Nat.lt_one_add_iff]

theorem filterMap_filter_range' (items : List α) (q : Nat → Bool) (k : Nat) (get : Nat → Option α)
    (hget : ∀ j, get (k + j) = items[j]?) :
    ((List.range' k items.length).filter q).filterMap get =
      ((items.zipIdx k).filter fun x ↦ q x.2).map (·.1) := by
  induction items generalizing k with
  | nil => rfl
  | cons x items ih =>
    have hx : get k = some x := hget 0
    have hrest := ih (k + 1) fun j ↦ by
      rw [Nat.add_right_comm]
      exact hget (j + 1)
    rw [List.length_cons, List.range'_succ, List.zipIdx_cons, List.filter_cons, List.filter_cons]
    cases q k
    · simpa using hrest
    · simpa [hx] using hrest

theorem select_eq_filter (positions : List Int) (items : List α) :
    select positions items =
      ((items.zipIdx 1).filter fun x ↦ IsPicked positions items.length x.2).map (·.1) := by
  rw [select_eq, places_eq]
  refine filterMap_filter_range' items _ 1 _ fun j ↦ ?_
  rw [Nat.add_sub_cancel_left]

theorem select_sublist (positions : List Int) (items : List α) :
    (select positions items).Sublist items := by
  rw [select_eq_filter]
  have h := (List.filter_sublist (l := items.zipIdx 1)
    (p := fun x ↦ IsPicked positions items.length x.2)).map Prod.fst
  rwa [List.zipIdx_map_fst] at h

theorem select_map (positions : List Int) (items : List α) (f : α → β) :
    select positions (items.map f) = (select positions items).map f := by
  simp only [select_eq, List.length_map, List.getElem?_map, List.map_filterMap]

theorem select_eq_nil_iff {positions : List Int} {items : List α} :
    select positions items = [] ↔ ∀ n ∈ positions, resolve? n items.length = none := by
  constructor
  · intro h n hn
    by_contra hne
    obtain ⟨i, hi⟩ := Option.ne_none_iff_exists'.1 hne
    obtain ⟨h₁, h₂, hpos⟩ := resolve?_eq_some_iff.1 hi
    have hmem : items[i - 1] ∈ select positions items := by
      rw [select_eq, List.mem_filterMap]
      refine ⟨i, mem_places.2 ⟨h₁, h₂, ?_⟩, List.getElem?_eq_getElem (by omega)⟩
      obtain rfl | rfl := hpos
      · exact .inl hn
      · exact .inr hn
    rw [h] at hmem
    exact List.not_mem_nil hmem
  · intro h
    have hnil : positions.filterMap (resolve? · items.length) = [] :=
      List.filterMap_eq_nil_iff.2 h
    rw [select_eq, places, hnil, List.mergeSort_nil]
    rfl

end Position

end Recurrence
