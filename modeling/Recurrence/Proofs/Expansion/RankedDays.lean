import Recurrence.Proofs.Expansion.Rank

namespace Recurrence.Date

variable {d e : Date} {scope : RankScope} {w : Weekday} {before after : List Date}

/-- The days of a weekday in the month or year of `d`. -/
def onWeekday (d : Date) (scope : RankScope) (w : Weekday) : List Date :=
  all.filter fun e ↦ e.IsWithin d scope ∧ e.weekday = w

theorem mem_onWeekday : e ∈ d.onWeekday scope w ↔ e.IsWithin d scope ∧ e.weekday = w := by
  rw [onWeekday, List.mem_filter, decide_eq_true_eq]
  exact and_iff_right (mem_all e)

theorem pairwise_onWeekday : (d.onWeekday scope w).Pairwise fun d e ↦ d.number < e.number :=
  pairwise_all.filter _

theorem isWithin_congr (h : e.IsWithin d scope) (x : Date) :
    x.IsWithin e scope ↔ x.IsWithin d scope := by
  cases scope with
  | month =>
    obtain ⟨hyear, hmonth⟩ := h
    rw [IsWithin, IsWithin, hyear, hmonth]
  | year =>
    have hyear : e.year = d.year := h
    rw [IsWithin, IsWithin, hyear]

theorem countP_onWeekday (h : e ∈ d.onWeekday scope w) (p : Date → Prop) [DecidablePred p] :
    all.countP (fun x ↦ (x.IsWithin e scope ∧ p x) ∧ x.weekday = e.weekday) =
      (d.onWeekday scope w).countP p := by
  obtain ⟨hwithin, rfl⟩ := mem_onWeekday.1 h
  rw [onWeekday, List.countP_filter]
  refine List.countP_congr fun x _ ↦ ?_
  rw [← Bool.decide_and, decide_eq_true_iff, decide_eq_true_iff, isWithin_congr hwithin, and_assoc,
    and_left_comm]

theorem ranks_of_eq_append (h : d.onWeekday scope w = before ++ e :: after) :
    e.rank scope = before.length + 1 ∧ e.rankFromEnd scope = after.length + 1 := by
  have hmem : e ∈ d.onWeekday scope w := h ▸ List.mem_append_right _ List.mem_cons_self
  have hascends : (d.onWeekday scope w).Pairwise fun d e ↦ d.number < e.number :=
    pairwise_onWeekday
  rw [h, List.pairwise_append, List.pairwise_cons] at hascends
  obtain ⟨-, ⟨hafter, -⟩, hbefore⟩ := hascends
  have hself : decide (e ≤ e) = true := decide_eq_true (Int.le_refl _)
  constructor
  · have hbefore : before.countP (· ≤ e) = before.length := List.countP_eq_length.2 fun x hx ↦
      decide_eq_true (Int.le_of_lt (hbefore x hx e List.mem_cons_self))
    have hafter : after.countP (· ≤ e) = 0 := List.countP_eq_zero.2 fun x hx hle ↦
      Int.not_le.2 (hafter x hx) (of_decide_eq_true hle)
    have hcons : (e :: after).countP (· ≤ e) = after.countP (· ≤ e) + 1 :=
      List.countP_cons_of_pos hself
    rw [rank, countP_onWeekday hmem (· ≤ e), h, List.countP_append, hcons, hbefore, hafter]
  · have hbefore : before.countP (e ≤ ·) = 0 := List.countP_eq_zero.2 fun x hx hle ↦
      Int.not_le.2 (hbefore x hx e List.mem_cons_self) (of_decide_eq_true hle)
    have hafter : after.countP (e ≤ ·) = after.length := List.countP_eq_length.2 fun x hx ↦
      decide_eq_true (Int.le_of_lt (hafter x hx))
    have hcons : (e :: after).countP (e ≤ ·) = after.countP (e ≤ ·) + 1 :=
      List.countP_cons_of_pos hself
    rw [rankFromEnd, countP_onWeekday hmem (e ≤ ·), h, List.countP_append, hcons, hbefore, hafter,
      Nat.zero_add]

theorem hasRank_iff_of_eq_append {n : Int} (h : d.onWeekday scope w = before ++ e :: after) :
    e.HasRank n scope ↔ n = before.length + 1 ∨ n = -(after.length + 1 : Int) := by
  obtain ⟨hrank, hrankFromEnd⟩ := ranks_of_eq_append h
  rw [hasRank_iff_rank, hrank, hrankFromEnd, Nat.cast_succ, Nat.cast_succ]

theorem eq_of_hasRank {e' : Date} {n : Int} (he : e ∈ d.onWeekday scope w)
    (he' : e' ∈ d.onWeekday scope w) (h : e.HasRank n scope) (h' : e'.HasRank n scope) :
    e = e' := by
  obtain ⟨before, after, hsplit⟩ := List.append_of_mem he
  obtain ⟨before', after', hsplit'⟩ := List.append_of_mem he'
  rw [hasRank_iff_of_eq_append hsplit] at h
  rw [hasRank_iff_of_eq_append hsplit'] at h'
  rw [hsplit] at hsplit'
  have hlength := congrArg List.length hsplit'
  simp only [List.length_append, List.length_cons] at hlength
  exact (List.cons.inj (List.append_inj hsplit' (by omega)).2).1

theorem exists_hasRank {n : Int} (hpos : 1 ≤ n) (hle : n ≤ (d.onWeekday scope w).length) :
    ∃ e ∈ d.onWeekday scope w,
      e.HasRank n scope ∧ e.HasRank (n - (d.onWeekday scope w).length - 1) scope := by
  obtain ⟨i, rfl⟩ : ∃ i : Nat, n = i + 1 := ⟨(n - 1).toNat, by omega⟩
  have hi : i < (d.onWeekday scope w).length := by omega
  have hsplit : d.onWeekday scope w = (d.onWeekday scope w).take i ++
      (d.onWeekday scope w)[i] :: (d.onWeekday scope w).drop (i + 1) := by
    rw [← List.drop_eq_getElem_cons hi, List.take_append_drop]
  refine ⟨(d.onWeekday scope w)[i], List.getElem_mem hi, ?_⟩
  rw [hasRank_iff_of_eq_append hsplit, hasRank_iff_of_eq_append hsplit, List.length_take,
    List.length_drop]
  omega

/-- A positive rank counts the days of the weekday up to a day, a negative one those from it on. So
a month or year has at most one day of a weekday with a given rank, and with `k` such days the ranks
`n` and `n - k - 1` are those of the same day. -/
theorem hasRank_iff_counted (scope : RankScope) :
    (∀ (d : Date) (n : Int), d.HasRank n scope ↔
      0 < n ∧ n = d.rank scope ∨ n < 0 ∧ -n = d.rankFromEnd scope) ∧
    ∀ (d : Date) (w : Weekday) (n : Int),
      (∀ e ∈ d.onWeekday scope w, ∀ e' ∈ d.onWeekday scope w,
        e.HasRank n scope → e'.HasRank n scope → e = e') ∧
      (1 ≤ n → n ≤ (d.onWeekday scope w).length → ∃ e ∈ d.onWeekday scope w,
        ∀ e' ∈ d.onWeekday scope w, (e'.HasRank n scope ↔ e' = e) ∧
          (e'.HasRank (n - (d.onWeekday scope w).length - 1) scope ↔ e' = e)) := by
  constructor
  · intro d n
    have hrank : d.rank scope = _ := rank_eq
    have hrankFromEnd : d.rankFromEnd scope = _ := rankFromEnd_eq
    rw [hasRank_iff_rank]
    omega
  · intro d w n
    refine ⟨fun e he e' he' h h' ↦ eq_of_hasRank he he' h h', fun hpos hle ↦ ?_⟩
    obtain ⟨e, he, hstart, hend⟩ := exists_hasRank hpos hle
    refine ⟨e, he, fun e' he' ↦ ⟨⟨fun h ↦ eq_of_hasRank he' he h hstart, ?_⟩,
      ⟨fun h ↦ eq_of_hasRank he' he h hend, ?_⟩⟩⟩
    · rintro rfl
      exact hstart
    · rintro rfl
      exact hend

theorem length_onWeekday (h : e ∈ d.onWeekday scope w) :
    (d.onWeekday scope w).length + 1 = e.rank scope + e.rankFromEnd scope := by
  obtain ⟨before, after, hsplit⟩ := List.append_of_mem h
  obtain ⟨hrank, hrankFromEnd⟩ := ranks_of_eq_append hsplit
  rw [hrank, hrankFromEnd, hsplit, List.length_append, List.length_cons]
  omega

/-- March 2025 has five Sundays, so that the fifth is the last. -/
theorem hasRank_iff_counted_sundays :
    let d : Date := ⟨739310, by decide, by decide⟩
    let sundays := d.onWeekday .month .sunday
    sundays.length = 5 ∧ ∃ e ∈ sundays, ∀ e' ∈ sundays,
      (e'.HasRank 5 .month ↔ e' = e) ∧ (e'.HasRank (-1) .month ↔ e' = e) := by
  intro d sundays
  let first : Date := ⟨739311, by decide, by decide⟩
  have hfirst : first ∈ d.onWeekday .month .sunday := mem_onWeekday.2 (by decide)
  have hranks : first.rank .month + first.rankFromEnd .month = 6 := by
    rw [rank_eq, rankFromEnd_eq]
    decide
  have hlength : (d.onWeekday .month .sunday).length = 5 := by
    have hsum := length_onWeekday hfirst
    omega
  have h := ((hasRank_iff_counted .month).2 d .sunday 5).2 (by decide) (by omega)
  rw [hlength] at h
  exact ⟨hlength, h⟩

end Recurrence.Date
