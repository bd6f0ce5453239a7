import Recurrence.Proofs.Expansion.Meaning
import Recurrence.Proofs.Expansion.Truncation

namespace Recurrence

namespace RuleData

variable {r : RuleData} {a d e : Date}

theorem isLikeAnchor_iff_of_isLikeAnchor (h : r.IsLikeAnchor a d) :
    r.IsLikeAnchor d e ↔ r.IsLikeAnchor a e := by
  unfold IsLikeAnchor at *
  cases hfreq : r.freq with
  | daily => simp
  | weekly =>
    simp only [hfreq] at h ⊢
    rw [h]
  | monthly =>
    simp only [hfreq] at h ⊢
    rw [h]
  | yearly =>
    simp only [hfreq] at h ⊢
    rw [h.1]
    refine and_congr_right fun _ ↦ imp_congr_right fun hnone ↦ ?_
    rw [h.2 hnone]

theorem keeps_iff_of_keeps (h : r.Keeps a d) : r.Keeps d e ↔ r.Keeps a e := by
  have hlike := h.2.2.2.2
  unfold Keeps
  refine and_congr_right fun _ ↦ and_congr_right fun _ ↦ and_congr_right fun _ ↦
    and_congr_right fun _ ↦ imp_congr_right fun hnone ↦ ?_
  exact isLikeAnchor_iff_of_isLikeAnchor (hlike hnone)

end RuleData

theorem DateTime.date_le_of_le {x y : DateTime} (h : x ≤ y) : x.date.number ≤ y.date.number := by
  rw [le_iff_not_lt, lt_iff_date_lt_or_time_lt] at h
  exact Int.not_lt.1 fun hlt ↦ h (.inl hlt)

namespace Rule

variable {r : Rule} {a d e : Date} {m n : Nat}

theorem of_mem_picked (h : d ∈ r.picked a n) :
    d.IsUnitsAfter r.freq (n * r.interval) a ∧ r.Keeps a d := by
  have hdays : d ∈ Date.all.filter fun d ↦
      d.IsUnitsAfter r.freq (n * r.interval) a ∧ r.Keeps a d := by
    unfold picked at h
    split at h
    · exact h
    · obtain ⟨⟨e, i⟩, he, rfl⟩ := List.mem_map.1 h
      exact List.fst_mem_of_mem_zipIdx (List.mem_of_mem_filter he)
  exact of_decide_eq_true (List.mem_filter.1 hdays).2

/-- The periods from a picked day on are those from the anchor on, but for the ones before it. -/
theorem picked_of_mem_picked (h : d ∈ r.picked a n) (k : Nat) :
    r.picked d k = r.picked a (n + k) := by
  obtain ⟨hunit, hkeeps⟩ := of_mem_picked h
  have hdays (e : Date) : (e.IsUnitsAfter r.freq (k * r.interval) d ∧ r.Keeps d e) ↔
      (e.IsUnitsAfter r.freq ((n + k) * r.interval) a ∧ r.Keeps a e) := by
    rw [RuleData.keeps_iff_of_keeps hkeeps]
    rw [Frequency.isUnitsAfter_iff] at hunit
    rw [Frequency.isUnitsAfter_iff, Frequency.isUnitsAfter_iff, hunit, Nat.add_mul, Nat.cast_add,
      Int.add_assoc]
  simp only [picked, hdays]

theorem le_of_mem_picked (hd : d ∈ r.picked a n) (he : e ∈ r.picked a m)
    (hde : d.number ≤ e.number) : n ≤ m := by
  have hd := Frequency.isUnitsAfter_iff.1 (of_mem_picked hd).1
  have he := Frequency.isUnitsAfter_iff.1 (of_mem_picked he).1
  have hle := r.freq.unitOf_mono hde
  rw [hd, he] at hle
  exact Nat.le_of_mul_le_mul_right (by omega) r.interval_pos

end Rule

namespace Search

variable {rule : Rule} {anchor x : DateTime}

theorem mem_candidates_floating {n : Nat} :
    x ∈ (start rule anchor {}).candidates n ↔
      x.date ∈ rule.picked anchor.date n ∧ x.time = anchor.time := by
  rw [candidates_eq_picked, List.mem_map]
  constructor
  · rintro ⟨d, hd, rfl⟩
    exact ⟨hd, rfl⟩
  · rintro ⟨hd, htime⟩
    exact ⟨x.date, hd, by rw [← htime]⟩

theorem mem_stream_floating (hyear : -9998 ≤ anchor.date.year) :
    x ∈ (start rule anchor {}).stream 0 ↔
      (∃ n, x.date ∈ rule.picked anchor.date n) ∧ x.time = anchor.time := by
  constructor
  · intro hx
    obtain ⟨r, hr, hrx⟩ := mem_stream.1 hx
    obtain rfl := Option.some.inj hrx
    obtain ⟨n, -, -, hn⟩ := mem_readings.1 hr
    obtain ⟨hdate, htime⟩ := mem_candidates_floating.1 hn
    exact ⟨⟨n, hdate⟩, htime⟩
  · rintro ⟨⟨n, hn⟩, htime⟩
    have hstart : ((start rule anchor {}).periods.start? n).isSome := by
      by_contra hnone
      rw [picked_eq_nil_of_start?_eq_none hyear (by simpa using hnone)] at hn
      exact List.not_mem_nil hn
    exact mem_stream.2 ⟨x,
      mem_readings.2 ⟨n, Nat.zero_le n, hstart, mem_candidates_floating.2 ⟨hn, htime⟩⟩, rfl⟩

end Search

namespace Occurrences

variable {rule : Rule} {anchor x : DateTime} {config : Config}

theorem mem_toList_uncounted (hcount : rule.count = none) (hyears : 400 ≤ config.maxEmptyYears) :
    x ∈ Source.toList (ofRule rule anchor config none) ↔
      x ∈ (Search.start rule anchor config).stream 0 ∧ anchor ≤ x ∧ rule.admits x = true := by
  have hs : (Search.start rule anchor config).FromAnchor :=
    Search.fromAnchor_start rule anchor config none none
  have hlist : Source.toList (ofRule rule anchor config none) =
      (Search.start rule anchor config).ascent 0 := by
    rw [toList_ofRule rule (keepsOrder_floating anchor) hyears none, hcount]
    rfl
  have hadmits : rule.admits x = true ↔
      ¬ (Search.start rule anchor config).exceedsBound x = true := by
    rw [Search.exceedsBound_eq_not_admits, Bool.not_eq_true', Bool.not_eq_false]
    rfl
  rw [hlist, Search.mem_ascent hs (keepsOrder_floating anchor), DateTime.le_iff_not_lt, hadmits]
  rfl

theorem mem_toList_floating (hcount : rule.count = none) (hyear : -9998 ≤ anchor.date.year) :
    x ∈ Source.toList (ofRule rule anchor {} none) ↔
      (∃ n, x.date ∈ rule.picked anchor.date n) ∧ x.time = anchor.time ∧ anchor ≤ x ∧
        rule.admits x = true := by
  rw [mem_toList_uncounted hcount Config.le_default, Search.mem_stream_floating hyear, and_assoc]

theorem toList_eq_filter_of_mem (hcount : rule.count = none) (hyear : -9998 ≤ anchor.date.year)
    (hx : x ∈ Source.toList (ofRule rule anchor {} none)) :
    Source.toList (ofRule rule x {} none) =
      (Source.toList (ofRule rule anchor {} none)).filter fun y ↦ x ≤ y := by
  obtain ⟨⟨n, hn⟩, htime, hle, -⟩ := (mem_toList_floating hcount hyear).1 hx
  have hdate : anchor.date.number ≤ x.date.number := DateTime.date_le_of_le hle
  have hyear' : -9998 ≤ x.date.year := hyear.trans (Frequency.yearly.unitOf_mono hdate)
  refine List.Pairwise.eq_of_mem_iff (r := (· < ·)) (pairwise_toList_ofRule rule x {} none)
    ((pairwise_toList_ofRule rule anchor {} none).filter _) fun y ↦ ?_
  rw [List.mem_filter, mem_toList_floating hcount hyear, mem_toList_floating hcount hyear',
    decide_eq_true_eq, htime]
  constructor
  · rintro ⟨⟨k, hk⟩, hytime, hxy, hadmits⟩
    rw [Rule.picked_of_mem_picked hn] at hk
    exact ⟨⟨⟨n + k, hk⟩, hytime, Int.le_trans hle hxy, hadmits⟩, hxy⟩
  · rintro ⟨⟨⟨m, hm⟩, hytime, -, hadmits⟩, hxy⟩
    have hnm : n ≤ m := Rule.le_of_mem_picked hn hm (DateTime.date_le_of_le hxy)
    obtain ⟨k, rfl⟩ := Nat.exists_eq_add_of_le hnm
    rw [← Rule.picked_of_mem_picked hn] at hm
    exact ⟨⟨k, hm⟩, hytime, hxy, hadmits⟩

/-- From an occurrence on a rule without a count gives the occurrences that are left. -/
theorem toList_ofRule_of_mem (hcount : rule.count = none) (hyear : -9998 ≤ anchor.date.year)
    (hx : x ∈ Source.toList (ofRule rule anchor {} none)) :
    ∃ before rest, Source.toList (ofRule rule anchor {} none) = before ++ x :: rest ∧
      Source.toList (ofRule rule x {} none) = x :: rest := by
  have hascends := pairwise_toList_ofRule rule anchor {} none
  obtain ⟨before, rest, hsplit⟩ := List.append_of_mem hx
  refine ⟨before, rest, hsplit, ?_⟩
  rw [hsplit, List.pairwise_append, List.pairwise_cons] at hascends
  obtain ⟨-, ⟨hrest, -⟩, hbefore⟩ := hascends
  have hnone : before.filter (fun y ↦ x ≤ y) = [] := List.filter_eq_nil_iff.2 fun y hy ↦ by
    simpa [DateTime.le_iff_not_lt] using hbefore y hy x List.mem_cons_self
  have hall : (x :: rest).filter (fun y ↦ x ≤ y) = x :: rest :=
    List.filter_eq_self.2 fun y hy ↦ by
      obtain rfl | hy := List.mem_cons.1 hy
      · exact decide_eq_true (Int.le_refl _)
      · exact decide_eq_true (Int.le_of_lt (hrest y hy))
  rw [toList_eq_filter_of_mem hcount hyear hx, hsplit, List.filter_append, hnone, hall,
    List.nil_append]

def outerWorkdays : Rule where
  freq := .monthly
  byDay := [⟨none, .monday⟩, ⟨none, .tuesday⟩, ⟨none, .wednesday⟩, ⟨none, .thursday⟩,
    ⟨none, .friday⟩]
  bySetPos := [1, -1]

/-- From 2025-01-15 on, and anew from 2025-01-31 on. -/
theorem toList_ofRule_of_mem_outerWorkdays :
    let anchor : DateTime := ⟨⟨739265, by decide, by decide⟩, .midnight⟩
    let x : DateTime := ⟨⟨739281, by decide, by decide⟩, .midnight⟩
    outerWorkdays.count = none ∧ anchor.date.year = 2025 ∧
      x ∈ Source.toList (ofRule outerWorkdays anchor {} none) ∧
      ∃ before rest,
        Source.toList (ofRule outerWorkdays anchor {} none) = before ++ x :: rest ∧
          Source.toList (ofRule outerWorkdays x {} none) = x :: rest := by
  intro anchor x
  have hyear : anchor.date.year = 2025 := by decide
  have hcandidate : x ∈ (Search.start outerWorkdays anchor {}).candidates 0 := by
    rw [Search.candidates, Pattern.pick_eq, Position.select_eq_filter]
    decide
  have hx : x ∈ Source.toList (ofRule outerWorkdays anchor {} none) :=
    (mem_toList_floating rfl (by omega)).2
      ⟨⟨0, (Search.mem_candidates_floating.1 hcandidate).1⟩, rfl, by decide, rfl⟩
  exact ⟨rfl, hyear, hx, toList_ofRule_of_mem rfl (by omega) hx⟩

end Occurrences

end Recurrence
