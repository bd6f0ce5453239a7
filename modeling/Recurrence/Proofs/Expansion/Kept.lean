import Recurrence.Proofs.Expansion.Pattern
import Recurrence.Proofs.Expansion.Rank

namespace Recurrence

open Position (IsPicked resolve?)

theorem Position.exists_resolve?_iff {positions : List Int} {length i : Nat} (hpos : 1 ≤ i)
    (hle : i ≤ length) :
    (∃ n ∈ positions, resolve? n length = some i) ↔ IsPicked positions length i := by
  simp only [resolve?_eq_some_iff, IsPicked, hpos, hle, true_and]
  constructor
  · rintro ⟨n, hn, rfl | rfl⟩
    · exact .inl hn
    · exact .inr hn
  · rintro (h | h)
    · exact ⟨_, h, .inl rfl⟩
    · exact ⟨_, h, .inr rfl⟩

namespace RuleData

variable (r : RuleData) (a d : Date)

def KeepsMonth : Prop := r.byMonth ≠ [] → (d.month : Int) ∈ r.byMonth

def KeepsWeekNo : Prop :=
  r.freq = .yearly → r.byWeekNo ≠ [] →
    IsPicked r.byWeekNo (Date.thursdays d.isoYear) d.thursdaysThrough

def KeepsMonthDay : Prop := r.byMonthDay ≠ [] → IsPicked r.byMonthDay d.monthLength d.day

def rankScope : RankScope := if r.freq = .yearly ∧ r.byMonth = [] then .year else .month

def KeepsWeekday : Prop :=
  r.byDay ≠ [] → ∃ b ∈ r.byDay, b.weekday = d.weekday ∧
    ∀ n ∈ b.ordinal, r.freq = .monthly ∨ r.freq = .yearly →
      n = d.rank r.rankScope ∨ n = -(d.rankFromEnd r.rankScope : Int)

def NamesNoDays : Prop :=
  ¬ (r.freq = .yearly ∧ r.byWeekNo ≠ []) ∧ r.byMonthDay = [] ∧ r.byDay = []

def IsLikeAnchor : Prop :=
  match r.freq with
  | .daily => True
  | .weekly => d.weekday = a.weekday
  | .monthly => d.day = a.day
  | .yearly => d.day = a.day ∧ (r.byMonth = [] → d.month = a.month)

def Keeps : Prop :=
  r.KeepsMonth d ∧ r.KeepsWeekNo d ∧ r.KeepsMonthDay d ∧ r.KeepsWeekday d ∧
    (r.NamesNoDays → r.IsLikeAnchor a d)

instance : Decidable (r.KeepsMonth d) := inferInstanceAs (Decidable (_ → _))

instance : Decidable (r.KeepsWeekNo d) := inferInstanceAs (Decidable (_ → _ → _))

instance : Decidable (r.KeepsMonthDay d) := inferInstanceAs (Decidable (_ → _))

instance : Decidable (r.KeepsWeekday d) := inferInstanceAs (Decidable (_ → _))

instance : Decidable r.NamesNoDays := inferInstanceAs (Decidable (_ ∧ _ ∧ _))

instance : Decidable (r.IsLikeAnchor a d) := by
  unfold IsLikeAnchor
  split <;> infer_instance

instance : Decidable (r.Keeps a d) := inferInstanceAs (Decidable (_ ∧ _))

variable {r a d}

theorem passesMonth_given : (Pattern.given r).PassesMonth d ↔ r.KeepsMonth d :=
  Decidable.or_iff_not_imp_left

theorem passesWeekNo_given : (Pattern.given r).PassesWeekNo d ↔ r.KeepsWeekNo d := by
  rw [KeepsWeekNo, ← Date.isoWeek_eq_thursdaysThrough, ← Date.isoWeeks_eq_thursdays,
    ← Position.exists_resolve?_iff d.isoWeek_pos d.isoWeek_le]
  by_cases hfreq : r.freq = .yearly
  · simp only [Pattern.PassesWeekNo, Pattern.given, hfreq, if_true, forall_const]
    exact Decidable.or_iff_not_imp_left
  · simp [Pattern.PassesWeekNo, Pattern.given, hfreq]

theorem passesMonthDay_given : (Pattern.given r).PassesMonthDay d ↔ r.KeepsMonthDay d := by
  rw [KeepsMonthDay, ← Position.exists_resolve?_iff d.day_pos d.day_le_monthLength]
  exact Decidable.or_iff_not_imp_left

theorem countsWeekdays_iff {f : Frequency} :
    Pattern.CountsWeekdays f ↔ f = .monthly ∨ f = .yearly := by
  cases f <;> simp [Pattern.CountsWeekdays]

theorem mem_weekdays_given {w : Weekday} : w ∈ (Pattern.given r).weekdays ↔
    ∃ b ∈ r.byDay, b.weekday = w ∧ ¬ (Pattern.CountsWeekdays r.freq ∧ b.ordinal ≠ none) := by
  simp only [Pattern.given, List.mem_map, List.mem_filter, decide_eq_true_eq, and_assoc,
    and_comm (a := _ = w)]

theorem mem_ranked_given {n : Int} {w : Weekday} : (n, w) ∈ (Pattern.given r).ranked ↔
    Pattern.CountsWeekdays r.freq ∧ ∃ b ∈ r.byDay, b.weekday = w ∧ b.ordinal = some n := by
  by_cases hcounts : Pattern.CountsWeekdays r.freq
  · simp only [Pattern.given, hcounts, if_true, List.mem_filterMap, Option.map_eq_some_iff,
      Prod.mk.injEq, true_and]
    constructor
    · rintro ⟨b, hb, m, hm, rfl, rfl⟩
      exact ⟨b, hb, rfl, hm⟩
    · rintro ⟨b, hb, rfl, hm⟩
      exact ⟨b, hb, n, hm, rfl, rfl⟩
  · simp [Pattern.given, hcounts]

theorem weekdays_given_eq_nil_iff :
    (Pattern.given r).weekdays = [] ∧ (Pattern.given r).ranked = [] ↔ r.byDay = [] := by
  constructor
  · rintro ⟨hweekdays, hranked⟩
    refine List.eq_nil_iff_forall_not_mem.2 fun b hb ↦ ?_
    by_cases hcounted : Pattern.CountsWeekdays r.freq ∧ b.ordinal ≠ none
    · obtain ⟨n, hn⟩ := Option.ne_none_iff_exists'.1 hcounted.2
      have hmem := mem_ranked_given.2 ⟨hcounted.1, b, hb, rfl, hn⟩
      rw [hranked] at hmem
      exact List.not_mem_nil hmem
    · have hmem := mem_weekdays_given.2 ⟨b, hb, rfl, hcounted⟩
      rw [hweekdays] at hmem
      exact List.not_mem_nil hmem
  · intro h
    simp [Pattern.given, h]

theorem passesWeekday_given : (Pattern.given r).PassesWeekday d ↔ r.KeepsWeekday d := by
  rw [Pattern.PassesWeekday, weekdays_given_eq_nil_iff, Decidable.or_iff_not_imp_left, KeepsWeekday]
  refine imp_congr_right fun _ ↦ ?_
  have hrank (n : Int) : d.HasRank n (Pattern.given r).scope ↔
      n = d.rank r.rankScope ∨ n = -(d.rankFromEnd r.rankScope : Int) := Date.hasRank_iff_rank
  simp only [← hrank, ← countsWeekdays_iff]
  constructor
  · rintro (h | ⟨⟨n, w⟩, h, rfl, hn⟩)
    · obtain ⟨b, hb, hw, hplain⟩ := mem_weekdays_given.1 h
      refine ⟨b, hb, hw, fun n hn hcounts ↦ absurd ⟨hcounts, ?_⟩ hplain⟩
      rw [Option.mem_def.1 hn]
      exact Option.some_ne_none n
    · obtain ⟨-, b, hb, hw, hordinal⟩ := mem_ranked_given.1 h
      refine ⟨b, hb, hw, fun m hm _ ↦ ?_⟩
      obtain rfl := Option.some.inj (hordinal.symm.trans hm)
      exact hn
  · rintro ⟨b, hb, hw, hn⟩
    by_cases hcounted : Pattern.CountsWeekdays r.freq ∧ b.ordinal ≠ none
    · obtain ⟨n, hordinal⟩ := Option.ne_none_iff_exists'.1 hcounted.2
      exact .inr ⟨(n, d.weekday), mem_ranked_given.2 ⟨hcounted.1, b, hb, hw, hordinal⟩, rfl,
        hn n hordinal hcounted.1⟩
    · exact .inl (mem_weekdays_given.2 ⟨b, hb, hw, hcounted⟩)

theorem namesNoDays_iff : (Pattern.given r).byWeekNo = [] ∧ (Pattern.given r).byMonthDay = [] ∧
    r.byDay = [] ↔ r.NamesNoDays := by
  by_cases hfreq : r.freq = .yearly <;> simp [Pattern.given, NamesNoDays, hfreq]

theorem bySetPos_ofRule : (Pattern.ofRule r a).bySetPos = r.bySetPos := by
  rw [Pattern.ofRule]
  split
  · cases hfreq : r.freq <;> rfl
  · rfl

theorem exists_resolve?_day_iff :
    (∃ n ∈ [(a.day : Int)], resolve? n d.monthLength = some d.day) ↔ d.day = a.day := by
  have hpos := d.day_pos
  have hle := d.day_le_monthLength
  rw [Position.exists_resolve?_iff hpos hle]
  simp only [IsPicked, List.mem_singleton]
  omega

theorem passes_withAnchor (h : r.NamesNoDays) :
    ((Pattern.given r).withAnchor r.freq a).Passes d ↔ r.KeepsMonth d ∧ r.IsLikeAnchor a d := by
  obtain ⟨hweekNo, hmonthDay, -⟩ := namesNoDays_iff.2 h
  obtain ⟨hweekdays, hranked⟩ := weekdays_given_eq_nil_iff.2 h.2.2
  have hmonth : (Pattern.given r).byMonth = r.byMonth := rfl
  have hkeeps : r.KeepsMonth d ↔ r.byMonth = [] ∨ (d.month : Int) ∈ r.byMonth :=
    Decidable.or_iff_not_imp_left.symm
  have hpasses (p : Pattern) : p.Passes d ↔
      (p.byMonth = [] ∨ (d.month : Int) ∈ p.byMonth) ∧
      (p.byWeekNo = [] ∨
        ∃ n ∈ p.byWeekNo, resolve? n (Year.isoWeeks d.isoYear) = some d.isoWeek) ∧
      (p.byMonthDay = [] ∨ ∃ n ∈ p.byMonthDay, resolve? n d.monthLength = some d.day) ∧
      (p.weekdays = [] ∧ p.ranked = [] ∨ d.weekday ∈ p.weekdays ∨
        ∃ q ∈ p.ranked, q.2 = d.weekday ∧ d.HasRank q.1 p.scope) := Iff.rfl
  cases hfreq : r.freq with
  | daily => simp [Pattern.withAnchor, IsLikeAnchor, *]
  | weekly => simp [Pattern.withAnchor, IsLikeAnchor, *]
  | monthly =>
    rw [IsLikeAnchor, hfreq, ← exists_resolve?_day_iff, hkeeps]
    simp [Pattern.withAnchor, *]
  | yearly =>
    rw [IsLikeAnchor, hfreq, ← exists_resolve?_day_iff, hkeeps]
    by_cases hnone : r.byMonth = []
    · simp [Pattern.withAnchor, *, and_comm]
    · simp [Pattern.withAnchor, *]

theorem passes_iff_keeps : (Pattern.ofRule r a).Passes d ↔ r.Keeps a d := by
  rw [Pattern.ofRule]
  split
  · rename_i h
    have hnone := namesNoDays_iff.1 h
    have hweekNo : r.KeepsWeekNo d := fun hfreq hne ↦ absurd ⟨hfreq, hne⟩ hnone.1
    have hmonthDay : r.KeepsMonthDay d := fun hne ↦ absurd hnone.2.1 hne
    have hweekday : r.KeepsWeekday d := fun hne ↦ absurd hnone.2.2 hne
    rw [passes_withAnchor hnone, Keeps]
    simp only [hnone, hweekNo, hmonthDay, hweekday, true_and, forall_const]
  · rename_i h
    have hsome := mt namesNoDays_iff.2 h
    rw [Pattern.Passes, passesMonth_given, passesWeekNo_given, passesMonthDay_given,
      passesWeekday_given, Keeps]
    simp only [hsome, false_imp_iff, and_true]

end RuleData

end Recurrence
