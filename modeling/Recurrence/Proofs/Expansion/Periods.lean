import Recurrence.Expansion.Periods
import Recurrence.Proofs.Calendar.Cycle

namespace Recurrence

namespace Frequency

variable (f : Frequency)

theorem firstNumber_monthly_succ (u : Int) :
    monthly.firstNumber (u + 1) =
      monthly.firstNumber u + Year.monthLength (u / 12) ((u % 12).toNat + 1) := by
  have hnext := Year.daysBefore_succ (u / 12) (m := (u % 12).toNat + 1) (Nat.le_add_left 1 _)
  simp only [firstNumber, Date.civilNumber]
  by_cases h : u % 12 = 11
  · have hdiv : (u + 1) / 12 = u / 12 + 1 := by omega
    have hmod : (u + 1) % 12 = 0 := by omega
    have hfirst : Year.daysBefore (u / 12 + 1) 1 = 0 := rfl
    simp only [h, Int.reduceToNat, Nat.reduceAdd, Year.daysBefore_thirteen] at hnext
    rw [hdiv, hmod, h, Year.firstNumber_succ, hnext, Int.toNat_zero, Nat.zero_add, hfirst]
    simp only [Int.reduceToNat, Nat.reduceAdd]
    omega
  · have hdiv : (u + 1) / 12 = u / 12 := by omega
    have hmod : ((u + 1) % 12).toNat = (u % 12).toNat + 1 := by omega
    rw [hdiv, hmod, hnext]
    omega

theorem firstNumber_lt_succ (u : Int) : f.firstNumber u < f.firstNumber (u + 1) := by
  cases f with
  | daily => exact Int.lt_succ u
  | weekly => simp only [firstNumber]; omega
  | monthly =>
    have := Year.monthLength_bounds (u / 12) (m := (u % 12).toNat + 1) (Nat.le_add_left 1 _)
    rw [firstNumber_monthly_succ]
    omega
  | yearly => exact Year.firstNumber_lt_succ u

theorem firstNumber_lt_iff {u v : Int} : f.firstNumber u < f.firstNumber v ↔ u < v :=
  (strictMono_int_of_lt_succ f.firstNumber_lt_succ).lt_iff_lt

theorem firstNumber_le_iff {u v : Int} : f.firstNumber u ≤ f.firstNumber v ↔ u ≤ v :=
  (strictMono_int_of_lt_succ f.firstNumber_lt_succ).le_iff_le

theorem firstNumber_unitOf_le (d : Date) : f.firstNumber (f.unitOf d) ≤ d.number := by
  cases f with
  | daily => exact Int.le_refl _
  | weekly => simp only [firstNumber, unitOf]; omega
  | monthly =>
    have hm := d.month_pos
    have hm' := d.month_le
    have hd := d.day_pos
    have hdiv : (d.year * 12 + d.month - 1) / 12 = d.year := by omega
    have hmod : ((d.year * 12 + d.month - 1) % 12).toNat + 1 = d.month := by omega
    rw [← d.civilNumber_eq_number]
    simp only [firstNumber, unitOf, hdiv, hmod, Date.civilNumber]
    omega
  | yearly => exact Year.firstNumber_ofNumber_le _

theorem lt_firstNumber_unitOf_succ (d : Date) : d.number < f.firstNumber (f.unitOf d + 1) := by
  cases f with
  | daily => exact Int.lt_succ _
  | weekly => simp only [firstNumber, unitOf]; omega
  | monthly =>
    have hm := d.month_pos
    have hm' := d.month_le
    have hd := d.day_le_monthLength
    have hdiv : (d.year * 12 + d.month - 1) / 12 = d.year := by omega
    have hmod : ((d.year * 12 + d.month - 1) % 12).toNat + 1 = d.month := by omega
    rw [firstNumber_monthly_succ, ← d.civilNumber_eq_number]
    unfold Date.monthLength at hd
    simp only [firstNumber, unitOf, hdiv, hmod, Date.civilNumber]
    omega
  | yearly => exact Year.lt_firstNumber_ofNumber_succ _

theorem firstNumber_le_number_iff {u : Int} {d : Date} :
    f.firstNumber u ≤ d.number ↔ u ≤ f.unitOf d := by
  constructor
  · intro h
    have := f.firstNumber_lt_iff.1 (h.trans_lt (f.lt_firstNumber_unitOf_succ d))
    omega
  · intro h
    exact (f.firstNumber_le_iff.2 h).trans (f.firstNumber_unitOf_le d)

theorem unitOf_mono {d e : Date} (h : d.number ≤ e.number) : f.unitOf d ≤ f.unitOf e :=
  f.firstNumber_le_number_iff.1 ((f.firstNumber_unitOf_le d).trans h)

theorem number_lt_of_unitOf_lt {d e : Date} (h : f.unitOf d < f.unitOf e) :
    d.number < e.number := by
  by_contra hle
  have := f.unitOf_mono (Int.not_lt.1 hle)
  omega

/-- No unit is begun before the calendar: it begins with a Monday, the first of a year. -/
theorem first_le_firstNumber_unitOf (d : Date) : -3652425 ≤ f.firstNumber (f.unitOf d) := by
  have hd := d.first_le
  cases f with
  | daily => exact hd
  | weekly => simp only [firstNumber, unitOf]; omega
  | monthly =>
    have h : monthly.firstNumber (-119988) = -3652425 := by decide
    have hu : -119988 ≤ monthly.unitOf d := monthly.firstNumber_le_number_iff.1 (h ▸ hd)
    exact h ▸ monthly.firstNumber_le_iff.2 hu
  | yearly =>
    have h : yearly.firstNumber (-9999) = -3652425 := by decide
    have hu : -9999 ≤ yearly.unitOf d := yearly.firstNumber_le_number_iff.1 (h ▸ hd)
    exact h ▸ yearly.firstNumber_le_iff.2 hu

theorem unitOf_sub_le (d a : Date) : f.unitOf d - f.unitOf a ≤ 7304483 := by
  have hdays (u : Int) (k : Nat) : f.firstNumber u + k ≤ f.firstNumber (u + k) := by
    induction k with
    | zero => simp
    | succ k ih =>
      have hlt := f.firstNumber_lt_succ (u + k)
      rw [Int.add_assoc] at hlt
      rw [Int.natCast_succ]
      omega
  have hlast := (f.firstNumber_unitOf_le d).trans d.le_last
  have hfirst := f.first_le_firstNumber_unitOf a
  obtain hle | hle := Int.le_total (f.unitOf d) (f.unitOf a)
  · omega
  · have h := hdays (f.unitOf a) (f.unitOf d - f.unitOf a).toNat
    rw [show f.unitOf a + (f.unitOf d - f.unitOf a).toNat = f.unitOf d by omega] at h
    omega

theorem mem_days_iff {u : Int} {d : Date} : d ∈ f.days u ↔ f.unitOf d = u := by
  have hlt := f.firstNumber_lt_succ u
  have hfirst : f.firstNumber u ≤ d.number ↔ u ≤ f.unitOf d := f.firstNumber_le_number_iff
  have hnext : f.firstNumber (u + 1) ≤ d.number ↔ u + 1 ≤ f.unitOf d := f.firstNumber_le_number_iff
  simp only [days, List.mem_filterMap, List.mem_range, Date.ofNumber?_eq_some_iff]
  constructor
  · rintro ⟨i, hi, hd⟩
    omega
  · intro h
    exact ⟨(d.number - f.firstNumber u).toNat, by omega, by omega⟩

theorem pairwise_days (u : Int) : (f.days u).Pairwise fun d e ↦ d.number < e.number := by
  refine List.Pairwise.filterMap _ (fun i j hij d hd e he ↦ ?_) List.pairwise_lt_range
  rw [Date.ofNumber?_eq_some_iff] at hd he
  omega

def cycle : Frequency → Nat
  | daily => 146097
  | weekly => 20871
  | monthly => 4800
  | yearly => 400

theorem firstNumber_add_cycles (u : Int) (k : Nat) :
    f.firstNumber (u + f.cycle * k) = f.firstNumber u + 146097 * k := by
  cases f with
  | daily => rfl
  | weekly => simp only [firstNumber, cycle]; omega
  | monthly =>
    have hdiv : (u + (4800 : Nat) * (k : Int)) / 12 = u / 12 + 400 * k := by omega
    have hmod : (u + (4800 : Nat) * (k : Int)) % 12 = u % 12 := by omega
    simp only [firstNumber, cycle, Date.civilNumber, hdiv, hmod, Year.firstNumber_add_cycles,
      Year.daysBefore_add_cycles]
    omega
  | yearly => exact Year.firstNumber_add_cycles u k

theorem length_days_add_cycles (u : Int) (k : Nat) :
    f.firstNumber (u + f.cycle * k + 1) - f.firstNumber (u + f.cycle * k) =
      f.firstNumber (u + 1) - f.firstNumber u := by
  rw [Int.add_right_comm, firstNumber_add_cycles, firstNumber_add_cycles, Int.add_sub_add_right]

end Frequency

namespace Periods

variable (p : Periods)

theorem unit_lt_iff {m n : Nat} : p.unit m < p.unit n ↔ m < n := by
  rw [unit, unit, Int.add_lt_add_iff_left, Int.ofNat_lt]
  exact Nat.mul_lt_mul_right p.interval_pos

theorem unit_le_iff {m n : Nat} : p.unit m ≤ p.unit n ↔ m ≤ n := by
  rw [← Int.not_lt, ← Nat.not_lt, unit_lt_iff]

theorem unit_add_cycle (n : Nat) :
    p.unit (n + p.freq.cycle) = p.unit n + p.freq.cycle * p.interval := by
  simp only [unit, Nat.add_mul, Int.natCast_add, Int.natCast_mul]
  omega

def IsWhole (n : Nat) : Prop :=
  -3652425 ≤ p.freq.firstNumber (p.unit n) ∧ p.freq.firstNumber (p.unit n + 1) ≤ 3652059

instance (n : Nat) : Decidable (p.IsWhole n) := inferInstanceAs (Decidable (_ ∧ _))

variable {p} {n : Nat} {d : Date}

theorem number_of_start? (h : p.start? n = some d) :
    d.number = p.freq.firstNumber (p.unit n) := by
  unfold start? at h
  split at h
  · exact Date.ofNumber?_eq_some_iff.1 h
  · cases h

section Base

variable {a : Date} (h : p.base = p.freq.unitOf a)

include h

theorem first_le_firstNumber_unit (n : Nat) : -3652425 ≤ p.freq.firstNumber (p.unit n) := by
  have hle : p.freq.unitOf a ≤ p.unit n := by
    rw [unit, h]
    omega
  exact (p.freq.first_le_firstNumber_unitOf a).trans (p.freq.firstNumber_le_iff.2 hle)

theorem start?_isSome_iff {n : Nat} :
    (p.start? n).isSome ↔
      n * p.interval ≤ p.freq.reach ∧ p.freq.firstNumber (p.unit n) ≤ 3652058 := by
  have hfirst := first_le_firstNumber_unit h n
  unfold start?
  split
  · rw [Date.ofNumber?_isSome_iff]
    omega
  · simp only [Option.isSome_none, Bool.false_eq_true, false_iff]
    omega

theorem start?_eq_none_of_le {m n : Nat} (hmn : m ≤ n) (hm : p.start? m = none) :
    p.start? n = none := by
  rw [← Option.not_isSome_iff_eq_none, start?_isSome_iff h] at hm ⊢
  have h₁ := Nat.mul_le_mul_right p.interval hmn
  have h₂ := p.freq.firstNumber_le_iff.2 (p.unit_le_iff.2 hmn)
  omega

end Base

end Periods

end Recurrence
