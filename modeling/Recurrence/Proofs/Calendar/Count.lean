import Mathlib.Data.Int.CardIntervalMod
import Recurrence.Calendar.IsoWeek
import Recurrence.Proofs.Calendar.Year

namespace Recurrence

namespace Date

instance : Std.Irrefl fun d e : Date ↦ d.number < e.number := ⟨fun _ ↦ Int.lt_irrefl _⟩

instance : Std.Antisymm fun d e : Date ↦ d.number < e.number :=
  ⟨fun _ _ h h' ↦ absurd (Int.lt_trans h h') (Int.lt_irrefl _)⟩

theorem number_inj {d e : Date} : d.number = e.number ↔ d = e := by
  rw [Date.mk.injEq]

theorem eq_of_civil {d e : Date} (hyear : d.year = e.year) (hmonth : d.month = e.month)
    (hday : d.day = e.day) : d = e := by
  have h := d.ofCivil?_year_month_day
  rw [hyear, hmonth, hday, e.ofCivil?_year_month_day] at h
  exact (Option.some.inj h).symm

def all : List Date := (List.range count).filterMap fun i : Nat ↦ ofNumber? (i - 3652425)

theorem mem_all (d : Date) : d ∈ all := by
  have h₁ := d.first_le
  have h₂ := d.le_last
  refine List.mem_filterMap.2 ⟨(d.number + 3652425).toNat, List.mem_range.2 ?_, ?_⟩
  · unfold count
    omega
  · rw [ofNumber?_eq_some_iff]
    omega

theorem pairwise_all : all.Pairwise fun d e ↦ d.number < e.number := by
  refine List.pairwise_filterMap.2 (List.pairwise_lt_range.imp fun {i j} hij d hd e he ↦ ?_)
  rw [ofNumber?_eq_some_iff] at hd he
  omega

theorem countP_all (p : Int → Bool) :
    all.countP (fun e ↦ p e.number) = Nat.count (fun i : Nat ↦ p (i - 3652425) = true) count := by
  rw [all, List.countP_filterMap, Nat.count]
  refine List.countP_congr fun i hi ↦ ?_
  have hlt := List.mem_range.1 hi
  obtain ⟨d, hd⟩ := Option.isSome_iff_exists.1
    (ofNumber?_isSome_iff.2 (show -3652425 ≤ (i : Int) - 3652425 ∧ (i : Int) - 3652425 ≤ 3652058 by
      unfold count at hlt
      omega))
  rw [hd, ← ofNumber?_eq_some_iff.1 hd]
  simp

theorem weekday_eq_iff {d : Date} {w : Weekday} : d.weekday = w ↔ d.number % 7 = w.index := by
  constructor
  · rintro rfl
    exact (Weekday.index_ofIndex d.number).symm
  · intro h
    rw [← w.ofIndex_index, ← h, weekday, Weekday.ofIndex, Weekday.ofIndex, Int.emod_emod]

theorem countP_weekday {lo : Int} {k : Nat} (w : Weekday) (hfirst : -3652425 ≤ lo)
    (hlast : lo + k ≤ 3652059) :
    all.countP (fun e ↦ (lo ≤ e.number ∧ e.number < lo + k) ∧ e.weekday = w) =
      (k + 6 - ((w.index - lo) % 7).toNat) / 7 := by
  have hw := w.index_lt
  -- so many days pass before the first of the weekday
  obtain ⟨v, hv⟩ : ∃ v : Nat, v = ((w.index - lo) % 7).toNat := ⟨_, rfl⟩
  let p (n : Int) : Bool := (lo ≤ n ∧ n < lo + k) ∧ n % 7 = w.index
  obtain ⟨a, ha⟩ : ∃ a : Nat, (a : Int) = lo + 3652425 := ⟨(lo + 3652425).toNat, by omega⟩
  obtain ⟨b, hb⟩ : ∃ b : Nat, count = a + k + b := ⟨count - (a + k), by unfold count; omega⟩
  have hbefore : Nat.count (fun i : Nat ↦ p (i - 3652425) = true) a = 0 := by
    refine Nat.count_iff_forall_not.2 fun i hi hp ↦ ?_
    have := (of_decide_eq_true hp).1
    omega
  have hafter : Nat.count (fun i : Nat ↦ p ((a + k + i : Nat) - 3652425) = true) b = 0 := by
    refine Nat.count_iff_forall_not.2 fun i hi hp ↦ ?_
    have := (of_decide_eq_true hp).1
    omega
  have hwithin : Nat.count (fun i : Nat ↦ p ((a + i : Nat) - 3652425) = true) k =
      Nat.count (· ≡ v [MOD 7]) k := by
    rw [Nat.count, Nat.count]
    refine List.countP_congr fun i hi ↦ ?_
    have hlt := List.mem_range.1 hi
    rw [decide_eq_true_iff, decide_eq_true_iff, decide_eq_true_iff, Nat.ModEq]
    omega
  calc all.countP (fun e ↦ (lo ≤ e.number ∧ e.number < lo + k) ∧ e.weekday = w)
      = all.countP (fun e ↦ p e.number) := by
        simp only [weekday_eq_iff, p]
    _ = Nat.count (· ≡ v [MOD 7]) k := by
        rw [countP_all, hb, Nat.count_add, Nat.count_add, hbefore, hwithin, hafter, Nat.zero_add,
          Nat.add_zero]
    _ = (k + 6 - ((w.index - lo) % 7).toNat) / 7 := by
        rw [Nat.count_modEq_card k (by decide), ← hv]
        split <;> omega

theorem ofCivil?_first (y : Int) : ofCivil? y 1 1 = ofNumber? (Year.firstNumber y) := by
  have hlength := Year.monthLength_bounds y (Nat.le_refl 1)
  have hnumber : civilNumber y 1 1 = Year.firstNumber y := by
    simp [civilNumber, Year.daysBefore]
  rw [ofCivil?, if_pos ⟨Nat.le_refl 1, by decide, Nat.le_refl 1, by omega⟩, hnumber]

end Date

namespace Year

theorem isoWeeks_eq_ite {y : Int} (hfirst : -3652425 ≤ firstNumber y)
    (hlast : firstNumber y ≤ 3652058) : isoWeeks y =
      if firstNumber y % 7 = 3 ∨ firstNumber y % 7 = 2 ∧ IsLeap y then 53 else 52 := by
  have hindex := Weekday.index_ofIndex (firstNumber y)
  rw [isoWeeks, Date.ofCivil?_first, Date.ofNumber?, dif_pos ⟨hfirst, hlast⟩, ← hindex]
  simp only [Date.weekday]
  cases Weekday.ofIndex (firstNumber y) <;> simp [Weekday.index]

end Year

namespace Date

variable (d : Date)

def thursdays (year : Int) : Nat := all.countP fun e ↦ e.year = year ∧ e.weekday = .thursday

/-- The Thursdays of the ISO year up to the one of the week. -/
def thursdaysThrough : Nat :=
  all.countP fun e ↦ (e.year = d.isoYear ∧ e.number ≤ d.thursdayNumber) ∧ e.weekday = .thursday

theorem year_eq_iff {d : Date} {y : Int} :
    d.year = y ↔ Year.firstNumber y ≤ d.number ∧ d.number < Year.firstNumber (y + 1) :=
  Year.ofNumber_eq_iff

theorem thursdayNumber_bounds : -3652425 ≤ d.thursdayNumber ∧ d.thursdayNumber ≤ 3652058 := by
  have h₁ := d.first_le
  have h₂ := d.le_last
  unfold thursdayNumber
  omega

theorem isoYear_bounds :
    (-3652425 ≤ Year.firstNumber d.isoYear ∧ Year.firstNumber (d.isoYear + 1) ≤ 3652059) ∧
      Year.firstNumber d.isoYear ≤ d.thursdayNumber ∧
      d.thursdayNumber < Year.firstNumber (d.isoYear + 1) := by
  obtain ⟨h₁, h₂⟩ := d.thursdayNumber_bounds
  exact ⟨Year.firstNumber_bounds_of_ofNumber h₁ h₂, Year.firstNumber_ofNumber_le _,
    Year.lt_firstNumber_ofNumber_succ _⟩

theorem isoWeek_eq_thursdaysThrough : d.isoWeek = d.thursdaysThrough := by
  obtain ⟨⟨hfirst, hlast⟩, hle, hlt⟩ := d.isoYear_bounds
  have hthursday : d.thursdayNumber % 7 = 3 := by
    unfold thursdayNumber
    omega
  have hindex : Weekday.thursday.index = 3 := rfl
  obtain ⟨k, hk⟩ : ∃ k : Nat, Year.firstNumber d.isoYear + k = d.thursdayNumber + 1 :=
    ⟨(d.thursdayNumber + 1 - Year.firstNumber d.isoYear).toNat, by omega⟩
  calc d.isoWeek = (k + 6 -
          ((Weekday.thursday.index - Year.firstNumber d.isoYear) % 7).toNat) / 7 := by
        unfold isoWeek
        omega
    _ = _ := (countP_weekday .thursday hfirst (by omega)).symm
    _ = d.thursdaysThrough := by
        unfold thursdaysThrough
        simp only [year_eq_iff]
        refine List.countP_congr fun e _ ↦ ?_
        rw [decide_eq_true_iff, decide_eq_true_iff]
        refine and_congr_left fun _ ↦ ?_
        omega

theorem isoWeeks_isoYear : Year.isoWeeks d.isoYear =
    if Year.firstNumber d.isoYear % 7 = 3 ∨
      Year.firstNumber d.isoYear % 7 = 2 ∧ Year.IsLeap d.isoYear then 53 else 52 := by
  obtain ⟨⟨hfirst, -⟩, hle, -⟩ := d.isoYear_bounds
  exact Year.isoWeeks_eq_ite hfirst (hle.trans d.thursdayNumber_bounds.2)

theorem isoWeeks_eq_thursdays : Year.isoWeeks d.isoYear = thursdays d.isoYear := by
  obtain ⟨⟨hfirst, hlast⟩, -⟩ := d.isoYear_bounds
  have hnext := Year.firstNumber_succ d.isoYear
  have hindex : Weekday.thursday.index = 3 := rfl
  calc Year.isoWeeks d.isoYear = (Year.length d.isoYear + 6 -
          ((Weekday.thursday.index - Year.firstNumber d.isoYear) % 7).toNat) / 7 := by
        rw [isoWeeks_isoYear, Year.length, Year.leapDays]
        by_cases hleap : Year.IsLeap d.isoYear
        · simp only [hleap, and_true, if_true]
          split <;> omega
        · simp only [hleap, and_false, or_false, if_false]
          split <;> omega
    _ = _ := (countP_weekday .thursday hfirst (by omega)).symm
    _ = thursdays d.isoYear := by
        unfold thursdays
        simp only [year_eq_iff, hnext]

theorem isoWeek_le : d.isoWeek ≤ Year.isoWeeks d.isoYear := by
  rw [isoWeek_eq_thursdaysThrough, isoWeeks_eq_thursdays]
  refine List.countP_mono_left fun e _ he ↦ ?_
  rw [decide_eq_true_iff] at he ⊢
  exact ⟨he.1.1, he.2⟩

end Date

end Recurrence
