import Mathlib.Data.Int.Order.Basic
import Recurrence.Proofs.Calendar.Year
import Recurrence.Zone.Table

/-!
How the clocks of a zone keep the order of the days. A wall-clock reading is placed at an instant,
and there the clocks may read later, if a change skips the reading. In the zones of the table a
change skips nothing across midnight but whole days, so that the midnight of a day comes first.
-/

namespace Recurrence

namespace Zone

variable (z : Zone)

def place (wall : Int) : Int := wall - (z.offsetOn wall).nanos

def read (instant : Int) : Int := instant + (z.offsetAt instant).nanos

/-- What the clocks show at the instant of a reading. -/
def settle (wall : Int) : Int := z.read (z.place wall)

def midnightOf (wall : Int) : Int := wall / 86400000000000 * 86400000000000

structure KeepsDays : Prop where
  le_settle : ∀ w, w ≤ z.settle w
  settle_le : ∀ w, z.settle w ≤ w + 86400000000000
  spread : ∀ v w, (z.offsetOn v).minutes ≤ (z.offsetOn w).minutes + 1440
  place_midnight_le : ∀ w, z.place (midnightOf w) ≤ z.place w
  settle_midnight_le : ∀ w, z.settle (midnightOf w) ≤ z.settle w
  west : ∀ w, -720 ≤ (z.offsetOn w).minutes
  east : ∀ p, (z.offsetAt p).minutes ≤ 840
  /-- No zone in the far west skips anything. -/
  settle_eq : ∀ w, (z.offsetOn w).minutes < -600 → z.settle w = w

end Zone

namespace SundayRule

def IsRegular : SundayRule → Prop
  | nth n => 1 ≤ n ∧ n ≤ 4
  | last => True

instance : DecidablePred IsRegular
  | nth n => inferInstanceAs (Decidable (1 ≤ n ∧ n ≤ 4))
  | last => .isTrue trivial

theorem number_bounds {rule : SundayRule} (h : rule.IsRegular) (y : Int) {m : Nat} (hm : 1 ≤ m) :
    Date.civilNumber y m 1 ≤ rule.number y m ∧ rule.number y m ≤ Date.civilNumber y m 1 + 30 := by
  have hlength := Year.monthLength_bounds y hm
  cases rule with
  | nth n =>
    obtain ⟨h₁, h₄⟩ : 1 ≤ n ∧ n ≤ 4 := h
    simp only [number, Date.civilNumber]
    omega
  | last =>
    simp only [number, Date.civilNumber]
    omega

end SundayRule

namespace YearlyChange

/-- Two changes in the same year, months apart and each undoing the other, that move the clocks by
an hour at most and skip nothing across midnight. -/
def Alternate (first second : YearlyChange) : Prop :=
  (second.before = first.after ∧ second.after = first.before) ∧
  (first.sunday.IsRegular ∧ second.sunday.IsRegular) ∧
  (2 ≤ first.month ∧ first.month + 2 ≤ second.month ∧ second.month ≤ 11) ∧
  (first.minute ≤ 1380 ∧ second.minute ≤ 1380) ∧
  (first.before.minutes ≤ first.after.minutes + 60 ∧
    first.after.minutes ≤ first.before.minutes + 60) ∧
  (-600 ≤ first.before.minutes ∧ first.before.minutes ≤ 840) ∧
  (-600 ≤ first.after.minutes ∧ first.after.minutes ≤ 840)

instance (first second : YearlyChange) : Decidable (Alternate first second) :=
  inferInstanceAs (Decidable (_ ∧ _))

variable {first second : YearlyChange}

theorem Alternate.number_bounds (h : Alternate first second) (y : Int) :
    Year.firstNumber y + 31 ≤ first.sunday.number y first.month ∧
    first.sunday.number y first.month + 26 ≤ second.sunday.number y second.month ∧
    second.sunday.number y second.month + 30 ≤ Year.firstNumber (y + 1) := by
  obtain ⟨-, ⟨hs₁, hs₂⟩, ⟨hm₁, hm₁₂, hm₂⟩, -⟩ := h
  have hfirst := SundayRule.number_bounds hs₁ y (m := first.month) (by omega)
  have hsecond := SundayRule.number_bounds hs₂ y (m := second.month) (by omega)
  have hleap := Year.leapDays_le_one y
  have hyear := Year.firstNumber_succ y
  simp only [Year.length, Date.civilNumber, Year.daysBefore] at *
  split at hfirst <;> split at hsecond <;> omega

theorem Alternate.instant_bounds (h : Alternate first second) (y : Int) :
    (Year.firstNumber y + 4) * 86400000000000 ≤ (first.transition y).instant ∧
    (first.transition y).instant + 345600000000000 ≤ (second.transition y).instant ∧
    (second.transition y).instant ≤ (Year.firstNumber (y + 1) - 4) * 86400000000000 := by
  have hnumbers := h.number_bounds y
  obtain ⟨⟨hback, -⟩, -, -, ⟨hm₁, hm₂⟩, -, ⟨hb₁, hb₂⟩, ⟨ha₁, ha₂⟩⟩ := h
  simp only [transition, hback]
  omega

/-- The changes come on Sundays, at their minutes on the clocks as they are before them. -/
theorem Alternate.instant_add_nanos (h : Alternate first second) (y : Int) :
    (first.transition y).instant + first.before.nanos =
        first.sunday.number y first.month * 86400000000000 + first.minute * 60000000000 ∧
      (second.transition y).instant + first.after.nanos =
        second.sunday.number y second.month * 86400000000000 + second.minute * 60000000000 := by
  simp only [transition, h.1.1, Offset.nanos]
  omega

theorem Alternate.settled_eq (h : Alternate first second) (y : Int) :
    (first.transition y).settled =
        (first.transition y).instant + max first.before.nanos first.after.nanos ∧
      (second.transition y).settled =
        (second.transition y).instant + max first.after.nanos first.before.nanos := by
  refine ⟨rfl, ?_⟩
  rw [← h.1.1, ← h.1.2]
  rfl

end YearlyChange

namespace Zone

theorem bounds_of_two_offsets {z : Zone} {a b : Offset}
    (hon : ∀ w, z.offsetOn w = a ∨ z.offsetOn w = b)
    (hat : ∀ p, z.offsetAt p = a ∨ z.offsetAt p = b) (ha : -600 ≤ a.minutes ∧ a.minutes ≤ 840)
    (hb : -600 ≤ b.minutes ∧ b.minutes ≤ 840) :
    (∀ w, -600 ≤ (z.offsetOn w).minutes ∧ (z.offsetOn w).minutes ≤ 840) ∧
      ∀ p, (z.offsetAt p).minutes ≤ 840 := by
  constructor
  · intro w
    obtain hw | hw := hon w
    · rwa [hw]
    · rwa [hw]
  · intro p
    obtain hp | hp := hat p
    · rw [hp]
      exact ha.2
    · rw [hp]
      exact hb.2

section Seasonal

variable {first second : YearlyChange} {y w p : Int}

theorem offsetOn_seasonal (h : Year.ofNumber (w / 86400000000000) = y) :
    (seasonal first second).offsetOn w =
      if (second.transition y).settled ≤ w then second.after
      else if (first.transition y).settled ≤ w then first.after else first.before := by
  subst h
  rfl

theorem offsetAt_seasonal (halt : first.Alternate second)
    (hfirst : Year.firstNumber y - 2 ≤ p / 86400000000000)
    (hlast : p / 86400000000000 < Year.firstNumber (y + 1) + 2) :
    (seasonal first second).offsetAt p =
      if (second.transition y).instant ≤ p then second.after
      else if (first.transition y).instant ≤ p then first.after else first.before := by
  have hwithin := halt.instant_bounds y
  obtain hlt | hle := Int.lt_or_le (p / 86400000000000) (Year.firstNumber y)
  · have hbefore := halt.instant_bounds (y - 1)
    rw [Int.sub_add_cancel] at hbefore
    have hy : Year.ofNumber (p / 86400000000000) = y - 1 := by
      rw [Year.ofNumber_eq_iff, Int.sub_add_cancel]
      omega
    rw [offsetAt, hy, if_neg (by omega), if_neg (by omega)]
    simp only [transitions, List.foldl_cons, List.foldl_nil]
    rw [if_pos (by omega)]
    exact halt.1.2
  obtain hlt | hle' := Int.lt_or_le (p / 86400000000000) (Year.firstNumber (y + 1))
  · have hy : Year.ofNumber (p / 86400000000000) = y := Year.ofNumber_eq_iff.2 ⟨hle, hlt⟩
    rw [offsetAt, hy]
    rfl
  · have hafter := halt.instant_bounds (y + 1)
    have hy : Year.ofNumber (p / 86400000000000) = y + 1 := by
      rw [Year.ofNumber_eq_iff]
      omega
    rw [offsetAt, hy, if_pos (by omega)]
    simp only [transitions, List.foldl_cons, List.foldl_nil]
    rw [if_neg (by omega), if_neg (by omega)]
    exact halt.1.2.symm

theorem offsetOn_seasonal_eq_or (halt : first.Alternate second) (w : Int) :
    (seasonal first second).offsetOn w = first.before ∨
      (seasonal first second).offsetOn w = first.after := by
  rw [offsetOn_seasonal rfl, halt.1.2]
  split
  · exact .inl rfl
  · split
    · exact .inr rfl
    · exact .inl rfl

theorem offsetAt_seasonal_eq_or (halt : first.Alternate second) (p : Int) :
    (seasonal first second).offsetAt p = first.before ∨
      (seasonal first second).offsetAt p = first.after := by
  rw [offsetAt_seasonal (y := Year.ofNumber (p / 86400000000000)) halt, halt.1.2]
  · split
    · exact .inl rfl
    · split
      · exact .inr rfl
      · exact .inl rfl
  · have := Year.firstNumber_ofNumber_le (p / 86400000000000)
    omega
  · have := Year.lt_firstNumber_ofNumber_succ (p / 86400000000000)
    omega

theorem settle_seasonal (halt : first.Alternate second)
    (hy : Year.ofNumber (w / 86400000000000) = y) :
    (seasonal first second).settle w =
      if (first.transition y).instant + first.before.nanos ≤ w ∧
        w < (first.transition y).instant + first.after.nanos
      then w + first.after.nanos - first.before.nanos
      else if (second.transition y).instant + first.after.nanos ≤ w ∧
        w < (second.transition y).instant + first.before.nanos
      then w + first.before.nanos - first.after.nanos
      else w := by
  have hinstants := halt.instant_bounds y
  obtain ⟨hle, hlt⟩ := Year.ofNumber_eq_iff.1 hy
  have hread {o : Offset} (ho : (seasonal first second).offsetOn w = o)
      (hnear : -840 ≤ o.minutes ∧ o.minutes ≤ 840) :
      (seasonal first second).settle w = w - o.nanos +
        (if (second.transition y).instant ≤ w - o.nanos then second.after
          else if (first.transition y).instant ≤ w - o.nanos then first.after
          else first.before).nanos := by
    rw [← offsetAt_seasonal halt, settle, read, place, ho] <;> simp only [Offset.nanos] <;> omega
  obtain ⟨hsettled₁, hsettled₂⟩ := halt.settled_eq y
  obtain ⟨⟨-, hforth⟩, -, -, -, hhour, ⟨hb₁, hb₂⟩, ⟨ha₁, ha₂⟩⟩ := halt
  have hbefore : first.before.nanos = first.before.minutes * 60000000000 := rfl
  have hafter : first.after.nanos = first.after.minutes * 60000000000 := rfl
  rw [hforth] at hread
  -- the reading comes after both changes, between them or before both
  by_cases hsecond : (second.transition y).settled ≤ w
  · rw [hread ((offsetOn_seasonal hy).trans ((if_pos hsecond).trans hforth)) (by omega),
      if_pos (by omega), if_neg (by omega), if_neg (by omega)]
    omega
  by_cases hfirst : (first.transition y).settled ≤ w
  · rw [hread ((offsetOn_seasonal hy).trans ((if_neg hsecond).trans (if_pos hfirst))) (by omega)]
    by_cases hlate : (second.transition y).instant ≤ w - first.after.nanos
    · rw [if_pos hlate, if_neg (by omega), if_pos (by omega)]
      omega
    · rw [if_neg hlate, if_pos (by omega), if_neg (by omega), if_neg (by omega)]
      omega
  · rw [hread ((offsetOn_seasonal hy).trans ((if_neg hsecond).trans (if_neg hfirst))) (by omega),
      if_neg (by omega)]
    by_cases hlate : (first.transition y).instant ≤ w - first.before.nanos
    · rw [if_pos hlate, if_pos (by omega)]
      omega
    · rw [if_neg hlate, if_neg (by omega), if_neg (by omega)]
      omega

theorem midnightOf_div (w : Int) : midnightOf w / 86400000000000 = w / 86400000000000 := by
  unfold midnightOf
  omega

theorem place_midnight_le_seasonal (halt : first.Alternate second) (w : Int) :
    (seasonal first second).place (midnightOf w) ≤ (seasonal first second).place w := by
  obtain ⟨hsunday₁, hsunday₂⟩ := halt.instant_add_nanos (Year.ofNumber (w / 86400000000000))
  obtain ⟨hsettled₁, hsettled₂⟩ := halt.settled_eq (Year.ofNumber (w / 86400000000000))
  obtain ⟨⟨-, hforth⟩, -, -, ⟨hm₁, hm₂⟩, hhour, -⟩ := halt
  have hbefore : first.before.nanos = first.before.minutes * 60000000000 := rfl
  have hafter : first.after.nanos = first.after.minutes * 60000000000 := rfl
  rw [place, place, offsetOn_seasonal rfl, offsetOn_seasonal rfl, midnightOf_div, hforth]
  unfold midnightOf
  split_ifs <;> omega

theorem keepsDays_seasonal (halt : first.Alternate second) : (seasonal first second).KeepsDays := by
  have hsettle (w : Int) := settle_seasonal halt (w := w) rfl
  have hbefore : first.before.nanos = first.before.minutes * 60000000000 := rfl
  have hafter : first.after.nanos = first.after.minutes * 60000000000 := rfl
  obtain ⟨-, -, -, ⟨hm₁, hm₂⟩, hhour, hb, ha⟩ := id halt
  obtain ⟨hwithin, heast⟩ := bounds_of_two_offsets (offsetOn_seasonal_eq_or halt)
    (offsetAt_seasonal_eq_or halt) hb ha
  constructor
  case le_settle =>
    intro w
    rw [hsettle]
    split_ifs <;> omega
  case settle_le =>
    intro w
    rw [hsettle]
    split_ifs <;> omega
  case spread =>
    intro v w
    have hv := hwithin v
    have hw := hwithin w
    omega
  case place_midnight_le => exact place_midnight_le_seasonal halt
  case settle_midnight_le =>
    intro w
    obtain ⟨h₁, h₂⟩ := halt.instant_add_nanos (Year.ofNumber (w / 86400000000000))
    rw [hsettle, hsettle, midnightOf_div]
    unfold midnightOf
    split_ifs <;> omega
  case west =>
    intro w
    have hw := hwithin w
    omega
  case east => exact heast
  case settle_eq =>
    intro w hw
    have hw' := hwithin w
    omega

end Seasonal

theorem keepsDays_fixed {o : Offset} (ho : -720 ≤ o.minutes ∧ o.minutes ≤ 840) :
    (fixed o).KeepsDays := by
  have hsettle (w : Int) : (fixed o).settle w = w := Int.sub_add_cancel w o.nanos
  have hplace (w : Int) : (fixed o).place w = w - o.nanos := rfl
  constructor
  case le_settle =>
    intro w
    rw [hsettle]
  case settle_le =>
    intro w
    rw [hsettle]
    omega
  case spread =>
    intro v w
    exact Int.le_add_of_nonneg_right (by decide)
  case place_midnight_le =>
    intro w
    rw [hplace, hplace]
    unfold midnightOf
    omega
  case settle_midnight_le =>
    intro w
    rw [hsettle, hsettle]
    unfold midnightOf
    omega
  case west => exact fun _ ↦ ho.1
  case east => exact fun _ ↦ ho.2
  case settle_eq => exact fun w _ ↦ hsettle w

section Shifted

variable {change : Transition} {w : Int}

theorem offsetOn_shifted : (shifted change).offsetOn w =
    if change.settled ≤ w then change.after else change.before := rfl

theorem offsetAt_shifted {p : Int} : (shifted change).offsetAt p =
    if change.instant ≤ p then change.after else change.before := rfl

theorem settle_shifted : (shifted change).settle w =
    if change.instant + change.before.nanos ≤ w ∧ w < change.instant + change.after.nanos
    then w + change.after.nanos - change.before.nanos else w := by
  rw [settle, read, place, offsetOn_shifted, offsetAt_shifted, Transition.settled]
  split_ifs <;> omega

theorem keepsDays_shifted (hday : (change.instant + change.before.nanos) % 86400000000000 = 0)
    (hforward : change.before.minutes ≤ change.after.minutes ∧
      change.after.minutes ≤ change.before.minutes + 1440)
    (hbounds : -600 ≤ change.before.minutes ∧ change.after.minutes ≤ 840) :
    (shifted change).KeepsDays := by
  have hbefore : change.before.nanos = change.before.minutes * 60000000000 := rfl
  have hafter : change.after.nanos = change.after.minutes * 60000000000 := rfl
  have hon (w : Int) : (shifted change).offsetOn w = change.after ∨
      (shifted change).offsetOn w = change.before := ite_eq_or_eq ..
  have hat (p : Int) : (shifted change).offsetAt p = change.after ∨
      (shifted change).offsetAt p = change.before := by
    rw [offsetAt_shifted]
    exact ite_eq_or_eq ..
  obtain ⟨hwithin, heast⟩ := bounds_of_two_offsets hon hat (by omega) (by omega)
  constructor
  case le_settle =>
    intro w
    rw [settle_shifted]
    split_ifs <;> omega
  case settle_le =>
    intro w
    rw [settle_shifted]
    split_ifs <;> omega
  case spread =>
    intro v w
    have hv := hwithin v
    have hw := hwithin w
    omega
  case place_midnight_le =>
    intro w
    rw [place, place, offsetOn_shifted, offsetOn_shifted, Transition.settled]
    unfold midnightOf
    split_ifs <;> omega
  case settle_midnight_le =>
    intro w
    rw [settle_shifted, settle_shifted]
    unfold midnightOf
    split_ifs <;> omega
  case west =>
    intro w
    have hw := hwithin w
    omega
  case east => exact heast
  case settle_eq =>
    intro w hw
    have hw' := hwithin w
    omega

end Shifted

def IsNamed (z : Zone) : Prop := z ∈ named.map (·.2)

instance : DecidablePred IsNamed := fun z ↦ inferInstanceAs (Decidable (z ∈ named.map (·.2)))

/-- What is relied on of the zones of the table. -/
def IsRegular : Zone → Prop
  | fixed o => -720 ≤ o.minutes ∧ o.minutes ≤ 840
  | seasonal first second => first.Alternate second
  | shifted change => shifted change = apia

instance : DecidablePred IsRegular
  | fixed o => inferInstanceAs (Decidable (-720 ≤ o.minutes ∧ o.minutes ≤ 840))
  | seasonal first second => inferInstanceAs (Decidable (first.Alternate second))
  | shifted change => inferInstanceAs (Decidable (shifted change = apia))

theorem IsNamed.isRegular {z : Zone} (h : z.IsNamed) : z.IsRegular := by
  have hall : ∀ z ∈ named.map (·.2), z.IsRegular := by decide
  exact hall z h

theorem IsNamed.keepsDays {z : Zone} (h : z.IsNamed) : z.KeepsDays := by
  have hregular := h.isRegular
  cases z with
  | fixed o => exact keepsDays_fixed hregular
  | seasonal first second => exact keepsDays_seasonal hregular
  | shifted change =>
    rw [show shifted change = apia from hregular]
    exact keepsDays_shifted (by decide) (by decide) (by decide)

end Zone

end Recurrence
