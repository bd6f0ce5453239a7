import Mathlib.Tactic.IntervalCases
import Recurrence.Text.Numeral

namespace Recurrence

/-- The digits, each in the place of the number that it stands for. -/
def digitChars : List Char := ['0', '1', '2', '3', '4', '5', '6', '7', '8', '9']

/-- The number that digits stand for: one digit with `k` digits after it counts 10 ^ k times. -/
def placeValue : List Char → Nat
  | [] => 0
  | c :: rest => digitChars.idxOf c * 10 ^ rest.length + placeValue rest

namespace Decimal

variable {c : Char} {n width : Nat}

theorem idxOf_digitChars (h : c.isDigit) :
    digitChars.idxOf c = c.toNat - '0'.toNat ∧ digitChars.idxOf c < 10 := by
  obtain ⟨hmin, hmax⟩ : 48 ≤ c.toNat ∧ c.toNat ≤ 57 := by
    simpa [Char.isDigit, UInt32.le_iff_toNat_le] using h
  rw [← Char.ofNat_toNat c]
  generalize c.toNat = n at hmin hmax
  interval_cases n <;> decide

theorem value_eq_placeValue {digits : List Char} (h : ∀ c ∈ digits, c.isDigit) :
    value digits = placeValue digits := by
  rw [value]
  induction digits with
  | nil => rfl
  | cons c digits ih =>
    have hrest := ih fun d hd ↦ h d (List.mem_cons_of_mem c hd)
    rw [Nat.ofDigitChars_cons, Nat.mul_zero, Nat.zero_add, Nat.ofDigitChars_eq_ofDigitChars_zero,
      hrest, placeValue, (idxOf_digitChars (h c List.mem_cons_self)).1, Nat.mul_comm]

example : placeValue ['0', '4', '2'] = 42 := by decide

theorem placeValue_lt {digits : List Char} (h : ∀ c ∈ digits, c.isDigit) :
    placeValue digits < 10 ^ digits.length := by
  induction digits with
  | nil => exact Nat.one_pos
  | cons c digits ih =>
    have hc : digitChars.idxOf c ≤ 9 :=
      Nat.le_of_lt_succ (idxOf_digitChars (h c List.mem_cons_self)).2
    have hrest := ih fun d hd ↦ h d (List.mem_cons_of_mem c hd)
    calc
      placeValue (c :: digits) < 9 * 10 ^ digits.length + 10 ^ digits.length :=
        Nat.add_lt_add_of_le_of_lt (Nat.mul_le_mul_right _ hc) hrest
      _ = 10 ^ (c :: digits).length := by rw [List.length_cons, Nat.pow_succ]; omega

theorem isAlphanum_of_isDigit (h : c.isDigit) : c.isAlphanum := Bool.or_eq_true_iff.2 (.inr h)

theorem isDigit_of_mem_ofNat (h : c ∈ ofNat n) : c.isDigit :=
  Nat.isDigit_of_mem_toDigits (by decide) (by decide) h

theorem ofNat_ne_nil (n : Nat) : ofNat n ≠ [] := Nat.toDigits_ne_nil

theorem isDigit_of_mem_padded (h : c ∈ padded width n) : c.isDigit := by
  rw [padded, List.leftpad, List.mem_append] at h
  obtain h | h := h
  · rw [List.eq_of_mem_replicate h]
    decide
  · exact isDigit_of_mem_ofNat h

theorem padded_ne_nil (width n : Nat) : padded width n ≠ [] :=
  List.append_ne_nil_of_right_ne_nil _ (ofNat_ne_nil n)

theorem length_padded (hpos : 0 < width) (h : n < 10 ^ width) :
    (padded width n).length = width := by
  have hlength : (ofNat n).length ≤ width := (Nat.length_toDigits_le_iff (by decide) hpos).2 h
  rw [padded, List.length_leftpad, Nat.max_eq_left hlength]

theorem read?_padded_append (hpos : 0 < width) (h : n < 10 ^ width) (rest : List Char) :
    read? width (padded width n ++ rest) = some (n, rest) := by
  have hlength := length_padded hpos h
  have htake : (padded width n ++ rest).take width = padded width n := List.take_left' hlength
  have hdrop : (padded width n ++ rest).drop width = rest := List.drop_left' hlength
  have hdigits : (padded width n).all Char.isDigit :=
    List.all_eq_true.2 fun _ ↦ isDigit_of_mem_padded
  simp only [read?, htake, hdrop, hlength, hdigits, and_self, if_true, value_padded]

theorem mem_ofInt {n : Int} (h : c ∈ ofInt n) : c = '-' ∨ c.isDigit := by
  rw [ofInt] at h
  split at h
  · exact (List.mem_cons.1 h).imp_right isDigit_of_mem_ofNat
  · exact .inr (isDigit_of_mem_ofNat h)

theorem mem_paddedInt {n : Int} (h : c ∈ paddedInt width n) : c = '-' ∨ c.isDigit := by
  rw [paddedInt] at h
  split at h
  · exact (List.mem_cons.1 h).imp_right isDigit_of_mem_padded
  · exact .inr (isDigit_of_mem_padded h)

theorem ofInt_ne_nil (n : Int) : ofInt n ≠ [] := by
  rw [ofInt]
  split
  · exact List.cons_ne_nil _ _
  · exact ofNat_ne_nil _

end Decimal

namespace Numeral

theorem unsigned?_ofNat {n : Nat} (h : n < limit) : unsigned? (Decimal.ofNat n) = some n := by
  have hdigits : (Decimal.ofNat n).all Char.isDigit :=
    List.all_eq_true.2 fun _ ↦ Decimal.isDigit_of_mem_ofNat
  simp only [unsigned?, Decimal.value_ofNat]
  rw [if_pos ⟨Decimal.ofNat_ne_nil n, hdigits, h⟩]

/-- No sign is a digit. -/
theorem signed?_of_digits {text : List Char} (h : ∀ c ∈ text, c.isDigit) :
    signed? text = (unsigned? text).map Int.ofNat := by
  cases text with
  | nil => rfl
  | cons c text =>
    have hc : c.isDigit := h c List.mem_cons_self
    rw [signed?]
    · cases unsigned? (c :: text) <;> rfl
    · rintro digits ⟨⟩
      contradiction
    · rintro digits ⟨⟩
      contradiction

theorem signed?_ofNat {n : Nat} (h : n < limit) : signed? (Decimal.ofNat n) = some (n : Int) := by
  rw [signed?_of_digits fun _ ↦ Decimal.isDigit_of_mem_ofNat, unsigned?_ofNat h]
  rfl

theorem signed?_ofInt {n : Int} (h : n.natAbs < limit) : signed? (Decimal.ofInt n) = some n := by
  rw [Decimal.ofInt]
  split
  · have habs : -(n.natAbs : Int) = n := by omega
    rw [signed?, unsigned?_ofNat h]
    exact congrArg some habs
  · have habs : (n.natAbs : Int) = n := by omega
    rw [signed?_ofNat h, habs]

end Numeral

end Recurrence
