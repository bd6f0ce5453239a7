import Recurrence.Proofs.Text.Decimal

namespace Recurrence

def IsDigits (text : List Char) : Prop := text ≠ [] ∧ ∀ c ∈ text, c.isDigit

/-- The text is an integer in decimal digits, zeros in front included, after an optional sign. -/
inductive IsNumeral : List Char → Int → Prop
  | plain {digits : List Char} : IsDigits digits → IsNumeral digits (placeValue digits)
  | plus {digits : List Char} : IsDigits digits → IsNumeral ('+' :: digits) (placeValue digits)
  | minus {digits : List Char} : IsDigits digits → IsNumeral ('-' :: digits) (-placeValue digits)

namespace IsNumeral

variable {text : List Char} {n : Int}

theorem mem (h : IsNumeral text n) {c : Char} (hc : c ∈ text) : c = '+' ∨ c = '-' ∨ c.isDigit := by
  cases h with
  | plain h => exact .inr (.inr (h.2 c hc))
  | plus h =>
    rcases List.mem_cons.1 hc with rfl | hc
    · exact .inl rfl
    · exact .inr (.inr (h.2 c hc))
  | minus h =>
    rcases List.mem_cons.1 hc with rfl | hc
    · exact .inr (.inl rfl)
    · exact .inr (.inr (h.2 c hc))

theorem of_placeValue {k : Nat} (h : IsDigits text) (hk : placeValue text = k) :
    IsNumeral text k :=
  hk ▸ .plain h

theorem comma_not_mem (h : IsNumeral text n) : ',' ∉ text := by
  intro hmem
  rcases h.mem hmem with hc | hc | hc <;> contradiction

theorem ne_nil (h : IsNumeral text n) : text ≠ [] := by
  cases h with
  | plain h => exact h.1
  | plus _ | minus _ => exact List.cons_ne_nil _ _

end IsNumeral

namespace Numeral

variable {text : List Char} {n : Int}

theorem unsigned?_of_isDigits (h : IsDigits text) :
    unsigned? text = if placeValue text < limit then some (placeValue text) else none := by
  rw [unsigned?, Decimal.value_eq_placeValue h.2]
  exact if_congr ((and_iff_right h.1).trans (and_iff_right (List.all_eq_true.2 h.2))) rfl rfl

theorem unsigned?_eq_some_iff {k : Nat} : unsigned? text = some k ↔
    IsDigits text ∧ placeValue text = k ∧ k < limit := by
  constructor
  · intro h
    have hdigits : IsDigits text := by
      rw [unsigned?] at h
      split at h
      next hdigits => exact ⟨hdigits.1, List.all_eq_true.1 hdigits.2.1⟩
      next => contradiction
    rw [unsigned?_of_isDigits hdigits] at h
    split at h
    next hlimit =>
      obtain rfl := Option.some.inj h
      exact ⟨hdigits, rfl, hlimit⟩
    next => contradiction
  · rintro ⟨hdigits, rfl, hlimit⟩
    rw [unsigned?_of_isDigits hdigits, if_pos hlimit]

theorem signed?_of_isNumeral (h : IsNumeral text n) (hlimit : n.natAbs < limit) :
    signed? text = some n := by
  have hunsigned {digits : List Char} (hdigits : IsDigits digits)
      (hvalue : placeValue digits < limit) : unsigned? digits = some (placeValue digits) :=
    unsigned?_eq_some_iff.2 ⟨hdigits, rfl, hvalue⟩
  cases h with
  | plain h =>
    rw [signed?_of_digits h.2, hunsigned h (by simpa using hlimit)]
    simp
  | plus h =>
    rw [signed?, hunsigned h (by simpa using hlimit)]
    simp
  | minus h =>
    rw [signed?, hunsigned h (by simpa using hlimit)]
    simp

theorem signed?_eq_none_of_isNumeral (h : IsNumeral text n) (hlimit : limit ≤ n.natAbs) :
    signed? text = none := by
  have hunsigned {digits : List Char} (hdigits : IsDigits digits)
      (hvalue : limit ≤ placeValue digits) : unsigned? digits = none := by
    rw [unsigned?_of_isDigits hdigits, if_neg (Nat.not_lt.2 hvalue)]
  cases h with
  | plain h =>
    rw [signed?_of_digits h.2, hunsigned h (by simpa using hlimit)]
    rfl
  | plus h =>
    rw [signed?, hunsigned h (by simpa using hlimit)]
    rfl
  | minus h =>
    rw [signed?, hunsigned h (by simpa using hlimit)]
    rfl

theorem eq_of_isNumeral_of_signed? {m : Int} (h : IsNumeral text n) (hread : signed? text = some m) :
    m = n := by
  rcases Nat.lt_or_ge n.natAbs limit with hlimit | hlimit
  · rw [signed?_of_isNumeral h hlimit] at hread
    exact (Option.some.inj hread).symm
  · rw [signed?_eq_none_of_isNumeral h hlimit] at hread
    contradiction

theorem isNumeral_of_signed? (h : signed? text = some n) : IsNumeral text n := by
  rw [signed?.eq_def] at h
  split at h
  next digits =>
    obtain ⟨k, hk, rfl⟩ : ∃ k, unsigned? digits = some k ∧ (k : Int) = n := by
      simpa [Option.bind_eq_some_iff] using h
    obtain ⟨hdigits, rfl, -⟩ := unsigned?_eq_some_iff.1 hk
    exact .plus hdigits
  next digits =>
    obtain ⟨k, hk, rfl⟩ : ∃ k, unsigned? digits = some k ∧ -(k : Int) = n := by
      simpa [Option.bind_eq_some_iff] using h
    obtain ⟨hdigits, rfl, -⟩ := unsigned?_eq_some_iff.1 hk
    exact .minus hdigits
  next =>
    obtain ⟨k, hk, rfl⟩ : ∃ k, unsigned? text = some k ∧ (k : Int) = n := by
      simpa [Option.bind_eq_some_iff] using h
    obtain ⟨hdigits, rfl, -⟩ := unsigned?_eq_some_iff.1 hk
    exact .plain hdigits

end Numeral

end Recurrence
