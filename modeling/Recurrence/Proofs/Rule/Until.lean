import Recurrence.Proofs.Calendar.Civil
import Recurrence.Proofs.Text.Decimal
import Recurrence.Rule.Until

namespace Recurrence

theorem Date.year_bounds (d : Date) : -9999 ≤ d.year ∧ d.year ≤ 9999 :=
  Year.ofNumber_bounds d.first_le d.le_last

namespace Until

structure IsExact (b : Until) : Prop where
  year_nonneg : 0 ≤ b.dateTime.date.year
  year_le : b.dateTime.date.year ≤ 9999
  fraction_eq : b.dateTime.time.fraction = 0

/-- No separator is a digit, so what follows is read with or without one. -/
theorem read?_skip_padded_append {separator : Char} {width n : Nat} (hsep : ¬ separator.isDigit)
    (hpos : 0 < width) (h : n < 10 ^ width) (rest : List Char) :
    Decimal.read? width (skip separator (Decimal.padded width n ++ rest)) = some (n, rest) := by
  have hread := Decimal.read?_padded_append hpos h rest
  have hlength := Decimal.length_padded hpos h
  cases hdigits : Decimal.padded width n with
  | nil =>
    rw [hdigits, List.length_nil] at hlength
    omega
  | cons c digits =>
    have hc : c.isDigit := Decimal.isDigit_of_mem_padded (hdigits ▸ List.mem_cons_self)
    have hne : c ≠ separator := by
      rintro rfl
      exact hsep hc
    rw [hdigits, List.cons_append] at hread
    rwa [List.cons_append, skip, if_neg hne]

theorem readDate?_dateChars_append {d : Date} (h : 0 ≤ d.year) (rest : List Char) :
    readDate? (dateChars d ++ rest) = some (d, rest) := by
  have hyear : d.year.natAbs < 10 ^ 4 := by have := d.year_bounds; omega
  have hmonth : d.month < 10 ^ 2 := by have := d.month_le; omega
  have hday : d.day < 10 ^ 2 := by
    have := d.day_le_monthLength
    have := Year.monthLength_bounds d.year d.month_pos
    unfold Date.monthLength at *
    omega
  have habs : (d.year.natAbs : Int) = d.year := by omega
  have hwritten : dateChars d ++ rest = Decimal.padded 4 d.year.natAbs ++
      (Decimal.padded 2 d.month ++ (Decimal.padded 2 d.day ++ rest)) := by
    rw [dateChars, Decimal.paddedInt, if_neg (by omega)]
    simp only [List.append_assoc]
  rw [readDate?, hwritten, Decimal.read?_padded_append (by decide) hyear]
  simp only [Option.bind_eq_bind, Option.bind_some]
  rw [read?_skip_padded_append (by decide) (by decide) hmonth]
  simp only [Option.bind_some]
  rw [read?_skip_padded_append (by decide) (by decide) hday]
  simp only [Option.bind_some, habs, Date.ofCivil?_year_month_day]
  rfl

theorem readTime?_append {t : Time} (h : t.fraction = 0) (rest : List Char) :
    readTime? (Decimal.padded 2 t.hour ++ (Decimal.padded 2 t.minute ++
      (Decimal.padded 2 t.second ++ rest))) = some (t, rest) := by
  have hlt := t.lt_day
  have hhour : t.hour < 10 ^ 2 := by unfold Time.hour; omega
  have hminute : t.minute < 10 ^ 2 := by unfold Time.minute; omega
  have hsecond : t.second < 10 ^ 2 := by unfold Time.second; omega
  have hmin : min t.second 59 = t.second := by unfold Time.second; omega
  have hclock : Time.ofClock? t.hour t.minute t.second 0 = some t :=
    Time.ofClock?_eq_some_iff.2 ⟨rfl, rfl, rfl, h⟩
  rw [readTime?, Decimal.read?_padded_append (by decide) hhour]
  simp only [Option.bind_eq_bind, Option.bind_some]
  rw [read?_skip_padded_append (by decide) (by decide) hminute]
  simp only [Option.bind_some]
  rw [read?_skip_padded_append (by decide) (by decide) hsecond]
  simp only [Option.bind_some, hmin, hclock]
  rfl

theorem readingChars_append (t : DateTime) (rest : List Char) :
    readingChars t ++ rest = dateChars t.date ++ 'T' :: (Decimal.padded 2 t.time.hour ++
      (Decimal.padded 2 t.time.minute ++ (Decimal.padded 2 t.time.second ++ rest))) := by
  simp only [readingChars, List.append_assoc, List.cons_append]

theorem mem_dateChars {d : Date} {c : Char} (h : c ∈ dateChars d) : c = '-' ∨ c.isDigit := by
  rw [dateChars, List.mem_append, List.mem_append] at h
  obtain (h | h) | h := h
  · exact Decimal.mem_paddedInt h
  · exact .inr (Decimal.isDigit_of_mem_padded h)
  · exact .inr (Decimal.isDigit_of_mem_padded h)

theorem mem_readingChars {t : DateTime} {c : Char} (h : c ∈ readingChars t) :
    c = '-' ∨ c.isAlphanum := by
  rw [← List.append_nil (readingChars t), readingChars_append] at h
  simp only [List.mem_append, List.mem_cons] at h
  obtain h | rfl | h | h | h | h := h
  · exact (mem_dateChars h).imp_right Decimal.isAlphanum_of_isDigit
  · exact .inr rfl
  · exact .inr (Decimal.isAlphanum_of_isDigit (Decimal.isDigit_of_mem_padded h))
  · exact .inr (Decimal.isAlphanum_of_isDigit (Decimal.isDigit_of_mem_padded h))
  · exact .inr (Decimal.isAlphanum_of_isDigit (Decimal.isDigit_of_mem_padded h))
  · cases h

theorem mem_chars {b : Until} {c : Char} (h : c ∈ b.chars) : c = '-' ∨ c.isAlphanum := by
  cases b with
  | date d => exact (mem_dateChars h).imp_right Decimal.isAlphanum_of_isDigit
  | floating t => exact mem_readingChars h
  | utc t =>
    obtain h | h := List.mem_append.1 h
    · exact mem_readingChars h
    · rw [List.mem_singleton.1 h]
      exact .inr rfl

theorem dateChars_ne_nil (d : Date) : dateChars d ≠ [] :=
  List.append_ne_nil_of_right_ne_nil _ (Decimal.padded_ne_nil 2 d.day)

theorem readingChars_ne_nil (t : DateTime) : readingChars t ≠ [] :=
  List.append_ne_nil_of_right_ne_nil _ (Decimal.padded_ne_nil 2 t.time.second)

theorem chars_ne_nil (b : Until) : b.chars ≠ [] := by
  cases b with
  | date d => exact dateChars_ne_nil d
  | floating t => exact readingChars_ne_nil t
  | utc t => exact List.append_ne_nil_of_left_ne_nil (readingChars_ne_nil t) _

theorem ofChars?_chars {b : Until} (h : b.IsExact) : ofChars? b.chars = some b := by
  cases b with
  | date d =>
    have hyear : 0 ≤ d.year := h.year_nonneg
    have hread := readDate?_dateChars_append hyear []
    rw [List.append_nil] at hread
    rw [ofChars?, chars, hread]
    rfl
  | floating t =>
    have hyear : 0 ≤ t.date.year := h.year_nonneg
    have hfraction : t.time.fraction = 0 := h.fraction_eq
    have hwritten := readingChars_append t []
    rw [List.append_nil] at hwritten
    rw [ofChars?, chars, hwritten, readDate?_dateChars_append hyear]
    simp only [Option.bind_eq_bind, Option.bind_some]
    rw [readTime?_append hfraction]
    rfl
  | utc t =>
    have hyear : 0 ≤ t.date.year := h.year_nonneg
    have hfraction : t.time.fraction = 0 := h.fraction_eq
    rw [ofChars?, chars, readingChars_append, readDate?_dateChars_append hyear]
    simp only [Option.bind_eq_bind, Option.bind_some]
    rw [readTime?_append hfraction]
    rfl

theorem year_nonneg_of_readDate? {text rest : List Char} {d : Date}
    (h : readDate? text = some (d, rest)) : 0 ≤ d.year := by
  simp only [readDate?, Option.bind_eq_bind, Option.bind_eq_some_iff, Option.pure_def,
    Option.some.injEq, Prod.mk.injEq] at h
  obtain ⟨⟨year, _⟩, -, ⟨month, _⟩, -, ⟨day, _⟩, -, _, hcivil, rfl, -⟩ := h
  rw [(Date.ofCivil?_eq_some_iff.1 hcivil).1]
  exact Int.natCast_nonneg year

theorem fraction_of_readTime? {text rest : List Char} {t : Time}
    (h : readTime? text = some (t, rest)) : t.fraction = 0 := by
  simp only [readTime?, Option.bind_eq_bind, Option.bind_eq_some_iff, Option.pure_def,
    Option.some.injEq, Prod.mk.injEq] at h
  obtain ⟨⟨hour, _⟩, -, ⟨minute, _⟩, -, ⟨second, _⟩, -, _, hclock, rfl, -⟩ := h
  exact (Time.ofClock?_eq_some_iff.1 hclock).2.2.2

theorem isExact_of_ofChars? {text : List Char} {b : Until} (h : ofChars? text = some b) :
    b.IsExact := by
  rw [ofChars?, Option.bind_eq_bind, Option.bind_eq_some_iff] at h
  obtain ⟨⟨d, text⟩, hdate, h⟩ := h
  have hyear := year_nonneg_of_readDate? hdate
  have hle := d.year_bounds.2
  dsimp only at h
  split at h
  · cases h
    exact ⟨hyear, hle, rfl⟩
  · rw [Option.bind_eq_bind, Option.bind_eq_some_iff] at h
    obtain ⟨⟨t, text⟩, htime, h⟩ := h
    have hfraction := fraction_of_readTime? htime
    dsimp only at h
    split at h
    · cases h
      exact ⟨hyear, hle, hfraction⟩
    · cases h
      exact ⟨hyear, hle, hfraction⟩
    · cases h
  · cases h

end Until

end Recurrence
