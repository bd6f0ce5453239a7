import Recurrence.Proofs.Rule.ValueList

namespace Recurrence

namespace Weekday

theorem ofCode?_code (w : Weekday) : ofCode? w.code = some w := by
  cases w <;> decide

theorem code_ne_nil (w : Weekday) : w.code.toList ≠ [] := by
  cases w <;> decide

theorem isAlpha_code (w : Weekday) : w.code.toList.all Char.isAlpha := by
  cases w <;> decide

theorem isAlphanum_of_mem_code {w : Weekday} {c : Char} (h : c ∈ w.code.toList) : c.isAlphanum :=
  Bool.or_eq_true_iff.2 (.inl (List.all_eq_true.1 w.isAlpha_code c h))

end Weekday

namespace WeekdayNum

def Fits (d : WeekdayNum) : Prop := ∀ n ∈ d.ordinal, Domain.weekdayOrdinal.Contains n

theorem Fits.natAbs_lt_limit {d : WeekdayNum} (h : d.Fits) :
    ∀ n ∈ d.ordinal, n.natAbs < Numeral.limit :=
  fun n hn ↦ Domain.natAbs_lt_limit_of_contains (by decide) (by decide) (h n hn)

theorem mem_chars {d : WeekdayNum} {c : Char} (h : c ∈ d.chars) : c = '-' ∨ c.isAlphanum := by
  obtain ⟨ordinal, weekday⟩ := d
  obtain h | h := List.mem_append.1 h
  · cases ordinal with
    | none => cases h
    | some n => exact (Decimal.mem_ofInt h).imp_right Decimal.isAlphanum_of_isDigit
  · exact .inr (Weekday.isAlphanum_of_mem_code h)

theorem chars_ne_nil (d : WeekdayNum) : d.chars ≠ [] :=
  List.append_ne_nil_of_right_ne_nil _ d.weekday.code_ne_nil

end WeekdayNum

namespace Setting

variable {raw : Slice}

namespace DayForm

theorem filter_narrow? (n : Int) :
    ((Param.byDay.narrow? n).filter fun n ↦ Domain.weekdayOrdinal.Contains n) =
      if Domain.weekdayOrdinal.Contains n then some n else none := by
  by_cases hn : Domain.weekdayOrdinal.Contains n
  · have hnarrow : Param.byDay.narrow? n = some n := Param.narrow?_of_contains hn
    simp [hnarrow, hn]
  · rw [Param.narrow?, if_neg hn]
    split <;> simp [hn]

theorem read_eq (form : DayForm) (item : Slice) : form.read item =
    match Weekday.ofCode? (String.ofList form.letters), form.ordinal? with
    | none, _ => .error (.badChoice .byDay item.text item.span)
    | some weekday, some n =>
      if Domain.weekdayOrdinal.Contains n then .ok ⟨some n, weekday⟩
      else .error (.badInteger .byDay .weekdayOrdinal item.text item.span)
    | some weekday, none =>
      if form.sign = none then .ok ⟨none, weekday⟩
      else .error (.badInteger .byDay .weekdayOrdinal item.text item.span) := by
  rw [read]
  cases Weekday.ofCode? (String.ofList form.letters) with
  | none => rfl
  | some weekday =>
    cases form.ordinal? with
    | none => rfl
    | some n =>
      simp only [filter_narrow?]
      by_cases hn : Domain.weekdayOrdinal.Contains n
      · simp only [if_pos hn]
      · simp only [if_neg hn]

def ofDay (d : WeekdayNum) : DayForm where
  sign := d.ordinal.bind fun n ↦ if n < 0 then some '-' else none
  digits := (d.ordinal.map fun n ↦ Decimal.ofNat n.natAbs).getD []
  letters := d.weekday.code.toList

theorem splitSign_of_isAlphanum {text : List Char} (h : ∀ c ∈ text, c.isAlphanum) :
    splitSign text = (none, text) := by
  cases text with
  | nil => rfl
  | cons c text =>
    have hc : c.isAlphanum := h c List.mem_cons_self
    rw [splitSign]
    · rintro rest ⟨⟩
      contradiction
    · rintro rest ⟨⟩
      contradiction

theorem ofChars?_eq_ite_of_splitSign {text digits letters : List Char} {sign : Option Char}
    (hsign : splitSign text = (sign, digits ++ letters)) (hdigits : ∀ c ∈ digits, c.isDigit)
    (hne : letters ≠ []) (hletters : letters.all Char.isAlpha)
    (hhead : letters.takeWhile Char.isDigit = []) :
    ofChars? text =
      if Decimal.value digits < Numeral.limit then some ⟨sign, digits, letters⟩ else none := by
  have htake : (digits ++ letters).takeWhile Char.isDigit = digits := by
    rw [List.takeWhile_append_of_pos hdigits, hhead, List.append_nil]
  have hdrop : (digits ++ letters).dropWhile Char.isDigit = letters := by
    have hall := List.takeWhile_append_dropWhile (p := Char.isDigit) (l := digits ++ letters)
    rwa [htake, List.append_cancel_left_eq] at hall
  simp [ofChars?, hsign, htake, hdrop, hne, hletters]

theorem ofChars?_of_splitSign {text digits letters : List Char} {sign : Option Char}
    (hsign : splitSign text = (sign, digits ++ letters)) (hdigits : ∀ c ∈ digits, c.isDigit)
    (hlimit : Decimal.value digits < Numeral.limit) (hne : letters ≠ [])
    (hletters : letters.all Char.isAlpha) (hhead : letters.takeWhile Char.isDigit = []) :
    ofChars? text = some ⟨sign, digits, letters⟩ := by
  rw [ofChars?_eq_ite_of_splitSign hsign hdigits hne hletters hhead, if_pos hlimit]

theorem splitSign_chars (n : Int) (weekday : Weekday) :
    splitSign (WeekdayNum.chars ⟨some n, weekday⟩) =
      ((ofDay ⟨some n, weekday⟩).sign, Decimal.ofNat n.natAbs ++ weekday.code.toList) := by
  by_cases hneg : n < 0
  · simp [WeekdayNum.chars, Decimal.ofInt, ofDay, hneg, splitSign]
  · simp only [WeekdayNum.chars, Decimal.ofInt, ofDay, hneg, Option.map_some, Option.getD_some,
      Option.bind_some, if_false]
    refine splitSign_of_isAlphanum fun c hc ↦ ?_
    obtain hc | hc := List.mem_append.1 hc
    · exact Decimal.isAlphanum_of_isDigit (Decimal.isDigit_of_mem_ofNat hc)
    · exact Weekday.isAlphanum_of_mem_code hc

theorem ofChars?_chars {d : WeekdayNum} (h : d.Fits) : ofChars? d.chars = some (ofDay d) := by
  obtain ⟨ordinal, weekday⟩ := d
  have hhead : weekday.code.toList.takeWhile Char.isDigit = [] := by cases weekday <;> rfl
  cases ordinal with
  | none =>
    have hlimit : Decimal.value [] < Numeral.limit := by decide
    have hsign := splitSign_of_isAlphanum fun c (hc : c ∈ weekday.code.toList) ↦
      Weekday.isAlphanum_of_mem_code hc
    exact ofChars?_of_splitSign hsign nofun hlimit weekday.code_ne_nil weekday.isAlpha_code hhead
  | some n =>
    have hlimit : Decimal.value (Decimal.ofNat n.natAbs) < Numeral.limit := by
      rw [Decimal.value_ofNat]
      exact h.natAbs_lt_limit n rfl
    exact ofChars?_of_splitSign (splitSign_chars n weekday) (fun _ ↦ Decimal.isDigit_of_mem_ofNat)
      hlimit weekday.code_ne_nil weekday.isAlpha_code hhead

theorem ordinal?_ofDay (d : WeekdayNum) : (ofDay d).ordinal? = d.ordinal := by
  obtain ⟨ordinal, weekday⟩ := d
  cases ordinal with
  | none => rfl
  | some n =>
    by_cases hneg : n < 0
    · have habs : -(n.natAbs : Int) = n := by omega
      simp only [ordinal?, ofDay, Option.map_some, Option.getD_some, Option.bind_some,
        Decimal.ofNat_ne_nil, Decimal.value_ofNat, hneg, if_true, if_false, habs]
    · have habs : (n.natAbs : Int) = n := by omega
      simp only [ordinal?, ofDay, Option.map_some, Option.getD_some, Option.bind_some,
        Decimal.ofNat_ne_nil, Decimal.value_ofNat, hneg, reduceCtorEq, if_false, habs]

theorem read_ofDay {d : WeekdayNum} (h : d.Fits) (item : Slice) :
    (ofDay d).read item = .ok d := by
  have hordinal := ordinal?_ofDay d
  have hcode : Weekday.ofCode? (String.ofList (ofDay d).letters) = some d.weekday := by
    rw [ofDay, String.ofList_toList, Weekday.ofCode?_code]
  obtain ⟨ordinal, weekday⟩ := d
  cases ordinal with
  | none =>
    simp only [read_eq, hcode, hordinal]
    rfl
  | some n =>
    simp only [read_eq, hcode, hordinal]
    exact if_pos (h n rfl)

theorem fits_of_read {form : DayForm} {item : Slice} {d : WeekdayNum}
    (h : form.read item = .ok d) : d.Fits := by
  rw [read_eq] at h
  split at h
  next => cases h
  next n =>
    obtain ⟨hn, rfl⟩ := ite_eq_ok_iff.1 h
    rintro m ⟨⟩
    exact hn
  next =>
    obtain ⟨-, rfl⟩ := ite_eq_ok_iff.1 h
    exact nofun

end DayForm

theorem readDays_eq_ok {values : List WeekdayNum} (h : IsListOf WeekdayNum.Fits values)
    (hraw : raw.chars = listChars WeekdayNum.chars values) : readDays raw = .ok values := by
  have hcomma (d : WeekdayNum) (_ : d ∈ values) : ',' ∉ d.chars := by
    intro hmem
    obtain hc | hc := WeekdayNum.mem_chars hmem <;> contradiction
  refine readList_eq_ok h hcomma hraw fun d hd ↦ ?_
  exact ⟨DayForm.ofDay d, DayForm.ofChars?_chars hd, DayForm.read_ofDay hd⟩

theorem isListOf_of_readDays {values : List WeekdayNum} (h : readDays raw = .ok values) :
    IsListOf WeekdayNum.Fits values :=
  isListOf_of_readList (fun _ _ _ hread ↦ DayForm.fits_of_read hread) h

end Setting

end Recurrence
