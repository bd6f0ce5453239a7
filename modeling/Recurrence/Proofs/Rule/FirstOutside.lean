import Recurrence.Proofs.Rule.ValueGrammar

namespace Recurrence

/-- An item of BYDAY: a weekday code in letters of either case, alone or after an integer. -/
inductive IsCountedDay : List Char → Option Int → Prop
  | every {letters : List Char} {w : Weekday} :
      letters.map Char.toUpper = w.code.toList → IsCountedDay letters none
  | nth {numeral letters : List Char} {n : Int} {w : Weekday} : IsNumeral numeral n →
      letters.map Char.toUpper = w.code.toList → IsCountedDay (numeral ++ letters) (some n)

/-- The text is an item of the parameter's list, and the number is the integer in it, if any. -/
inductive Param.IsItem : Param → List Char → Option Int → Prop
  | integer {param : Param} {text : List Char} {n : Int} :
      param ∈ [byMonth, byWeekNo, byMonthDay, bySetPos] → IsNumeral text n →
        IsItem param text (some n)
  | day {text : List Char} {number : Option Int} : IsCountedDay text number →
      IsItem byDay text number

theorem IsCountedDay.comma_not_mem {text : List Char} {number : Option Int}
    (h : IsCountedDay text number) : ',' ∉ text := by
  cases h with
  | every h => exact Weekday.comma_not_mem_of_map_toUpper h
  | nth hnumeral h =>
    intro hmem
    rcases List.mem_append.1 hmem with hmem | hmem
    · exact hnumeral.comma_not_mem hmem
    · exact Weekday.comma_not_mem_of_map_toUpper h hmem

namespace Param.IsItem

variable {param : Param} {text : List Char} {number : Option Int}

theorem comma_not_mem (h : param.IsItem text number) : ',' ∉ text := by
  cases h with
  | integer _ hnumeral => exact hnumeral.comma_not_mem
  | day hday => exact hday.comma_not_mem

theorem ne_nil (h : param.IsItem text number) : text ≠ [] := by
  cases h with
  | integer _ hnumeral => exact hnumeral.ne_nil
  | day hday =>
    cases hday with
    | every h => exact Weekday.ne_nil_of_map_toUpper h
    | nth hnumeral _ => exact List.append_ne_nil_of_left_ne_nil hnumeral.ne_nil _

end Param.IsItem

namespace Setting

/-- The first of the items whose integer lies outside the domain. -/
def IsFirstOutside (param : Param) (raw item : Slice) : Prop :=
  ∃ before after, raw.splitOn ',' = before ++ item :: after ∧
    (∀ b ∈ before, ∃ number, param.IsItem b.chars number ∧
      ∀ n ∈ number, param.numberDomain.Contains n) ∧
    ∃ n, param.IsItem item.chars (some n) ∧ ¬ param.numberDomain.Contains n

/-- Every item of the value is one of the parameter's list, its number below the limit. -/
def IsBelowLimit (param : Param) (raw : Slice) : Prop :=
  ∀ item ∈ raw.splitOn ',', ∃ number, param.IsItem item.chars number ∧
    ∀ n ∈ number, n.natAbs < Numeral.limit

def formError : Param → Slice → RuleError
  | .byDay, raw => .badChoice .byDay raw.text raw.span
  | param, raw => .badInteger param param.domain raw.text raw.span

variable {param : Param} {raw item : Slice} {numbers : List (Option Int)} {n : Int}

theorem forall₂_isItem (h : IsListText param.IsItem raw.chars numbers) :
    List.Forall₂ (fun item number ↦ param.IsItem item.chars number) (raw.splitOn ',') numbers := by
  rw [forall₂_splitOn_iff]
  exact (isListText_iff fun text number hitem ↦ hitem.comma_not_mem).1 h

/-- Of items that are read exactly if their number is inside the domain, the first that is not is
named. -/
theorem readList_of_outside {α β : Type} [BEq β] {form? : List Char → Option α}
    {refusal : RuleError} {readItem : α → Slice → Except RuleError β}
    (hform : ∀ text number, param.IsItem text number →
      (∀ n ∈ number, n.natAbs < Numeral.limit) → form? text ≠ none)
    (hinside : ∀ {item : Slice} {number a v}, param.IsItem item.chars number →
      form? item.chars = some a → readItem a item = .ok v →
      ∀ n ∈ number, param.numberDomain.Contains n)
    (houtside : ∀ {item : Slice} {number a e}, param.IsItem item.chars number →
      form? item.chars = some a → readItem a item = .error e →
      ∃ n, number = some n ∧ ¬ param.numberDomain.Contains n ∧
        e = .badInteger param param.numberDomain item.text item.span)
    (hbelow : IsBelowLimit param raw) (hitem : item ∈ raw.splitOn ',')
    (hn : param.IsItem item.chars (some n)) (hout : ¬ param.numberDomain.Contains n) :
    ∃ item, IsFirstOutside param raw item ∧ readList form? refusal readItem raw =
      .error (.badInteger param param.numberDomain item.text item.span) := by
  cases hlist : readList form? refusal readItem raw with
  | ok values =>
    obtain ⟨written, hwritten, -⟩ := readList_eq_ok_iff.1 hlist
    obtain ⟨v, -, a, ha, hv⟩ := exists_mem_of_forall₂ hwritten.flip hitem
    exact absurd (hinside hn ha hv n rfl) hout
  | error e =>
    rcases of_readList_eq_error hlist with
      ⟨item, hitem, hnone, -⟩ | ⟨before, item, after, hsplit, hbefore, a, ha, he⟩
    · obtain ⟨number, hnumber, hlimit⟩ := hbelow item hitem
      exact absurd hnone (hform _ number hnumber hlimit)
    · obtain ⟨number, hnumber, -⟩ :=
        hbelow item (hsplit ▸ List.mem_append_right before List.mem_cons_self)
      obtain ⟨m, rfl, hm, rfl⟩ := houtside hnumber ha he
      refine ⟨item, ⟨before, after, hsplit, ?_, m, hnumber, hm⟩, rfl⟩
      intro b hb
      obtain ⟨a, v, ha, hv⟩ := hbefore b hb
      obtain ⟨number, hnumber, -⟩ := hbelow b (hsplit ▸ List.mem_append_left _ hb)
      exact ⟨number, hnumber, hinside hnumber ha hv⟩

section Integers

variable (hparam : param ∈ [Param.byMonth, .byWeekNo, .byMonthDay, .bySetPos])

include hparam

theorem numberDomain_of_mem : param.numberDomain = param.domain := by
  simp only [List.mem_cons, List.not_mem_nil, or_false] at hparam
  rcases hparam with rfl | rfl | rfl | rfl <;> rfl

theorem formError_of_mem :
    formError param raw = .badInteger param param.domain raw.text raw.span := by
  simp only [List.mem_cons, List.not_mem_nil, or_false] at hparam
  rcases hparam with rfl | rfl | rfl | rfl <;> rfl

theorem read_of_readIntegers {e : RuleError} (hne : raw.chars ≠ [])
    (h : readIntegers param raw = .error e) : read param raw = .error e := by
  simp only [List.mem_cons, List.not_mem_nil, or_false] at hparam
  rcases hparam with rfl | rfl | rfl | rfl <;> simp only [read, if_neg hne, map_eq_error_iff, h]

theorem isNumeral_of_isItem {text : List Char} {number : Option Int}
    (h : param.IsItem text number) : ∃ n, number = some n ∧ IsNumeral text n := by
  cases h with
  | integer _ hnumeral => exact ⟨_, rfl, hnumeral⟩
  | day => exact absurd hparam (by decide)

theorem readIntegers_of_beyond (hitem : item ∈ raw.splitOn ',') (hn : IsNumeral item.chars n)
    (hlimit : Numeral.limit ≤ n.natAbs) : readIntegers param raw = .error (formError param raw) := by
  rw [formError_of_mem hparam]
  exact readList_eq_refusal hitem (Numeral.signed?_eq_none_of_isNumeral hn hlimit)

theorem readIntegers_of_outside (hbelow : IsBelowLimit param raw) (hitem : item ∈ raw.splitOn ',')
    (hn : param.IsItem item.chars (some n)) (hout : ¬ param.numberDomain.Contains n) :
    ∃ item, IsFirstOutside param raw item ∧ readIntegers param raw =
      .error (.badInteger param param.numberDomain item.text item.span) := by
  have hsame {item : Slice} {number : Option Int} {m : Int} (hnumber : param.IsItem item.chars number)
      (hread : Numeral.signed? item.chars = some m) : number = some m := by
    obtain ⟨k, rfl, hk⟩ := isNumeral_of_isItem hparam hnumber
    rw [Numeral.eq_of_isNumeral_of_signed? hk hread]
  refine readList_of_outside ?_ ?_ ?_ hbelow hitem hn hout
  · intro text number hnumber hlimit
    obtain ⟨m, rfl, hm⟩ := isNumeral_of_isItem hparam hnumber
    rw [Numeral.signed?_of_isNumeral hm (hlimit m rfl)]
    exact Option.some_ne_none m
  · intro item number m v hnumber hread hv
    obtain rfl := hsame hnumber hread
    rintro _ ⟨⟩
    rw [numberDomain_of_mem hparam]
    exact (readNumber_eq_ok_iff.1 hv).1
  · intro item number m e hnumber hread he
    rw [readNumber_eq_ite] at he
    rw [numberDomain_of_mem hparam]
    split at he
    next => contradiction
    next hm => exact ⟨m, hsame hnumber hread, hm, (Except.error.inj he).symm⟩

end Integers

section Days

theorem read_of_readDays {e : RuleError} (hne : raw.chars ≠ []) (h : readDays raw = .error e) :
    read .byDay raw = .error e := by
  simp only [read, if_neg hne, map_eq_error_iff, h]

namespace DayForm

variable {text : List Char} {number : Option Int} {form : DayForm} {d : WeekdayNum}

theorem parts_of_isCountedDay (hday : IsCountedDay text number) (hform : ofChars? text = some form) :
    form.ordinal? = number ∧ (∃ w : Weekday, form.letters.map Char.toUpper = w.code.toList) ∧
      (number = none → form.sign = none) := by
  cases hday with
  | @every letters w h =>
    have hread := ofChars?_of_code h
    obtain rfl := Option.some.inj (hread.symm.trans hform)
    exact ⟨rfl, ⟨w, h⟩, fun _ ↦ rfl⟩
  | @nth numeral letters n w hnumeral h =>
    obtain ⟨counted, rfl, hordinal, hread⟩ := exists_ofChars?_of_isNumeral hnumeral h
    rw [hread] at hform
    split at hform
    next =>
      obtain rfl := Option.some.inj hform
      exact ⟨hordinal, ⟨w, h⟩, nofun⟩
    next => contradiction

theorem inside_of_read (hday : IsCountedDay text number) (hform : ofChars? text = some form)
    (h : form.read item = .ok d) : ∀ n ∈ number, Domain.weekdayOrdinal.Contains n := by
  obtain ⟨rfl, -, -⟩ := parts_of_isCountedDay hday hform
  obtain ⟨-, hordinal, hfits, -⟩ := read_eq_ok_iff.1 h
  rw [hordinal]
  exact hfits

theorem outside_of_read {e : RuleError} (hday : IsCountedDay text number)
    (hform : ofChars? text = some form) (h : form.read item = .error e) :
    ∃ n, number = some n ∧ ¬ Domain.weekdayOrdinal.Contains n ∧
      e = .badInteger .byDay .weekdayOrdinal item.text item.span := by
  obtain ⟨hordinal, ⟨w, hw⟩, hsign⟩ := parts_of_isCountedDay hday hform
  rw [read_eq, Weekday.ofCode?_eq_some_iff.2 hw, hordinal] at h
  cases number with
  | none => simp [hsign rfl] at h
  | some n =>
    dsimp only at h
    split at h
    next => contradiction
    next hn => exact ⟨n, rfl, hn, (Except.error.inj h).symm⟩

theorem ofChars?_eq_none_iff (hday : IsCountedDay text number) :
    ofChars? text = none ↔ ∃ n ∈ number, Numeral.limit ≤ n.natAbs := by
  cases hday with
  | every h => simp [ofChars?_of_code h]
  | nth hnumeral h =>
    obtain ⟨form, -, -, hform⟩ := exists_ofChars?_of_isNumeral hnumeral h
    simp [hform]

end DayForm

theorem isCountedDay_of_isItem {text : List Char} {number : Option Int}
    (h : Param.byDay.IsItem text number) : IsCountedDay text number := by
  cases h with
  | integer hparam _ => exact absurd hparam (by decide)
  | day hday => exact hday

theorem readDays_of_beyond (hitem : item ∈ raw.splitOn ',')
    (hn : IsCountedDay item.chars (some n)) (hlimit : Numeral.limit ≤ n.natAbs) :
    readDays raw = .error (formError .byDay raw) :=
  readList_eq_refusal hitem ((DayForm.ofChars?_eq_none_iff hn).2 ⟨n, rfl, hlimit⟩)

theorem readDays_of_outside (hbelow : IsBelowLimit .byDay raw) (hitem : item ∈ raw.splitOn ',')
    (hn : Param.byDay.IsItem item.chars (some n)) (hout : ¬ Domain.weekdayOrdinal.Contains n) :
    ∃ item, IsFirstOutside .byDay raw item ∧
      readDays raw = .error (.badInteger .byDay .weekdayOrdinal item.text item.span) := by
  refine readList_of_outside ?_ (fun hnumber ↦ DayForm.inside_of_read (isCountedDay_of_isItem hnumber))
    (fun hnumber ↦ DayForm.outside_of_read (isCountedDay_of_isItem hnumber)) hbelow hitem hn hout
  intro text number hnumber hlimit hnone
  obtain ⟨m, hm, hbeyond⟩ :=
    (DayForm.ofChars?_eq_none_iff (isCountedDay_of_isItem hnumber)).1 hnone
  exact absurd (hlimit m hm) (Nat.not_lt_of_le hbeyond)

end Days

/-- Of a list with a number outside its domain the first such item is named, whatever stands before
and after it, unless one of the numbers is beyond the limit of numerals. The error then is that of a
list which has not the form of its parameter. -/
theorem read_of_outside (h : IsListText param.IsItem raw.chars numbers) (hn : some n ∈ numbers)
    (hout : ¬ param.numberDomain.Contains n) :
    ((∀ m, some m ∈ numbers → m.natAbs < Numeral.limit) → ∃ item, IsFirstOutside param raw item ∧
      read param raw = .error (.badInteger param param.numberDomain item.text item.span)) ∧
    ∀ m, some m ∈ numbers → Numeral.limit ≤ m.natAbs →
      read param raw = .error (formError param raw) := by
  have hne : raw.chars ≠ [] := h.ne_nil fun text number hitem ↦ hitem.ne_nil
  have hitems := forall₂_isItem h
  have hbelow (hlimit : ∀ m, some m ∈ numbers → m.natAbs < Numeral.limit) :
      IsBelowLimit param raw := by
    intro item hitem
    obtain ⟨number, hmem, hnumber⟩ := exists_mem_of_forall₂ hitems.flip hitem
    exact ⟨number, hnumber, fun m hm ↦ hlimit m (hm ▸ hmem)⟩
  obtain ⟨item, hitem, hisItem⟩ := exists_mem_of_forall₂ hitems hn
  have hnumber := hisItem
  cases hisItem with
  | integer hparam _ =>
    constructor
    · intro hlimit
      obtain ⟨first, hfirst, hread⟩ :=
        readIntegers_of_outside hparam (hbelow hlimit) hitem hnumber hout
      exact ⟨first, hfirst, read_of_readIntegers hparam hne hread⟩
    · intro m hmem hlimit
      obtain ⟨beyond, hbeyond, hm⟩ := exists_mem_of_forall₂ hitems hmem
      obtain ⟨_, ⟨⟩, hm⟩ := isNumeral_of_isItem hparam hm
      exact read_of_readIntegers hparam hne (readIntegers_of_beyond hparam hbeyond hm hlimit)
  | day _ =>
    constructor
    · intro hlimit
      obtain ⟨first, hfirst, hread⟩ := readDays_of_outside (hbelow hlimit) hitem hnumber hout
      exact ⟨first, hfirst, read_of_readDays hne hread⟩
    · intro m hmem hlimit
      obtain ⟨beyond, hbeyond, hm⟩ := exists_mem_of_forall₂ hitems hmem
      exact read_of_readDays hne (readDays_of_beyond hbeyond (isCountedDay_of_isItem hm) hlimit)

/-- The second of the days 1 and 0 of a month is named, at the byte where it lies. -/
theorem read_of_outside_oneAndZero :
    IsListText Param.byMonthDay.IsItem "1,0".toList [some 1, some 0] ∧
      ¬ Param.byMonthDay.numberDomain.Contains 0 ∧
      ∃ item, IsFirstOutside .byMonthDay ⟨"1,0".toList, 11⟩ item ∧
        read .byMonthDay ⟨"1,0".toList, 11⟩ =
          .error (.badInteger .byMonthDay Param.byMonthDay.numberDomain item.text item.span) := by
  have hlist : IsListText Param.byMonthDay.IsItem "1,0".toList [some 1, some 0] := by
    refine ⟨[['1'], ['0']], by decide, by decide, .cons ?_ (.cons ?_ .nil)⟩
    · exact .integer (by decide) (.of_placeValue ⟨by decide, List.all_eq_true.1 rfl⟩ rfl)
    · exact .integer (by decide) (.of_placeValue ⟨by decide, List.all_eq_true.1 rfl⟩ rfl)
  have hout : ¬ Param.byMonthDay.numberDomain.Contains 0 := by decide
  refine ⟨hlist, hout, ?_⟩
  have hread := @read_of_outside .byMonthDay ⟨"1,0".toList, 11⟩ _ 0 hlist (by decide) hout
  apply hread.1
  intro m hm
  have hcases : m = 1 ∨ m = 0 := by simpa using hm
  rcases hcases with rfl | rfl <;> decide

/-- Of the two weekdays the second has an ordinal beyond the limit. No item is named, and no
integer. -/
theorem read_byDay_ordinal_beyond_limit :
    IsListText Param.byDay.IsItem "1MO,9223372036854775808TU".toList
        [some 1, some 9223372036854775808] ∧
      IsFirstOutside .byDay (.ofString "1MO,9223372036854775808TU")
        ⟨"9223372036854775808TU".toList, 4⟩ ∧
      read .byDay (.ofString "1MO,9223372036854775808TU") =
        .error (.badChoice .byDay "1MO,9223372036854775808TU" ⟨0, 25⟩) ∧
      ∀ item : Slice, read .byDay (.ofString "1MO,9223372036854775808TU") ≠
        .error (.badInteger .byDay Param.byDay.numberDomain item.text item.span) := by
  have hmonday : IsCountedDay "1MO".toList (some 1) :=
    @IsCountedDay.nth ['1'] ['M', 'O'] 1 .monday
      (.of_placeValue ⟨by decide, List.all_eq_true.1 rfl⟩ rfl) (by decide)
  have htuesday : IsCountedDay "9223372036854775808TU".toList (some 9223372036854775808) :=
    @IsCountedDay.nth "9223372036854775808".toList ['T', 'U'] 9223372036854775808 .tuesday
      (.of_placeValue ⟨by decide, List.all_eq_true.1 rfl⟩ (by decide)) (by decide)
  have hread : read .byDay (.ofString "1MO,9223372036854775808TU") =
      .error (.badChoice .byDay "1MO,9223372036854775808TU" ⟨0, 25⟩) := by rfl
  refine ⟨?_, ?_, hread, ?_⟩
  · exact ⟨["1MO".toList, "9223372036854775808TU".toList], by decide, by decide,
      .cons (.day hmonday) (.cons (.day htuesday) .nil)⟩
  · refine ⟨[⟨"1MO".toList, 0⟩], [], by decide, ?_, _, .day htuesday, by decide⟩
    intro b hb
    obtain rfl := List.mem_singleton.1 hb
    refine ⟨some 1, .day hmonday, ?_⟩
    rintro _ ⟨⟩
    decide
  · intro item h
    rw [hread] at h
    cases h

end Setting

end Recurrence
