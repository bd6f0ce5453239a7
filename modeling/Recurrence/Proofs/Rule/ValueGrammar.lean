import Recurrence.Proofs.Rule.Verdict
import Recurrence.Proofs.Text.Letters
import Recurrence.Proofs.Text.Numeral

namespace Recurrence

/-- Items with commas between them, one at least. -/
def IsListText {α : Type} (item : List Char → α → Prop) (text : List Char) (values : List α) :
    Prop :=
  ∃ items, items ≠ [] ∧ text = [','].intercalate items ∧ List.Forall₂ item items values

theorem isListText_iff {α : Type} {item : List Char → α → Prop} {text : List Char}
    {values : List α} (hcomma : ∀ text a, item text a → ',' ∉ text) :
    IsListText item text values ↔ List.Forall₂ item (text.splitOn ',') values := by
  constructor
  · rintro ⟨items, hne, rfl, hitems⟩
    rw [List.splitOn_intercalate ',' ?_ hne]
    · exact hitems
    · intro piece hpiece
      obtain ⟨a, -, ha⟩ := exists_mem_of_forall₂ hitems.flip hpiece
      exact hcomma piece a ha
  · intro h
    exact ⟨text.splitOn ',', List.splitOn_ne_nil ',' text, (List.intercalate_splitOn ',').symm, h⟩

theorem IsListText.ne_nil {α : Type} {item : List Char → α → Prop} {text : List Char}
    {values : List α} (hitem : ∀ text a, item text a → text ≠ []) (h : IsListText item text values) :
    text ≠ [] := by
  obtain ⟨items, hne, rfl, hitems⟩ := h
  cases hitems with
  | nil => exact absurd rfl hne
  | cons hfirst hrest =>
    cases hrest with
    | nil => simpa using hitem _ _ hfirst
    | cons _ _ => simp

/-- A weekday code in letters of either case, after a number from -53 to 53 without zero, if it is
counted. -/
inductive IsDayText : List Char → WeekdayNum → Prop
  | every {letters : List Char} {w : Weekday} :
      letters.map Char.toUpper = w.code.toList → IsDayText letters ⟨none, w⟩
  | nth {numeral letters : List Char} {n : Int} {w : Weekday} : IsNumeral numeral n →
      -53 ≤ n ∧ n ≤ -1 ∨ 1 ≤ n ∧ n ≤ 53 → letters.map Char.toUpper = w.code.toList →
      IsDayText (numeral ++ letters) ⟨some n, w⟩

/-- Integers of the parameter's domain, of which equal ones count once, where the first stands. -/
def IsIntegers (param : Param) (text : List Char) (values : List Int) : Prop :=
  ∃ written, IsListText IsNumeral text written ∧ (∀ n ∈ written, param.domain.Contains n) ∧
    written.eraseDups = values

/-- Weekdays, of which equal ones count once, where the first stands. -/
def IsDays (text : List Char) (values : List WeekdayNum) : Prop :=
  ∃ written, IsListText IsDayText text written ∧ written.eraseDups = values

namespace Weekday

theorem map_toUpper_code (w : Weekday) : w.code.toList.map Char.toUpper = w.code.toList := by
  cases w <;> decide

theorem ofCode?_eq_some_iff {letters : List Char} {w : Weekday} :
    ofCode? (String.ofList letters) = some w ↔ letters.map Char.toUpper = w.code.toList := by
  have hname : ∀ a b : Weekday, SameLetters a.code b.code → a = b := by
    intro a b h
    cases a <;> cases b <;> first | rfl | exact absurd h (by decide)
  rw [ofCode?, literal?_eq_some_iff mem_all hname, SameLetters, map_toUpper_code,
    String.toList_ofList, eq_comm]

variable {letters : List Char} {w : Weekday}

theorem isAlpha_of_map_toUpper (h : letters.map Char.toUpper = w.code.toList) :
    ∀ c ∈ letters, c.isAlpha := by
  intro c hc
  have hcode : c.toUpper ∈ w.code.toList := h ▸ List.mem_map_of_mem hc
  rw [← Char.isAlpha_toUpper_eq_isAlpha]
  exact List.all_eq_true.1 w.isAlpha_code _ hcode

theorem ne_nil_of_map_toUpper (h : letters.map Char.toUpper = w.code.toList) : letters ≠ [] := by
  rintro rfl
  exact w.code_ne_nil h.symm

theorem comma_not_mem_of_map_toUpper (h : letters.map Char.toUpper = w.code.toList) :
    ',' ∉ letters := by
  intro hmem
  exact absurd (isAlpha_of_map_toUpper h ',' hmem) (by decide)

end Weekday

theorem IsDayText.ne_nil {text : List Char} {d : WeekdayNum} (h : IsDayText text d) :
    text ≠ [] := by
  cases h with
  | every h => exact Weekday.ne_nil_of_map_toUpper h
  | nth _ _ h => exact List.append_ne_nil_of_right_ne_nil _ (Weekday.ne_nil_of_map_toUpper h)

theorem Domain.contains_weekdayOrdinal_iff {n : Int} :
    weekdayOrdinal.Contains n ↔ -53 ≤ n ∧ n ≤ -1 ∨ 1 ≤ n ∧ n ≤ 53 := by
  simp only [weekdayOrdinal, Contains, Bool.false_eq_true, false_or]
  omega

theorem IsDayText.comma_not_mem {text : List Char} {d : WeekdayNum} (h : IsDayText text d) :
    ',' ∉ text := by
  cases h with
  | every h => exact Weekday.comma_not_mem_of_map_toUpper h
  | nth hnumeral _ h =>
    intro hmem
    rcases List.mem_append.1 hmem with hmem | hmem
    · exact hnumeral.comma_not_mem hmem
    · exact Weekday.comma_not_mem_of_map_toUpper h hmem

namespace Setting

variable {raw : Slice}

/-- The numbers of a domain are below the limit, so that of these it takes nothing away. -/
theorem exists_readNumber_eq_ok_iff {param : Param} {item : Slice} {n : Int} :
    (∃ m, Numeral.signed? item.chars = some m ∧ readNumber param m item = .ok n) ↔
      IsNumeral item.chars n ∧ param.Admits n := by
  constructor
  · rintro ⟨m, hm, hread⟩
    obtain ⟨hadmits, rfl⟩ := readNumber_eq_ok_iff.1 hread
    exact ⟨Numeral.isNumeral_of_signed? hm, hadmits⟩
  · rintro ⟨hnumeral, hadmits⟩
    exact ⟨n, Numeral.signed?_of_isNumeral hnumeral (Param.natAbs_lt_limit hadmits),
      readNumber_eq_ok_iff.2 ⟨hadmits, rfl⟩⟩

theorem readInteger_eq_ok_iff {param : Param} {k : Nat} (hnonneg : ∀ n, param.Admits n → 0 ≤ n) :
    readInteger param raw = .ok k ↔ IsNumeral raw.chars k ∧ param.Admits k := by
  have hread : readInteger param raw = .ok k ↔
      ∃ n : Int, (IsNumeral raw.chars n ∧ param.Admits n) ∧ n.toNat = k := by
    simp only [← exists_readNumber_eq_ok_iff, readInteger]
    cases Numeral.signed? raw.chars with
    | none => simp
    | some n => simp [map_eq_ok_iff]
  rw [hread]
  constructor
  · rintro ⟨n, hn, rfl⟩
    rwa [Int.toNat_of_nonneg (hnonneg n hn.2)]
  · intro hk
    exact ⟨k, hk, Int.toNat_natCast k⟩

theorem forall₂_splitOn_iff {α : Type} {R : List Char → α → Prop} {values : List α} :
    List.Forall₂ (fun item a ↦ R item.chars a) (raw.splitOn ',') values ↔
      List.Forall₂ R (raw.chars.splitOn ',') values := by
  rw [← raw.map_chars_splitOn, List.forall₂_map_left_iff]

theorem readIntegers_eq_ok_iff {param : Param} {values : List Int} :
    readIntegers param raw = .ok values ↔ IsIntegers param raw.chars values := by
  have hitems (written : List Int) :
      List.Forall₂ (fun item n ↦ IsNumeral item.chars n ∧ param.Admits n)
        (raw.splitOn ',') written ↔
      IsListText IsNumeral raw.chars written ∧ ∀ n ∈ written, param.domain.Contains n := by
    rw [isListText_iff fun text n h ↦ h.comma_not_mem, ← forall₂_splitOn_iff]
    constructor
    · intro h
      refine ⟨h.imp fun _ _ hn ↦ hn.1, fun n hn ↦ ?_⟩
      obtain ⟨item, -, -, hadmits⟩ := exists_mem_of_forall₂ h hn
      exact hadmits
    · rintro ⟨h, hadmits⟩
      have hboth := (List.forall₂_and_left written (raw.splitOn ',')).2 ⟨hadmits, h.flip⟩
      exact hboth.flip.imp fun _ _ hn ↦ hn.symm
  simp only [readIntegers, readList_eq_ok_iff, exists_readNumber_eq_ok_iff, hitems, and_assoc,
    IsIntegers]

namespace DayForm

variable {form : DayForm} {text : List Char} {d : WeekdayNum}

def chars (form : DayForm) : List Char := form.sign.toList ++ (form.digits ++ form.letters)

theorem splitSign_eq (text : List Char) : text = (splitSign text).1.toList ++ (splitSign text).2 ∧
    ∀ c ∈ (splitSign text).1, c = '+' ∨ c = '-' := by
  rw [splitSign.eq_def]
  split <;> simp

theorem splitSign_append {rest : List Char} {sign : Option Char}
    (hsign : ∀ c ∈ sign, c = '+' ∨ c = '-') (hrest : ∀ c ∈ rest, c.isAlphanum) :
    splitSign (sign.toList ++ rest) = (sign, rest) := by
  cases sign with
  | none => exact splitSign_of_isAlphanum hrest
  | some c =>
    rcases hsign c rfl with rfl | rfl
    · rfl
    · rfl

theorem ofChars?_chars_eq_ite (hsign : ∀ c ∈ form.sign, c = '+' ∨ c = '-')
    (hdigits : ∀ c ∈ form.digits, c.isDigit) (hne : form.letters ≠ [])
    (hletters : ∀ c ∈ form.letters, c.isAlpha) :
    ofChars? form.chars =
      if placeValue form.digits < Numeral.limit then some form else none := by
  have hrest : ∀ c ∈ form.digits ++ form.letters, c.isAlphanum := by
    intro c hc
    rcases List.mem_append.1 hc with hc | hc
    · exact Decimal.isAlphanum_of_isDigit (hdigits c hc)
    · simp [Char.isAlphanum, hletters c hc]
  have hhead : form.letters.takeWhile Char.isDigit = [] := by
    obtain ⟨c, letters, hcons⟩ := List.exists_cons_of_ne_nil hne
    have hc : c.isAlpha := hletters c (hcons ▸ List.mem_cons_self)
    simp [hcons, isDigit_eq_false_of_isAlpha hc]
  rw [← Decimal.value_eq_placeValue hdigits]
  exact ofChars?_eq_ite_of_splitSign (splitSign_append hsign hrest) hdigits hne
    (List.all_eq_true.2 hletters) hhead

theorem ofChars?_eq_some_iff : ofChars? text = some form ↔ text = form.chars ∧
    (∀ c ∈ form.sign, c = '+' ∨ c = '-') ∧ (∀ c ∈ form.digits, c.isDigit) ∧
      form.letters ≠ [] ∧ (∀ c ∈ form.letters, c.isAlpha) ∧
      placeValue form.digits < Numeral.limit := by
  constructor
  · intro h
    obtain ⟨htext, hsign⟩ := splitSign_eq text
    simp only [ofChars?] at h
    split at h
    next hform =>
      obtain ⟨hne, hletters, hlimit⟩ := hform
      obtain rfl := Option.some.inj h
      have hdigits : ∀ c ∈ (splitSign text).2.takeWhile Char.isDigit, c.isDigit :=
        fun c hc ↦ List.mem_takeWhile_imp hc
      rw [Decimal.value_eq_placeValue hdigits] at hlimit
      refine ⟨?_, hsign, hdigits, hne, List.all_eq_true.1 hletters, hlimit⟩
      rw [chars, List.takeWhile_append_dropWhile]
      exact htext
    next => contradiction
  · rintro ⟨rfl, hsign, hdigits, hne, hletters, hlimit⟩
    rw [ofChars?_chars_eq_ite hsign hdigits hne hletters, if_pos hlimit]

theorem read_eq_ok_iff {item : Slice} : form.read item = .ok d ↔
    form.letters.map Char.toUpper = d.weekday.code.toList ∧ form.ordinal? = d.ordinal ∧ d.Fits ∧
      (d.ordinal = none → form.sign = none) := by
  obtain ⟨ordinal, weekday⟩ := d
  rw [← Weekday.ofCode?_eq_some_iff, read_eq]
  cases Weekday.ofCode? (String.ofList form.letters) with
  | none => simp
  | some w =>
    cases form.ordinal? with
    | none =>
      simp only [ite_eq_ok_iff, WeekdayNum.mk.injEq, Option.some.injEq]
      constructor
      · rintro ⟨hsign, rfl, rfl⟩
        exact ⟨rfl, rfl, by simp [WeekdayNum.Fits], fun _ ↦ hsign⟩
      · rintro ⟨rfl, rfl, -, hsign⟩
        exact ⟨hsign rfl, rfl, rfl⟩
    | some n =>
      simp only [ite_eq_ok_iff, WeekdayNum.mk.injEq, Option.some.injEq]
      constructor
      · rintro ⟨hn, rfl, rfl⟩
        refine ⟨rfl, rfl, ?_, by simp⟩
        rintro _ ⟨⟩
        exact hn
      · rintro ⟨rfl, rfl, hfits, -⟩
        exact ⟨hfits n rfl, rfl, rfl⟩

theorem ordinal?_of_isDigits (h : IsDigits form.digits) : form.ordinal? =
    some (if form.sign = some '-' then -(placeValue form.digits : Int)
      else placeValue form.digits) := by
  rw [ordinal?, if_neg h.1, Decimal.value_eq_placeValue h.2]
  split <;> rfl

theorem isNumeral_of_ordinal? {n : Int} (hsign : ∀ c ∈ form.sign, c = '+' ∨ c = '-')
    (hdigits : ∀ c ∈ form.digits, c.isDigit) (h : form.ordinal? = some n) :
    IsNumeral (form.sign.toList ++ form.digits) n := by
  have hne : form.digits ≠ [] := by
    intro hnil
    rw [ordinal?, if_pos hnil] at h
    contradiction
  rw [ordinal?_of_isDigits ⟨hne, hdigits⟩] at h
  obtain rfl := Option.some.inj h
  cases hc : form.sign with
  | none => exact .plain ⟨hne, hdigits⟩
  | some c =>
    rcases hsign c hc with rfl | rfl
    · exact .plus ⟨hne, hdigits⟩
    · exact .minus ⟨hne, hdigits⟩

theorem isDayText_of_read {item : Slice} (hform : ofChars? text = some form)
    (hread : form.read item = .ok d) : IsDayText text d := by
  obtain ⟨rfl, hsign, hdigits, -⟩ := ofChars?_eq_some_iff.1 hform
  obtain ⟨hletters, hordinal, hfits, halone⟩ := read_eq_ok_iff.1 hread
  obtain ⟨ordinal, weekday⟩ := d
  cases ordinal with
  | none =>
    have hnil : form.digits = [] := by
      by_contra hne
      rw [ordinal?, if_neg hne] at hordinal
      split at hordinal <;> contradiction
    rw [chars, halone rfl, hnil]
    exact .every hletters
  | some n =>
    rw [chars, ← List.append_assoc]
    exact .nth (isNumeral_of_ordinal? hsign hdigits hordinal)
      (Domain.contains_weekdayOrdinal_iff.1 (hfits n rfl)) hletters

theorem exists_ordinal?_of_isNumeral {numeral : List Char} {n : Int} (name : List Char)
    (h : IsNumeral numeral n) : ∃ form : DayForm, form.letters = name ∧
      form.sign.toList ++ form.digits = numeral ∧ (∀ c ∈ form.sign, c = '+' ∨ c = '-') ∧
      IsDigits form.digits ∧ placeValue form.digits = n.natAbs ∧ form.ordinal? = some n := by
  cases h with
  | plain h =>
    exact ⟨⟨none, numeral, name⟩, rfl, rfl, by simp, h, by simp, ordinal?_of_isDigits h⟩
  | @plus ds h =>
    exact ⟨⟨some '+', ds, name⟩, rfl, rfl, by simp, h, by simp, ordinal?_of_isDigits h⟩
  | @minus ds h =>
    exact ⟨⟨some '-', ds, name⟩, rfl, rfl, by simp, h, by simp, ordinal?_of_isDigits h⟩

theorem ofChars?_of_code {letters : List Char} {w : Weekday}
    (h : letters.map Char.toUpper = w.code.toList) : ofChars? letters = some ⟨none, [], letters⟩ :=
  ofChars?_eq_some_iff.2 ⟨rfl, nofun, nofun, Weekday.ne_nil_of_map_toUpper h,
    Weekday.isAlpha_of_map_toUpper h, Nat.zero_lt_succ _⟩

theorem exists_ofChars?_of_isNumeral {numeral letters : List Char} {n : Int} {w : Weekday}
    (hnumeral : IsNumeral numeral n) (h : letters.map Char.toUpper = w.code.toList) :
    ∃ form : DayForm, form.letters = letters ∧ form.ordinal? = some n ∧
      ofChars? (numeral ++ letters) = if n.natAbs < Numeral.limit then some form else none := by
  obtain ⟨form, rfl, rfl, hsign, hdigits, hvalue, hordinal⟩ :=
    exists_ordinal?_of_isNumeral letters hnumeral
  refine ⟨form, rfl, hordinal, ?_⟩
  rw [← hvalue, List.append_assoc]
  exact ofChars?_chars_eq_ite hsign hdigits.2 (Weekday.ne_nil_of_map_toUpper h)
    (Weekday.isAlpha_of_map_toUpper h)

theorem exists_read_of_isDayText (h : IsDayText text d) (item : Slice) :
    ∃ form, ofChars? text = some form ∧ form.read item = .ok d := by
  cases h with
  | every h =>
    exact ⟨⟨none, [], text⟩, ofChars?_of_code h, read_eq_ok_iff.2 ⟨h, rfl, nofun, fun _ ↦ rfl⟩⟩
  | @nth numeral name n w hnumeral hn h =>
    have hlimit : n.natAbs < Numeral.limit := by
      rw [Numeral.limit]
      omega
    obtain ⟨form, rfl, hordinal, hform⟩ := exists_ofChars?_of_isNumeral hnumeral h
    rw [if_pos hlimit] at hform
    refine ⟨form, hform, read_eq_ok_iff.2 ⟨h, hordinal, ?_, nofun⟩⟩
    rintro _ ⟨⟩
    exact Domain.contains_weekdayOrdinal_iff.2 hn

theorem exists_read_eq_ok_iff {item : Slice} :
    (∃ form, ofChars? text = some form ∧ form.read item = .ok d) ↔ IsDayText text d := by
  constructor
  · rintro ⟨form, hform, hread⟩
    exact isDayText_of_read hform hread
  · intro h
    exact exists_read_of_isDayText h item

end DayForm

theorem readDays_eq_ok_iff {values : List WeekdayNum} :
    readDays raw = .ok values ↔ IsDays raw.chars values := by
  have hcomma (text : List Char) (d : WeekdayNum) (h : IsDayText text d) : ',' ∉ text :=
    h.comma_not_mem
  simp only [readDays, readList_eq_ok_iff, DayForm.exists_read_eq_ok_iff, forall₂_splitOn_iff,
    IsDays, isListText_iff hcomma]

variable {s : Setting}

theorem ite_map_eq_ok_iff {α : Type} {x : Except RuleError α} {e : RuleError} {setting : α → Setting}
    {written : α → Prop} (hx : ∀ a, x = .ok a ↔ written a) (hne : ∀ a, written a → raw.chars ≠ []) :
    (if raw.chars = [] then .error e else x.map setting) = .ok s ↔
      ∃ a, written a ∧ s = setting a := by
  split
  next hnil =>
    refine iff_of_false (by simp) ?_
    rintro ⟨a, ha, -⟩
    exact hne a ha hnil
  next =>
    rw [map_eq_ok_iff]
    apply exists_congr
    intro a
    rw [hx, eq_comm]

theorem read_byDay_eq_ok_iff :
    read .byDay raw = .ok s ↔ ∃ values, IsDays raw.chars values ∧ s = .byDay values := by
  apply ite_map_eq_ok_iff fun values ↦ readDays_eq_ok_iff
  rintro values ⟨written, hwritten, -⟩
  exact hwritten.ne_nil fun text d hd ↦ hd.ne_nil

/-- A value of integers or of weekdays is read exactly if it is written so, the integers in their
domain and the weekdays by two letters, and read is what stands there. Never is an integer of a
domain too large for the form that it is kept in. -/
theorem read_integers_and_days_eq_ok_iff (raw : Slice) (s : Setting) :
    (read .interval raw = .ok s ↔
      ∃ n : Nat, IsNumeral raw.chars n ∧ Param.interval.domain.Contains n ∧ s = .interval n) ∧
    (read .count raw = .ok s ↔
      ∃ n : Nat, IsNumeral raw.chars n ∧ Param.count.domain.Contains n ∧ s = .count n) ∧
    (read .byMonth raw = .ok s ↔
      ∃ values, IsIntegers .byMonth raw.chars values ∧ s = .byMonth values) ∧
    (read .byWeekNo raw = .ok s ↔
      ∃ values, IsIntegers .byWeekNo raw.chars values ∧ s = .byWeekNo values) ∧
    (read .byMonthDay raw = .ok s ↔
      ∃ values, IsIntegers .byMonthDay raw.chars values ∧ s = .byMonthDay values) ∧
    (read .bySetPos raw = .ok s ↔
      ∃ values, IsIntegers .bySetPos raw.chars values ∧ s = .bySetPos values) ∧
    (read .byDay raw = .ok s ↔ ∃ values, IsDays raw.chars values ∧ s = .byDay values) ∧
    [Weekday.monday, .tuesday, .wednesday, .thursday, .friday, .saturday, .sunday].map Weekday.code =
      ["MO", "TU", "WE", "TH", "FR", "SA", "SU"] ∧
    ∀ (param : Param) (n : Int), (if param.numberDomain.Contains n then param.narrow? n else none) =
      if param.numberDomain.Contains n then some n else none := by
  have hinteger {param : Param} {setting : Nat → Setting} (hnonneg : ∀ n, param.Admits n → 0 ≤ n) :
      (if raw.chars = [] then .error (.missingValue param raw.span)
        else (readInteger param raw).map setting) = .ok s ↔
        ∃ n : Nat, IsNumeral raw.chars n ∧ param.domain.Contains n ∧ s = setting n := by
    simp only [← and_assoc]
    exact ite_map_eq_ok_iff (fun n ↦ readInteger_eq_ok_iff hnonneg) fun n hn ↦ hn.1.ne_nil
  have hintegers {param : Param} {setting : List Int → Setting} :
      (if raw.chars = [] then .error (.missingValue param raw.span)
        else (readIntegers param raw).map setting) = .ok s ↔
        ∃ values, IsIntegers param raw.chars values ∧ s = setting values := by
    apply ite_map_eq_ok_iff fun values ↦ readIntegers_eq_ok_iff
    rintro values ⟨written, hwritten, -, -⟩
    exact hwritten.ne_nil fun text n hn ↦ hn.ne_nil
  refine ⟨hinteger fun n hn ↦ Int.le_of_lt hn.1, hinteger fun n hn ↦ hn.1, hintegers, hintegers,
    hintegers, hintegers, read_byDay_eq_ok_iff, rfl, ?_⟩
  intro param n
  split
  next h => exact Param.narrow?_of_contains h
  next => rfl

example : read .byMonth (.ofString "12,1,01,+1") = .ok (.byMonth [12, 1]) := by decide

end Setting

end Recurrence
