import Recurrence.Proofs.Rule.Until
import Recurrence.Rule.Setting.Reader

namespace Recurrence

/-- So many digits, and the number that they stand for. -/
def IsField (width : Nat) (text : List Char) (n : Nat) : Prop :=
  text.length = width ∧ (∀ c ∈ text, c.isDigit) ∧ placeValue text = n

/-- Three numbers, the second and the third of two digits. Before each of these two there may be a
separator. -/
inductive IsTriple (width : Nat) (separator : Char) : List Char → Nat → Nat → Nat → Prop
  | intro {first second third gap gap' : List Char} {a b c : Nat} :
      IsField width first a → gap = [] ∨ gap = [separator] →
      IsField 2 second b → gap' = [] ∨ gap' = [separator] → IsField 2 third c →
      IsTriple width separator (first ++ (gap ++ (second ++ (gap' ++ third)))) a b c

theorem IsTriple.exists_last {width a b c : Nat} {separator : Char} {text : List Char}
    (h : IsTriple width separator text a b c) :
    ∃ front field, text = front ++ field ∧ IsField 2 field c := by
  obtain @⟨first, second, third, gap, gap', _, _, _, -, -, -, -, hthird⟩ := h
  exact ⟨first ++ (gap ++ (second ++ gap')), third, by simp only [List.append_assoc], hthird⟩

namespace Decimal

variable {width n : Nat} {text rest : List Char}

theorem read?_eq_some_iff :
    read? width text = some (n, rest) ↔ ∃ field, IsField width field n ∧ text = field ++ rest := by
  rw [read?]
  constructor
  · intro h
    split at h
    next hdigits =>
      obtain ⟨rfl, rfl⟩ := Prod.mk.inj (Option.some.inj h)
      have htake := List.all_eq_true.1 hdigits.2
      exact ⟨text.take width, ⟨hdigits.1, htake, (value_eq_placeValue htake).symm⟩,
        (List.take_append_drop width text).symm⟩
    next => contradiction
  · rintro ⟨field, ⟨hlength, hdigits, hvalue⟩, rfl⟩
    have htake : (field ++ rest).take width = field := List.take_left' hlength
    have hdrop : (field ++ rest).drop width = rest := List.drop_left' hlength
    simp only [htake, hdrop, hlength, List.all_eq_true.2 hdigits, value_eq_placeValue hdigits,
      hvalue, and_self, if_true]

end Decimal

theorem IsField.lt {width n : Nat} {text : List Char} (h : IsField width text n) :
    n < 10 ^ width := by
  obtain ⟨rfl, hdigits, rfl⟩ := h
  exact Decimal.placeValue_lt hdigits

namespace Until

variable {text rest : List Char} {separator : Char} {width : Nat}

theorem read?_skip_eq_some_iff {n : Nat} (hsep : ¬ separator.isDigit) (hpos : 0 < width) :
    Decimal.read? width (skip separator text) = some (n, rest) ↔
      ∃ gap field, (gap = [] ∨ gap = [separator]) ∧ IsField width field n ∧
        text = gap ++ (field ++ rest) := by
  rw [Decimal.read?_eq_some_iff]
  constructor
  · rintro ⟨field, hfield, htext⟩
    cases text with
    | nil => exact ⟨[], field, .inl rfl, hfield, htext⟩
    | cons c text =>
      rw [skip] at htext
      split at htext
      next hc => exact ⟨[separator], field, .inr rfl, hfield, by rw [hc, htext]; rfl⟩
      next => exact ⟨[], field, .inl rfl, hfield, htext⟩
  · rintro ⟨gap, field, rfl | rfl, hfield, rfl⟩
    · refine ⟨field, hfield, ?_⟩
      obtain ⟨hlength, hdigits, -⟩ := hfield
      cases field with
      | nil =>
        rw [List.length_nil] at hlength
        omega
      | cons c field =>
        have hc : c ≠ separator := by
          rintro rfl
          exact hsep (hdigits c List.mem_cons_self)
        exact if_neg hc
    · exact ⟨field, hfield, if_pos rfl⟩

theorem exists_read?_iff (hsep : ¬ separator.isDigit) {P : Nat → Nat → Nat → List Char → Prop} :
    (∃ p, Decimal.read? width text = some p ∧
      ∃ q, Decimal.read? 2 (skip separator p.2) = some q ∧
      ∃ r, Decimal.read? 2 (skip separator q.2) = some r ∧ P p.1 q.1 r.1 r.2) ↔
    ∃ written a b c rest, IsTriple width separator written a b c ∧ text = written ++ rest ∧
      P a b c rest := by
  constructor
  · rintro ⟨⟨a, text₁⟩, ha, ⟨b, text₂⟩, hb, ⟨c, text₃⟩, hc, h⟩
    obtain ⟨first, hfirst, rfl⟩ := Decimal.read?_eq_some_iff.1 ha
    obtain ⟨gap, second, hgap, hsecond, rfl⟩ := (read?_skip_eq_some_iff hsep Nat.two_pos).1 hb
    obtain ⟨gap', third, hgap', hthird, rfl⟩ := (read?_skip_eq_some_iff hsep Nat.two_pos).1 hc
    exact ⟨_, a, b, c, text₃, .intro hfirst hgap hsecond hgap' hthird, by simp, h⟩
  · rintro ⟨_, a, b, c, text₃, htriple, rfl, h⟩
    obtain ⟨hfirst, hgap, hsecond, hgap', hthird⟩ := htriple
    simp only [List.append_assoc]
    exact ⟨(a, _), Decimal.read?_eq_some_iff.2 ⟨_, hfirst, rfl⟩,
      (b, _), (read?_skip_eq_some_iff hsep Nat.two_pos).2 ⟨_, _, hgap, hsecond, rfl⟩,
      (c, _), (read?_skip_eq_some_iff hsep Nat.two_pos).2 ⟨_, _, hgap', hthird, rfl⟩, h⟩

/-- A year of four digits, a month and a day, with hyphens between them or without. -/
def IsDateText (text : List Char) (d : Date) : Prop :=
  ∃ year month day : Nat, IsTriple 4 '-' text year month day ∧
    d.year = year ∧ d.month = month ∧ d.day = day

/-- An hour, a minute and a second, with colons between them or without. The seconds after 59 count
as 59. -/
def IsTimeText (lastSecond : Nat) (text : List Char) (t : Time) : Prop :=
  ∃ hour minute second : Nat, IsTriple 2 ':' text hour minute second ∧ second ≤ lastSecond ∧
    t.hour = hour ∧ t.minute = minute ∧ t.second = min second 59 ∧ t.fraction = 0

/-- A date, or a date and a time, which is in UTC if a Z is after it. -/
inductive IsWritten (lastSecond : Nat) : List Char → Until → Prop
  | date {text : List Char} {d : Date} : IsDateText text d → IsWritten lastSecond text (.date d)
  | floating {text text' : List Char} {t : DateTime} : IsDateText text t.date →
      IsTimeText lastSecond text' t.time →
      IsWritten lastSecond (text ++ 'T' :: text') (.floating t)
  | utc {text text' : List Char} {t : DateTime} : IsDateText text t.date →
      IsTimeText lastSecond text' t.time →
      IsWritten lastSecond (text ++ 'T' :: (text' ++ ['Z'])) (.utc t)

theorem readDate?_eq_some_iff {d : Date} : readDate? text = some (d, rest) ↔
    ∃ written, IsDateText written d ∧ text = written ++ rest := by
  simp only [readDate?, Option.bind_eq_bind, Option.bind_eq_some_iff, Option.pure_def,
    Option.some.injEq, Prod.mk.injEq]
  rw [exists_read?_iff (by decide)
    (P := fun year month day after ↦
      ∃ e, Date.ofCivil? year month day = some e ∧ e = d ∧ after = rest)]
  constructor
  · rintro ⟨written, year, month, day, _, htriple, rfl, _, hcivil, rfl, rfl⟩
    exact ⟨written, ⟨year, month, day, htriple, Date.ofCivil?_eq_some_iff.1 hcivil⟩, rfl⟩
  · rintro ⟨written, ⟨year, month, day, htriple, hcivil⟩, rfl⟩
    exact ⟨written, year, month, day, rest, htriple, rfl, d, Date.ofCivil?_eq_some_iff.2 hcivil, rfl,
      rfl⟩

theorem readTime?_eq_some_iff {t : Time} : readTime? text = some (t, rest) ↔
    ∃ written, IsTimeText 99 written t ∧ text = written ++ rest := by
  simp only [readTime?, Option.bind_eq_bind, Option.bind_eq_some_iff, Option.pure_def,
    Option.some.injEq, Prod.mk.injEq]
  rw [exists_read?_iff (by decide) (P := fun hour minute second after ↦
    ∃ u, Time.ofClock? hour minute (min second 59) 0 = some u ∧ u = t ∧ after = rest)]
  constructor
  · rintro ⟨written, hour, minute, second, _, htriple, rfl, _, hclock, rfl, rfl⟩
    have hsecond : second ≤ 99 := by
      cases htriple with
      | intro _ _ _ _ hthird => exact Nat.le_of_lt_succ hthird.lt
    exact ⟨written, ⟨hour, minute, second, htriple, hsecond, Time.ofClock?_eq_some_iff.1 hclock⟩,
      rfl⟩
  · rintro ⟨written, ⟨hour, minute, second, htriple, -, hclock⟩, rfl⟩
    exact ⟨written, hour, minute, second, rest, htriple, rfl, t,
      Time.ofClock?_eq_some_iff.2 hclock, rfl, rfl⟩

theorem ofChars?_eq_some_iff {b : Until} : ofChars? text = some b ↔ IsWritten 99 text b := by
  rw [ofChars?, Option.bind_eq_bind, Option.bind_eq_some_iff]
  constructor
  · rintro ⟨⟨d, text⟩, hdate, h⟩
    obtain ⟨written, hwritten, rfl⟩ := readDate?_eq_some_iff.1 hdate
    dsimp only at h
    split at h
    next =>
      obtain rfl := Option.some.inj h
      rw [List.append_nil]
      exact .date hwritten
    next text =>
      rw [Option.bind_eq_bind, Option.bind_eq_some_iff] at h
      obtain ⟨⟨t, text'⟩, htime, h⟩ := h
      obtain ⟨written', hwritten', rfl⟩ := readTime?_eq_some_iff.1 htime
      dsimp only at h
      split at h
      next =>
        obtain rfl := Option.some.inj h
        rw [List.append_nil]
        exact .floating hwritten hwritten'
      next =>
        obtain rfl := Option.some.inj h
        exact .utc hwritten hwritten'
      next => contradiction
    next => contradiction
  · intro h
    cases h with
    | date h =>
      exact ⟨(_, []), readDate?_eq_some_iff.2 ⟨text, h, (List.append_nil text).symm⟩, rfl⟩
    | @floating written written' t h h' =>
      refine ⟨(t.date, 'T' :: written'), readDate?_eq_some_iff.2 ⟨written, h, rfl⟩, ?_⟩
      have htime : readTime? written' = some (t.time, []) :=
        readTime?_eq_some_iff.2 ⟨written', h', (List.append_nil _).symm⟩
      simp [htime]
    | @utc written written' t h h' =>
      refine ⟨(t.date, 'T' :: (written' ++ ['Z'])), readDate?_eq_some_iff.2 ⟨written, h, rfl⟩, ?_⟩
      have htime : readTime? (written' ++ ['Z']) = some (t.time, ['Z']) :=
        readTime?_eq_some_iff.2 ⟨written', h', rfl⟩
      simp [htime]

theorem IsWritten.ne_nil {lastSecond : Nat} {b : Until} (h : IsWritten lastSecond text b) :
    text ≠ [] := by
  cases h with
  | date h =>
    obtain ⟨year, month, day, htriple, -⟩ := h
    obtain ⟨front, field, rfl, hlength, -⟩ := htriple.exists_last
    rintro hnil
    rw [(List.append_eq_nil_iff.1 hnil).2] at hlength
    contradiction
  | floating _ _ | utc _ _ => simp

end Until

namespace Setting

/-- An end is read exactly if it is written as one, with a second of any two digits, and every other
value is no date. There are the dates of the years up to 9999 whose month has such a day, and the
times of a day's 24 hours. -/
theorem read_bound_eq_ok_iff (raw : Slice) (s : Setting) :
    (read .bound raw = .ok s ↔ ∃ b, Until.IsWritten 99 raw.chars b ∧ s = .bound b) ∧
    (read .bound raw = .error (.badDate raw.text raw.span) ↔
      raw.chars ≠ [] ∧ ¬ ∃ b, Until.IsWritten 99 raw.chars b) ∧
    (∀ year month day : Nat, (∃ d : Date, d.year = year ∧ d.month = month ∧ d.day = day) ↔
      year ≤ 9999 ∧ Date.IsCivil year month day) ∧
    ∀ hour minute second : Nat,
      (∃ t : Time, t.hour = hour ∧ t.minute = minute ∧ t.second = second ∧ t.fraction = 0) ↔
        hour ≤ 23 ∧ minute ≤ 59 ∧ second ≤ 59 := by
  refine ⟨?_, ?_, ?_, ?_⟩
  · rw [read]
    split
    next hnil =>
      refine iff_of_false (by simp) ?_
      rintro ⟨b, hb, -⟩
      exact hb.ne_nil hnil
    next =>
      simp only [← Until.ofChars?_eq_some_iff]
      cases Until.ofChars? raw.chars <;> simp [eq_comm]
  · simp only [read, ← Until.ofChars?_eq_some_iff]
    split
    next hnil => simp [hnil]
    next hne => cases Until.ofChars? raw.chars <;> simp [hne]
  · intro year month day
    have hyear : -9999 ≤ (year : Int) ∧ (year : Int) ≤ 9999 ↔ year ≤ 9999 := by omega
    rw [Date.exists_civil_iff, ← and_assoc, hyear]
  · intro hour minute second
    rw [Time.exists_clock_iff]
    omega

/-- No minute has a second 61, but it is read, as the second 59. -/
theorem read_bound_second_sixtyOne :
    ∃ t : DateTime, read .bound (.ofString "20250103T090061") = .ok (.bound (.floating t)) ∧
      (t.time.hour, t.time.minute, t.time.second) = (9, 0, 59) ∧
      ¬ ∃ b, Until.IsWritten 60 "20250103T090061".toList b := by
  refine ⟨⟨⟨739253, by decide, by decide⟩, ⟨32459000000000, by decide⟩⟩, by decide, by decide, ?_⟩
  rintro ⟨b, hb⟩
  -- the text ends in the last number of its date or of its time, or in a Z
  have hlast {front field : List Char} {n : Nat} (htext : "20250103T090061".toList = front ++ field)
      (hfield : IsField 2 field n) : n = 61 := by
    obtain ⟨hlength, -, rfl⟩ := hfield
    have hsplit : "20250103T0900".toList ++ ['6', '1'] = front ++ field := htext
    rw [← List.append_inj_right' hsplit hlength.symm]
    rfl
  generalize htext : "20250103T090061".toList = text at hb
  cases hb with
  | @date _ d h =>
    obtain ⟨year, month, day, htriple, -, -, hday⟩ := h
    obtain ⟨front, field, rfl, hfield⟩ := htriple.exists_last
    have hle := d.day_le_monthLength.trans (Year.monthLength_bounds d.year d.month_pos).2
    have heq := hlast htext hfield
    omega
  | @floating before _ t _ h =>
    obtain ⟨hour, minute, second, htriple, hle, -⟩ := h
    obtain ⟨front, field, rfl, hfield⟩ := htriple.exists_last
    have hsplit : "20250103T090061".toList = (before ++ 'T' :: front) ++ field := by
      simpa using htext
    have heq := hlast hsplit hfield
    omega
  | @utc before time t _ _ =>
    have hsplit : "20250103T09006".toList ++ ['1'] = (before ++ 'T' :: time) ++ ['Z'] := by
      simpa using htext
    have hend := List.append_inj_right' hsplit rfl
    contradiction

end Setting

end Recurrence
