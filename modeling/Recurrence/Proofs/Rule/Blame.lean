import Recurrence.Proofs.Rule.DayForm

namespace Recurrence

def Span.shift (k : Nat) (s : Span) : Span := ⟨k + s.start, k + s.stop⟩

namespace Slice

def shift (k : Nat) (s : Slice) : Slice := ⟨s.chars, k + s.start⟩

variable (k : Nat)

theorem span_shift (s : Slice) : (s.shift k).span = s.span.shift k := by
  simp only [span, stop, shift, Span.shift, Nat.add_assoc]

theorem locate_add (gap start : Nat) (pieces : List (List Char)) :
    locate gap (k + start) pieces = (locate gap start pieces).map (shift k) := by
  induction pieces generalizing start with
  | nil => rfl
  | cons piece pieces ih =>
    rw [locate, locate, List.map_cons, ← ih, Nat.add_assoc, Nat.add_assoc, Nat.add_assoc]
    rfl

theorem splitOn_shift (s : Slice) (c : Char) :
    (s.shift k).splitOn c = (s.splitOn c).map (shift k) :=
  locate_add k _ _ _

theorem mapM_map_shift {α : Type} (read : List Char → Option α) (pieces : List Slice) :
    (pieces.map (shift k)).mapM (fun piece ↦ read piece.chars) =
      pieces.mapM fun piece ↦ read piece.chars :=
  List.mapM_map

end Slice

namespace RuleError

def shift (k : Nat) : RuleError → RuleError
  | missingEquals part span => missingEquals part (span.shift k)
  | missingName part span => missingName part (span.shift k)
  | innerBlank part span => innerBlank part (span.shift k)
  | repeatedParam name span => repeatedParam name (span.map (Span.shift k))
  | unknownParam name span => unknownParam name (span.shift k)
  | absentParam param => absentParam param
  | missingValue param span => missingValue param (span.shift k)
  | badChoice param value span => badChoice param value (span.shift k)
  | badInteger param domain value span => badInteger param domain value (span.shift k)
  | badDate value span => badDate value (span.shift k)
  | lonePositions => lonePositions

end RuleError

namespace Setting

variable (k : Nat) (param : Param) (raw : Slice)

theorem readNumber_shift (n : Int) (item : Slice) : readNumber param n (item.shift k) =
    (readNumber param n item).mapError (RuleError.shift k) := by
  rw [readNumber_eq_ite, readNumber_eq_ite, Slice.span_shift]
  split <;> rfl

theorem readInteger_shift :
    readInteger param (raw.shift k) = (readInteger param raw).mapError (RuleError.shift k) := by
  have hchars : (raw.shift k).chars = raw.chars := rfl
  rw [readInteger, readInteger, hchars, Slice.span_shift]
  cases Numeral.signed? raw.chars with
  | none => rfl
  | some n =>
    dsimp only
    rw [readNumber_shift, mapError_map]

theorem readList_shift {α β : Type} [BEq β] {form? : List Char → Option α}
    {readItem : α → Slice → Except RuleError β} (refusal : RuleError)
    (hitem : ∀ a item, readItem a (item.shift k) = (readItem a item).mapError (RuleError.shift k)) :
    readList form? (refusal.shift k) readItem (raw.shift k) =
      (readList form? refusal readItem raw).mapError (RuleError.shift k) := by
  simp only [readList, Slice.splitOn_shift, Slice.mapM_map_shift k form?, List.zip_map_left]
  cases (raw.splitOn ',').mapM fun item ↦ form? item.chars with
  | none => rfl
  | some forms =>
    let readPair (pair : Slice × α) : Except RuleError β := readItem pair.2 pair.1
    have hpair : readPair ∘ Prod.map (Slice.shift k) id =
        fun pair ↦ (readPair pair).mapError (RuleError.shift k) :=
      funext fun pair ↦ hitem pair.2 pair.1
    have hpairs : (((raw.splitOn ',').zip forms).map (Prod.map (Slice.shift k) id)).mapM readPair =
        (((raw.splitOn ',').zip forms).mapM readPair).mapError (RuleError.shift k) := by
      rw [List.mapM_map, hpair, mapM_mapError]
    dsimp only
    rw [hpairs]
    generalize ((raw.splitOn ',').zip forms).mapM readPair = values
    cases values <;> rfl

theorem readIntegers_shift :
    readIntegers param (raw.shift k) = (readIntegers param raw).mapError (RuleError.shift k) := by
  rw [readIntegers, readIntegers, Slice.span_shift]
  exact readList_shift k raw (.badInteger param param.domain raw.text raw.span)
    (readNumber_shift k param)

theorem DayForm.read_shift (form : DayForm) (item : Slice) :
    form.read (item.shift k) = (form.read item).mapError (RuleError.shift k) := by
  simp only [read_eq, Slice.span_shift]
  cases Weekday.ofCode? (String.ofList form.letters) with
  | none => rfl
  | some weekday =>
    cases form.ordinal? with
    | none =>
      dsimp only
      split <;> rfl
    | some n =>
      dsimp only
      split <;> rfl

theorem readDays_shift :
    readDays (raw.shift k) = (readDays raw).mapError (RuleError.shift k) := by
  rw [readDays, readDays, Slice.span_shift]
  exact readList_shift k raw (.badChoice .byDay raw.text raw.span) (DayForm.read_shift k)

theorem read_shift :
    read param (raw.shift k) = (read param raw).mapError (RuleError.shift k) := by
  have hchars : (raw.shift k).chars = raw.chars := rfl
  unfold read
  rw [hchars, Slice.span_shift]
  by_cases hnil : raw.chars = []
  · rw [if_pos hnil, if_pos hnil]
    rfl
  · rw [if_neg hnil, if_neg hnil]
    cases param with
    | freq =>
      have htext : (raw.shift k).text = raw.text := rfl
      dsimp only
      rw [htext]
      cases Frequency.ofName? raw.text <;> rfl
    | bound =>
      dsimp only
      cases Until.ofChars? raw.chars <;> rfl
    | interval | count =>
      dsimp only
      rw [readInteger_shift, mapError_map]
    | byMonth | byWeekNo | byMonthDay | bySetPos =>
      dsimp only
      rw [readIntegers_shift, mapError_map]
    | byDay =>
      dsimp only
      rw [readDays_shift, mapError_map]

/-- The value as a whole, or an item of the list that it is. -/
def Concerns (raw s : Slice) : Prop := s = raw ∨ s ∈ raw.splitOn ','

/-- The errors of a value of the parameter that is there, and what each of them names. -/
inductive Blames (param : Param) (raw : Slice) : RuleError → Slice → Prop
  | choice {s : Slice} : Concerns raw s → Blames param raw (.badChoice param s.text s.span) s
  | integer {s : Slice} : Concerns raw s →
      Blames param raw (.badInteger param param.domain s.text s.span) s
  | ordinal {s : Slice} : param = .byDay → s ∈ raw.splitOn ',' →
      Blames param raw (.badInteger param .weekdayOrdinal s.text s.span) s
  | date : param = .bound → Blames param raw (.badDate raw.text raw.span) raw

variable {param : Param} {raw : Slice} {e : RuleError}

theorem Concerns.liesIn {s : Slice} (h : Concerns raw s) : s.LiesIn raw := by
  obtain rfl | h := h
  · exact .refl s
  · exact Slice.liesIn_of_mem_splitOn h

theorem Blames.liesIn {s : Slice} (h : Blames param raw e s) : s.LiesIn raw := by
  cases h with
  | date => exact .refl raw
  | choice h | integer h => exact h.liesIn
  | ordinal _ h => exact Slice.liesIn_of_mem_splitOn h

theorem Blames.span?_eq {s : Slice} (h : Blames param raw e s) : e.span? = some s.span := by
  cases h <;> rfl

theorem blames_of_readNumber {n : Int} {s : Slice} (hs : Concerns raw s)
    (h : readNumber param n s = .error e) : Blames param raw e s := by
  rw [readNumber_eq_ite] at h
  split at h
  next => cases h
  next => cases h; exact .integer hs

theorem exists_blames_of_readInteger (h : readInteger param raw = .error e) :
    ∃ s, Blames param raw e s := by
  rw [readInteger] at h
  split at h
  next => exact ⟨raw, blames_of_readNumber (.inl rfl) (map_eq_error_iff.1 h)⟩
  next => cases h; exact ⟨raw, .integer (.inl rfl)⟩

theorem exists_blames_of_readList {α β : Type} [BEq β] {form? : List Char → Option α}
    {refusal : RuleError} {readItem : α → Slice → Except RuleError β}
    (hrefusal : Blames param raw refusal raw)
    (hitem : ∀ a, ∀ item ∈ raw.splitOn ',', ∀ e, readItem a item = .error e →
      Blames param raw e item)
    (h : readList form? refusal readItem raw = .error e) : ∃ s, Blames param raw e s := by
  obtain ⟨-, -, -, rfl⟩ | ⟨before, item, after, hsplit, -, a, -, he⟩ := of_readList_eq_error h
  · exact ⟨raw, hrefusal⟩
  · have hmem : item ∈ raw.splitOn ',' := hsplit ▸ List.mem_append_right before List.mem_cons_self
    exact ⟨item, hitem a item hmem e he⟩

theorem exists_blames_of_readIntegers (h : readIntegers param raw = .error e) :
    ∃ s, Blames param raw e s :=
  exists_blames_of_readList (.integer (.inl rfl))
    (fun _ _ hmem _ he ↦ blames_of_readNumber (.inr hmem) he) h

theorem DayForm.blames_of_read {form : DayForm} {item : Slice} (hitem : item ∈ raw.splitOn ',')
    (h : form.read item = .error e) : Blames .byDay raw e item := by
  have hordinal : Blames .byDay raw (.badInteger .byDay .weekdayOrdinal item.text item.span) item :=
    .ordinal rfl hitem
  rw [read_eq] at h
  split at h
  next => cases h; exact .choice (.inr hitem)
  next =>
    split at h
    next => cases h
    next => cases h; exact hordinal
  next =>
    split at h
    next => cases h
    next => cases h; exact hordinal

theorem exists_blames_of_readDays (h : readDays raw = .error e) :
    ∃ s, Blames .byDay raw e s :=
  exists_blames_of_readList (.choice (.inl rfl))
    (fun _ _ hmem _ he ↦ DayForm.blames_of_read hmem he) h

theorem exists_blames (h : read param raw = .error e) :
    raw.chars = [] ∧ e = .missingValue param raw.span ∨ ∃ s, Blames param raw e s := by
  unfold read at h
  split at h
  next hnil =>
    cases h
    exact .inl ⟨hnil, rfl⟩
  next =>
    refine .inr ?_
    cases param with
    | freq =>
      dsimp only at h
      split at h
      next => cases h
      next => cases h; exact ⟨raw, .choice (.inl rfl)⟩
    | bound =>
      dsimp only at h
      split at h
      next => cases h
      next => cases h; exact ⟨raw, .date rfl⟩
    | interval | count => exact exists_blames_of_readInteger (map_eq_error_iff.1 h)
    | byMonth | byWeekNo | byMonthDay | bySetPos =>
      exact exists_blames_of_readIntegers (map_eq_error_iff.1 h)
    | byDay => exact exists_blames_of_readDays (map_eq_error_iff.1 h)

end Setting

end Recurrence
