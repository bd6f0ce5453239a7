import Recurrence.Proofs.Rule.DayForm
import Recurrence.Proofs.Rule.Lexeme
import Recurrence.Proofs.Rule.Until

namespace Recurrence

theorem Frequency.ofName?_name (f : Frequency) : ofName? f.name = some f := by
  cases f <;> decide

theorem Param.ofName?_name (p : Param) : ofName? p.name = some p := by
  cases p <;> decide

namespace Setting

/-- The value lies in the domain of its parameter, and an end can be written. -/
def Fits : Setting → Prop
  | freq _ => True
  | interval n => Param.interval.Admits n
  | count n => Param.count.Admits n
  | bound b => b.IsExact
  | byMonth l => IsListOf Param.byMonth.Admits l
  | byWeekNo l => IsListOf Param.byWeekNo.Admits l
  | byMonthDay l => IsListOf Param.byMonthDay.Admits l
  | byDay l => IsListOf WeekdayNum.Fits l
  | bySetPos l => IsListOf Param.bySetPos.Admits l

variable {s : Setting}

theorem valueChars_ne_nil (h : s.Fits) : s.valueChars ≠ [] := by
  cases s with
  | freq f => cases f <;> decide
  | interval n | count n => exact Decimal.ofNat_ne_nil n
  | bound b => exact b.chars_ne_nil
  | byMonth l | byWeekNo l | byMonthDay l | bySetPos l =>
    exact listChars_ne_nil h.1 Decimal.ofInt_ne_nil
  | byDay l => exact listChars_ne_nil h.1 WeekdayNum.chars_ne_nil

theorem mem_valueChars {c : Char} (h : c ∈ s.valueChars) :
    c = ',' ∨ c = '-' ∨ c.isAlphanum := by
  cases s with
  | freq f =>
    have hletters : f.name.toList.all Char.isAlphanum := by cases f <;> decide
    exact .inr (.inr (List.all_eq_true.1 hletters c h))
  | interval n | count n =>
    exact .inr (.inr (Decimal.isAlphanum_of_isDigit (Decimal.isDigit_of_mem_ofNat h)))
  | bound b => exact .inr (Until.mem_chars h)
  | byMonth l | byWeekNo l | byMonthDay l | bySetPos l =>
    obtain rfl | ⟨n, -, hc⟩ := mem_listChars h
    · exact .inl rfl
    · exact .inr ((Decimal.mem_ofInt hc).imp_right Decimal.isAlphanum_of_isDigit)
  | byDay l =>
    obtain rfl | ⟨d, -, hc⟩ := mem_listChars h
    · exact .inl rfl
    · exact .inr (WeekdayNum.mem_chars hc)

theorem isWord_valueChars {c : Char} (h : c ∈ s.valueChars) :
    LexemeKind.ofChar c = .word := by
  obtain rfl | rfl | hc := mem_valueChars h
  · rfl
  · rfl
  · exact LexemeKind.ofChar_of_isAlphanum hc

theorem read_eq_ok {raw : Slice} (h : s.Fits) (hraw : raw.chars = s.valueChars) :
    read s.param raw = .ok s := by
  have hne : raw.chars ≠ [] := hraw ▸ valueChars_ne_nil h
  unfold read
  rw [if_neg hne]
  cases s with
  | freq f =>
    have hname : Frequency.ofName? raw.text = some f := by
      rw [Slice.text, hraw, valueChars, String.ofList_toList, Frequency.ofName?_name]
    simp only [param, hname]
  | bound b =>
    have hbound : Until.ofChars? raw.chars = some b := by
      rw [hraw, valueChars, Until.ofChars?_chars h]
    simp only [param, hbound]
  | interval n | count n => exact map_eq_ok_iff.2 ⟨n, readInteger_eq_ok hraw h, rfl⟩
  | byMonth l | byWeekNo l | byMonthDay l | bySetPos l =>
    exact map_eq_ok_iff.2 ⟨l, readIntegers_eq_ok h hraw, rfl⟩
  | byDay l => exact map_eq_ok_iff.2 ⟨l, readDays_eq_ok h hraw, rfl⟩

theorem fits_of_read {param : Param} {raw : Slice} (h : read param raw = .ok s) :
    s.Fits ∧ s.param = param := by
  unfold read at h
  split at h
  next => cases h
  next =>
    cases param with
    | freq =>
      dsimp only at h
      split at h
      next =>
        cases h
        exact ⟨trivial, rfl⟩
      next => cases h
    | bound =>
      dsimp only at h
      split at h
      next b hb =>
        cases h
        exact ⟨Until.isExact_of_ofChars? hb, rfl⟩
      next => cases h
    | interval =>
      have hnonneg (v : Int) (hv : Param.interval.Admits v) : 0 ≤ v := Int.le_of_lt hv.1
      obtain ⟨n, hn, rfl⟩ := map_eq_ok_iff.1 h
      exact ⟨admits_of_readInteger hnonneg hn, rfl⟩
    | count =>
      have hnonneg (v : Int) (hv : Param.count.Admits v) : 0 ≤ v := hv.1
      obtain ⟨n, hn, rfl⟩ := map_eq_ok_iff.1 h
      exact ⟨admits_of_readInteger hnonneg hn, rfl⟩
    | byMonth | byWeekNo | byMonthDay | bySetPos =>
      obtain ⟨values, hvalues, rfl⟩ := map_eq_ok_iff.1 h
      exact ⟨isListOf_of_readIntegers hvalues, rfl⟩
    | byDay =>
      obtain ⟨values, hvalues, rfl⟩ := map_eq_ok_iff.1 h
      exact ⟨isListOf_of_readDays hvalues, rfl⟩

end Setting

end Recurrence
