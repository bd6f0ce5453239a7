import Recurrence.Proofs.Text.Decimal
import Recurrence.Proofs.Text.Reading
import Recurrence.Proofs.Text.Slice
import Recurrence.Rule.Draft
import Recurrence.Rule.Setting.Reader

namespace Recurrence

theorem eraseDups_eq_self {α : Type} [BEq α] [LawfulBEq α] {l : List α} (h : l.Nodup) :
    l.eraseDups = l := by
  induction l with
  | nil => rfl
  | cons a l ih =>
    obtain ⟨ha, hl⟩ := List.nodup_cons.1 h
    have hfilter : (l.filter fun b ↦ !b == a) = l := by
      rw [List.filter_eq_self]
      intro b hb
      have hne : b ≠ a := fun hba ↦ ha (hba ▸ hb)
      simp [hne]
    rw [List.eraseDups_cons, hfilter, ih hl]

theorem eraseDups_ne_nil {α : Type} [BEq α] {l : List α} (h : l ≠ []) : l.eraseDups ≠ [] := by
  cases l with
  | nil => exact absurd rfl h
  | cons a l =>
    rw [List.eraseDups_cons]
    exact List.cons_ne_nil _ _

theorem Domain.natAbs_lt_limit_of_contains {min max n : Int} {zero : Bool}
    (hmin : -(Numeral.limit : Int) < min) (hmax : max < Numeral.limit)
    (h : (Domain.integer min max zero).Contains n) : n.natAbs < Numeral.limit := by
  obtain ⟨h₁, h₂, -⟩ := h
  omega

def Param.Admits (p : Param) (n : Int) : Prop := p.domain.Contains n

theorem Param.natAbs_lt_limit {p : Param} {n : Int} (h : p.Admits n) :
    n.natAbs < Numeral.limit := by
  cases p with
  | freq | bound | byDay => exact h.elim
  | interval | count | byMonth | byWeekNo | byMonthDay | bySetPos =>
    exact Domain.natAbs_lt_limit_of_contains (by decide) (by decide) h

/-- The domain of the numbers of a parameter. Those of BYDAY are the ordinals of its weekdays. -/
def Param.numberDomain : Param → Domain
  | .byDay => .weekdayOrdinal
  | p => p.domain

theorem Param.narrow?_of_contains {p : Param} {n : Int} (h : p.numberDomain.Contains n) :
    p.narrow? n = some n := by
  cases p with
  | freq | bound => exact h.elim
  | interval | count | byMonth | byWeekNo | byMonthDay | byDay | bySetPos =>
    obtain ⟨hmin, hmax, -⟩ := h
    exact if_pos ⟨Int.le_trans (by decide) hmin, Int.le_trans hmax (by decide)⟩

theorem Param.narrow?_of_admits {p : Param} {n : Int} (h : p.Admits n) : p.narrow? n = some n := by
  cases p with
  | byDay => exact h.elim
  | freq | bound | interval | count | byMonth | byWeekNo | byMonthDay | bySetPos =>
    exact narrow?_of_contains h

namespace Setting

structure IsListOf {α : Type} (p : α → Prop) (values : List α) : Prop where
  ne_nil : values ≠ []
  nodup : values.Nodup
  forall_mem : ∀ a ∈ values, p a

variable {raw : Slice}

section

variable {α : Type} {item : α → List Char} {values : List α}

theorem listChars_ne_nil (hne : values ≠ [])
    (h : ∀ a, item a ≠ []) : listChars item values ≠ [] := by
  cases values with
  | nil => exact absurd rfl hne
  | cons a l =>
    cases l with
    | nil =>
      rw [listChars, List.map_singleton, List.intercalate_singleton]
      exact h a
    | cons b l =>
      rw [listChars, List.map_cons, List.map_cons, List.intercalate_cons_cons, List.append_assoc]
      exact List.append_ne_nil_of_left_ne_nil (h a) _

theorem mem_listChars {c : Char}
    (h : c ∈ listChars item values) : c = ',' ∨ ∃ a ∈ values, c ∈ item a := by
  obtain h | ⟨piece, hpiece, hc⟩ := mem_or_of_mem_intercalate h
  · exact .inl (List.mem_singleton.1 h)
  · obtain ⟨a, ha, rfl⟩ := List.mem_map.1 hpiece
    exact .inr ⟨a, ha, hc⟩

theorem splitOn_listChars (hne : values ≠ []) (hitem : ∀ a ∈ values, ',' ∉ item a)
    (hraw : raw.chars = listChars item values) :
    (raw.splitOn ',').map Slice.chars = values.map item := by
  rw [Slice.map_chars_splitOn, hraw, listChars]
  refine List.splitOn_intercalate ',' ?_ (by rwa [ne_eq, List.map_eq_nil_iff])
  intro text htext
  obtain ⟨a, ha, rfl⟩ := List.mem_map.1 htext
  exact hitem a ha

end

section ReadList

variable {α β : Type} [BEq β] {form? : List Char → Option α} {refusal : RuleError}
  {readItem : α → Slice → Except RuleError β} {values : List β}

theorem readList_eq_ok_iff : readList form? refusal readItem raw = .ok values ↔
    ∃ written, List.Forall₂ (fun item b ↦ ∃ a, form? item.chars = some a ∧ readItem a item = .ok b)
      (raw.splitOn ',') written ∧ written.eraseDups = values := by
  have hread (written : List β) :
      List.Forall₂ (fun item b ↦ ∃ a, form? item.chars = some a ∧ readItem a item = .ok b)
        (raw.splitOn ',') written ↔
      ∃ forms, (raw.splitOn ',').mapM (fun item ↦ form? item.chars) = some forms ∧
        ((raw.splitOn ',').zip forms).mapM (fun pair ↦ readItem pair.2 pair.1) = .ok written := by
    simp only [mapM_eq_some_iff, mapM_eq_ok_iff, exists_forall₂_zip_iff]
  simp only [hread, readList]
  cases (raw.splitOn ',').mapM fun item ↦ form? item.chars with
  | none => simp
  | some forms =>
    simp only [bind_eq_ok_iff, Option.some.injEq, exists_eq_left']
    apply exists_congr
    intro written
    simp [pure, Except.pure]

theorem readList_eq_refusal {item : Slice} (hitem : item ∈ raw.splitOn ',')
    (hnone : form? item.chars = none) : readList form? refusal readItem raw = .error refusal := by
  have hforms : (raw.splitOn ',').mapM (fun item ↦ form? item.chars) = none :=
    mapM_eq_none_iff.2 ⟨item, hitem, hnone⟩
  simp only [readList, hforms]

/-- Either an item has not its form, or the first item that is not read is at fault. -/
theorem of_readList_eq_error {e : RuleError} (h : readList form? refusal readItem raw = .error e) :
    (∃ item ∈ raw.splitOn ',', form? item.chars = none ∧ e = refusal) ∨
      ∃ before item after, raw.splitOn ',' = before ++ item :: after ∧
        (∀ b ∈ before, ∃ a v, form? b.chars = some a ∧ readItem a b = .ok v) ∧
        ∃ a, form? item.chars = some a ∧ readItem a item = .error e := by
  simp only [readList] at h
  split at h
  next hforms =>
    obtain ⟨item, hitem, hnone⟩ := mapM_eq_none_iff.1 hforms
    exact .inl ⟨item, hitem, hnone, (Except.error.inj h).symm⟩
  next forms hforms =>
    have hforall := mapM_eq_some_iff.1 hforms
    obtain h | ⟨_, -, ⟨⟩⟩ := bind_eq_error_iff.1 h
    obtain ⟨before, pair, after, hzip, hbefore, he⟩ := mapM_eq_error_iff.1 h
    have hform {pair : Slice × α} (hpair : pair ∈ (raw.splitOn ',').zip forms) :
        form? pair.1.chars = some pair.2 := List.forall₂_zip hforall hpair
    refine .inr ⟨before.map Prod.fst, pair.1, after.map Prod.fst,
      eq_append_of_zip_eq_append hforall.length_eq hzip, ?_, pair.2,
      hform (hzip ▸ List.mem_append_right before List.mem_cons_self), he⟩
    intro b hb
    obtain ⟨earlier, hearlier, rfl⟩ := List.mem_map.1 hb
    obtain ⟨v, hv⟩ := hbefore earlier hearlier
    exact ⟨earlier.2, v, hform (hzip ▸ List.mem_append_left _ hearlier), hv⟩

theorem readList_eq_ok [LawfulBEq β] {p : β → Prop} {chars : β → List Char} (h : IsListOf p values)
    (hcomma : ∀ b ∈ values, ',' ∉ chars b) (hraw : raw.chars = listChars chars values)
    (hitem : ∀ b, p b → ∃ a, form? (chars b) = some a ∧ ∀ item, readItem a item = .ok b) :
    readList form? refusal readItem raw = .ok values := by
  have hchars : List.Forall₂ (fun item b ↦ item.chars = chars b) (raw.splitOn ',') values := by
    rw [← List.forall₂_map_right_iff, ← List.forall₂_map_left_iff (f := Slice.chars),
      splitOn_listChars h.ne_nil hcomma hraw]
    exact List.forall₂_same.2 fun _ _ ↦ rfl
  have hp := (List.forall₂_and_left values (raw.splitOn ',')).2 ⟨h.forall_mem, hchars.flip⟩
  refine readList_eq_ok_iff.2 ⟨values, hp.flip.imp ?_, eraseDups_eq_self h.nodup⟩
  rintro item b ⟨hb, hsame⟩
  obtain ⟨a, hform, hread⟩ := hitem b hb
  exact ⟨a, hsame ▸ hform, hread item⟩

theorem isListOf_of_readList [LawfulBEq β] {p : β → Prop}
    (hitem : ∀ a item b, readItem a item = .ok b → p b)
    (h : readList form? refusal readItem raw = .ok values) : IsListOf p values := by
  obtain ⟨written, hwritten, rfl⟩ := readList_eq_ok_iff.1 h
  refine ⟨eraseDups_ne_nil ?_, nodup_eraseDups _, ?_⟩
  · rintro rfl
    exact Slice.splitOn_ne_nil raw ',' (List.forall₂_nil_right_iff.1 hwritten)
  · intro b hb
    obtain ⟨item, -, a, -, hread⟩ := exists_mem_of_forall₂ hwritten (List.mem_eraseDups.1 hb)
    exact hitem a item b hread

end ReadList

section Integers

variable {param : Param}

theorem readNumber_eq_ite (n : Int) (item : Slice) : readNumber param n item =
    if param.domain.Contains n then .ok n
    else .error (.badInteger param param.domain item.text item.span) := by
  rw [readNumber]
  by_cases hn : param.domain.Contains n
  · simp [hn, Param.narrow?_of_admits hn]
  · simp [hn]

theorem readNumber_eq_ok_iff {n m : Int} {item : Slice} :
    readNumber param n item = .ok m ↔ param.Admits n ∧ n = m := by
  rw [readNumber_eq_ite, ite_eq_ok_iff, Param.Admits]

theorem readInteger_eq_ok {n : Nat} (hraw : raw.chars = Decimal.ofNat n) (h : param.Admits n) :
    readInteger param raw = .ok n := by
  have hlimit : n < Numeral.limit := Param.natAbs_lt_limit h
  simp only [readInteger, hraw, Numeral.signed?_ofNat hlimit, readNumber_eq_ok_iff.2 ⟨h, rfl⟩]
  rfl

theorem admits_of_readInteger {n : Nat} (hnonneg : ∀ v, param.Admits v → 0 ≤ v)
    (h : readInteger param raw = .ok n) : param.Admits n := by
  rw [readInteger] at h
  split at h
  next v _ =>
    obtain ⟨m, hm, rfl⟩ := map_eq_ok_iff.1 h
    obtain ⟨hv, rfl⟩ := readNumber_eq_ok_iff.1 hm
    rwa [Int.toNat_of_nonneg (hnonneg v hv)]
  next => cases h

theorem readIntegers_eq_ok {values : List Int} (h : IsListOf param.Admits values)
    (hraw : raw.chars = listChars Decimal.ofInt values) : readIntegers param raw = .ok values := by
  have hcomma (n : Int) (_ : n ∈ values) : ',' ∉ Decimal.ofInt n := by
    intro hmem
    obtain hc | hc := Decimal.mem_ofInt hmem <;> contradiction
  refine readList_eq_ok h hcomma hraw fun n hn ↦ ?_
  exact ⟨n, Numeral.signed?_ofInt (Param.natAbs_lt_limit hn),
    fun item ↦ readNumber_eq_ok_iff.2 ⟨hn, rfl⟩⟩

theorem isListOf_of_readIntegers {values : List Int} (h : readIntegers param raw = .ok values) :
    IsListOf param.Admits values := by
  refine isListOf_of_readList (fun n item m hread ↦ ?_) h
  obtain ⟨hn, rfl⟩ := readNumber_eq_ok_iff.1 hread
  exact hn

end Integers

end Setting

end Recurrence
