import Mathlib
import Recurrence.Proofs.Rule.Draft
import Recurrence.Proofs.Rule.Part
import Recurrence.Proofs.Rule.Scan

namespace Recurrence

theorem Part.key_eq_of_ofName? {p : Part} {param : Param} (h : Param.ofName? p.key = some param) :
    p.key = param.name := by
  have hsame : SameLetters param.name p.key :=
    of_decide_eq_true (List.find?_some (p := fun a : Param ↦ SameLetters a.name p.key) h)
  have hletters : param.name.toList = p.name.chars.map Char.toUpper := by
    rw [SameLetters, Param.map_toUpper_name, key, String.toList_ofList, List.map_map] at hsame
    rw [hsame]
    exact List.map_congr_left fun c _ ↦ Char.toUpper_toUpper_eq_toUpper c
  rw [key, ← hletters, String.ofList_toList]

theorem Part.key_eq_of_setting {p : Part} {s : Setting} (h : p.setting = .ok s) :
    p.key = s.param.name := by
  rw [setting] at h
  split at h
  next hname => rw [key_eq_of_ofName? hname, (Setting.fits_of_read h).2]
  next => cases h

namespace Draft

variable {d : Draft} {e : RuleError}

theorem exists_of_push_eq_error {s : Setting} (h : d.push s = .error e) :
    ∃ t ∈ d.settings, t.param = s.param := by
  rw [push] at h
  split at h
  next hfound => exact hfound
  next => cases h

theorem exists_of_ofParts_eq_error {parts : List Part} (hdistinct : Part.Distinct parts)
    (h : ofParts parts = .error e) :
    ∃ before p after, parts = before ++ p :: after ∧ (∃ d, ofParts before = .ok d) ∧
      p.setting = .error e := by
  obtain ⟨before, p, after, d, rfl, hbefore, hp⟩ := foldlM_eq_error_iff.1 h
  refine ⟨before, p, after, rfl, ⟨d, hbefore⟩, ?_⟩
  obtain hp | ⟨s, hs, hpush⟩ := bind_eq_error_iff.1 hp
  · exact hp
  · -- A part before `p` would have to have its name.
    obtain ⟨t, ht, hparam⟩ := exists_of_push_eq_error hpush
    obtain ⟨q, hq, hqt⟩ := exists_mem_of_forall₂ (ofParts_eq_ok_iff.1 hbefore) ht
    have hkey : q.key = p.key := by
      rw [Part.key_eq_of_setting hqt, Part.key_eq_of_setting hs, hparam]
    exact absurd hkey ((List.pairwise_append.1 hdistinct).2.2 q hq p List.mem_cons_self)

theorem forall_mem_getD_findSome? {α : Type} {settings : List Setting}
    {g : Setting → Option (List α)} {P : α → Prop}
    (h : ∀ s ∈ settings, ∀ l, g s = some l → ∀ a ∈ l, P a) :
    ∀ a ∈ (settings.findSome? g).getD [], P a := by
  intro a ha
  cases hfind : settings.findSome? g with
  | none =>
    rw [hfind] at ha
    cases ha
  | some l =>
    rw [hfind] at ha
    obtain ⟨s, hs, hl⟩ := List.exists_of_findSome?_eq_some hfind
    exact h s hs l hl a ha

/-- The settings lie in the domains of their parameters already. -/
theorem outside?_data_eq_none (h : ∀ s ∈ d.settings, s.Fits) (f : Frequency) :
    (d.data f).withoutRepeats.outside? = none := by
  simp only [RuleData.outside?, Option.orElse_eq_orElse, Option.orElse_eq_or,
    Option.or_eq_none_iff, RuleError.outside?_eq_none_iff, RuleData.withoutRepeats, data,
    List.mem_eraseDups, RuleData.ordinals, List.mem_filterMap]
  refine ⟨?interval, ?count, ?byMonth, ?byWeekNo, ?byMonthDay, ?ordinals, ?bySetPos⟩
  case interval =>
    intro n hn
    rw [List.mem_singleton.1 hn]
    cases hfind : d.settings.findSome? Setting.interval? with
    | none => exact (by decide : Param.interval.domain.Contains 1)
    | some m =>
      obtain ⟨s, hs, hm⟩ := List.exists_of_findSome?_eq_some hfind
      cases s <;> cases hm
      exact h _ hs
  case count =>
    intro n hn
    obtain ⟨m, hm, rfl⟩ := List.mem_map.1 hn
    obtain ⟨s, hs, hm⟩ := List.exists_of_findSome?_eq_some (Option.mem_toList.1 hm)
    cases s <;> cases hm
    exact h _ hs
  case ordinals =>
    have hdays : ∀ day ∈ (d.settings.findSome? Setting.byDay?).getD [], day.Fits := by
      refine forall_mem_getD_findSome? fun s hs l hl ↦ ?_
      cases s <;> cases hl
      exact (h _ hs).forall_mem
    rintro n ⟨day, hday, hn⟩
    exact hdays day hday n hn
  case byMonth | byWeekNo | byMonthDay | bySetPos =>
    refine forall_mem_getD_findSome? fun s hs l hl ↦ ?_
    cases s <;> cases hl
    exact (h _ hs).forall_mem

theorem build_eq_error (h : ∀ s ∈ d.settings, s.Fits) (he : d.build = .error e) :
    e = .absentParam .freq ∨ e = .lonePositions := by
  rw [build] at he
  split at he
  next =>
    cases he
    exact .inl rfl
  next f _ =>
    split at he
    next fault hfault =>
      cases he
      rw [RuleData.fault?, outside?_data_eq_none h, Option.orElse_eq_orElse,
        Option.orElse_eq_or, Option.none_or] at hfault
      split at hfault
      next => cases hfault; exact .inr rfl
      next => cases hfault
    next => cases he

end Draft

end Recurrence
