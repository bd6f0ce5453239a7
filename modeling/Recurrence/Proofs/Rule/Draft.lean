import Recurrence.Proofs.Rule.Setting
import Recurrence.Rule.Parser

namespace Recurrence

namespace Draft

variable {d d' : Draft} {s : Setting}

theorem ext_settings (h : d.settings = d'.settings) : d = d' := by
  cases d
  cases d'
  congr

theorem push_eq_ok_iff : d.push s = .ok d' ↔ d'.settings = d.settings ++ [s] := by
  rw [push]
  split
  next h =>
    refine iff_of_false nofun fun hsettings ↦ ?_
    obtain ⟨t, ht, hparam⟩ := h
    have hdistinct := d'.distinct
    rw [hsettings, List.pairwise_append] at hdistinct
    exact hdistinct.2.2 t ht s (List.mem_singleton_self s) hparam
  next =>
    rw [Except.ok.injEq]
    constructor
    · rintro rfl
      rfl
    · intro h
      exact ext_settings h.symm

theorem foldlM_push_eq_ok_iff {parts : List Part} :
    parts.foldlM (fun draft p ↦ do draft.push (← p.setting)) d = .ok d' ↔
      ∃ added, List.Forall₂ (fun p s ↦ p.setting = .ok s) parts added ∧
        d'.settings = d.settings ++ added := by
  induction parts generalizing d with
  | nil =>
    constructor
    · rintro ⟨⟩
      exact ⟨[], .nil, (List.append_nil _).symm⟩
    · rintro ⟨_, ⟨⟩, h⟩
      rw [List.append_nil] at h
      rw [ext_settings h]
      rfl
  | cons p parts ih =>
    simp only [List.foldlM_cons, bind_eq_ok_iff, push_eq_ok_iff, ih]
    constructor
    · rintro ⟨e, ⟨s, hs, he⟩, added, hadded, h⟩
      refine ⟨s :: added, .cons hs hadded, ?_⟩
      rw [h, he, List.append_assoc, List.singleton_append]
    · rintro ⟨_, hforall, h⟩
      obtain ⟨s, added, hs, hadded, rfl⟩ := List.forall₂_cons_left_iff.1 hforall
      rw [List.append_cons] at h
      have hdistinct := d'.distinct
      rw [h, List.pairwise_append] at hdistinct
      exact ⟨⟨d.settings ++ [s], hdistinct.1⟩, ⟨s, hs, rfl⟩, added, hadded, h⟩

theorem ofParts_eq_ok_iff {parts : List Part} :
    ofParts parts = .ok d ↔ List.Forall₂ (fun p s ↦ p.setting = .ok s) parts d.settings := by
  rw [ofParts, foldlM_push_eq_ok_iff]
  constructor
  · rintro ⟨added, hadded, h⟩
    rwa [h]
  · intro h
    exact ⟨d.settings, h, rfl⟩

end Draft

theorem RuleData.withoutRepeats_eq_self {r : RuleData} (h : r.Valid) : r.withoutRepeats = r := by
  cases r
  simp only [withoutRepeats, eraseDups_eq_self h.nodup_byMonth, eraseDups_eq_self h.nodup_byWeekNo,
    eraseDups_eq_self h.nodup_byMonthDay, eraseDups_eq_self h.nodup_byDay,
    eraseDups_eq_self h.nodup_bySetPos]

theorem RuleData.fault?_eq_none {r : RuleData} (h : r.Valid) : r.fault? = none := by
  have hinterval (n : Int) (hn : n ∈ [(r.interval : Int)]) : Param.interval.domain.Contains n := by
    rw [List.mem_singleton.1 hn]
    exact h.interval
  have hcount (n : Int) (hn : n ∈ r.count.toList.map Int.ofNat) :
      Param.count.domain.Contains n := by
    obtain ⟨m, hm, rfl⟩ := List.mem_map.1 hn
    exact h.count m (Option.mem_toList.1 hm)
  have hlone : ¬ r.HasLonePositions := by
    rintro ⟨hne, hmonth, hweek, hday, hdays⟩
    obtain hm | hw | hd | hd := h.companion hne <;> contradiction
  simp only [fault?, outside?, RuleError.outside?_eq_none_iff.2 hinterval,
    RuleError.outside?_eq_none_iff.2 hcount, RuleError.outside?_eq_none_iff.2 h.byMonth,
    RuleError.outside?_eq_none_iff.2 h.byWeekNo, RuleError.outside?_eq_none_iff.2 h.byMonthDay,
    RuleError.outside?_eq_none_iff.2 h.ordinals, RuleError.outside?_eq_none_iff.2 h.bySetPos,
    if_neg hlone]
  rfl

theorem Draft.build_eq_ok_iff {d : Draft} {r : Rule} :
    d.build = .ok r ↔ ∃ f, d.settings.findSome? Setting.freq? = some f ∧
      (d.data f).withoutRepeats = r.toRuleData := by
  rw [build]
  cases d.settings.findSome? Setting.freq? with
  | none => exact iff_of_false nofun nofun
  | some f =>
    simp only [Option.some.injEq, exists_eq_left']
    split
    next fault hfault =>
      refine iff_of_false nofun fun hdata ↦ ?_
      rw [hdata, RuleData.fault?_eq_none r.valid] at hfault
      cases hfault
    next =>
      constructor
      · rintro ⟨⟩
        rfl
      · intro hdata
        cases r
        congr

end Recurrence
