import Recurrence.Proofs.Rule.Draft
import Recurrence.Proofs.Rule.Part

namespace Recurrence.Rule

variable {r : Rule}

theorem mem_listSetting {α : Type} {setting : List α → Setting} {values : List α} {s : Setting} :
    s ∈ listSetting setting values ↔ values ≠ [] ∧ s = setting values := by
  cases values <;> simp [listSetting]

theorem findSome?_listSetting {α β : Type} (setting : List α → Setting) (values : List α)
    (g : Setting → Option β) :
    (listSetting setting values).findSome? g =
      if values = [] then none else g (setting values) := by
  cases values <;> simp [listSetting]

theorem findSome?_toList_map {α β : Type} (setting : α → Setting) (value : Option α)
    (g : Setting → Option β) :
    (value.toList.map setting).findSome? g = value.bind fun a ↦ g (setting a) := by
  cases value <;> simp

theorem findSome?_interval {β : Type} (n : Nat) (g : Setting → Option β) :
    (if n = 1 then [] else [Setting.interval n]).findSome? g =
      if n = 1 then none else g (.interval n) := by
  split <;> simp

theorem getD_ite_none_some {α : Type} [DecidableEq α] (a default : α) :
    (if a = default then none else some a).getD default = a := by
  split
  next h => exact h.symm
  next => rfl

theorem map_param_settings_sublist (r : Rule) :
    (r.settings.map Setting.param).Sublist Param.all := by
  have hlist {α : Type} (setting : List α → Setting) (values : List α) :
      ((listSetting setting values).map Setting.param).Sublist [(setting values).param] := by
    cases values with
    | nil => exact List.nil_sublist _
    | cons => exact List.Sublist.refl _
  have hinterval : ((if r.interval = 1 then [] else [Setting.interval r.interval]).map
      Setting.param).Sublist [.interval] := by
    split
    · exact List.nil_sublist _
    · exact List.Sublist.refl _
  have hoption {α : Type} (setting : α → Setting) (p : Param) (hp : ∀ a, (setting a).param = p)
      (value : Option α) : ((value.toList.map setting).map Setting.param).Sublist [p] := by
    cases value with
    | none => exact List.nil_sublist _
    | some a => exact List.singleton_sublist.2 (List.mem_singleton.2 (hp a))
  have hcount := hoption .count .count (fun _ ↦ rfl) r.count
  have hbound := hoption .bound .bound (fun _ ↦ rfl) r.bound
  simp only [settings, List.map_append, List.map_cons]
  exact (((((((((List.Sublist.refl [.freq]).append hinterval).append hcount).append hbound).append
    (hlist .byMonth _)).append (hlist .byWeekNo _)).append (hlist .byMonthDay _)).append
    (hlist .byDay _)).append (hlist .bySetPos _))

theorem pairwise_settings (r : Rule) : r.settings.Pairwise fun a b ↦ a.param ≠ b.param := by
  have hnodup : Param.all.Nodup := by decide
  exact List.pairwise_map.1 (hnodup.sublist r.map_param_settings_sublist)

def draft (r : Rule) : Draft := ⟨r.settings, r.pairwise_settings⟩

theorem data_draft (r : Rule) : r.draft.data r.freq = r.toRuleData := by
  obtain ⟨⟨f, interval, count, bound, byMonth, byWeekNo, byMonthDay, byDay, bySetPos⟩, valid⟩ := r
  simp [draft, Draft.data, settings, List.findSome?_append, List.findSome?_cons,
    findSome?_listSetting, findSome?_toList_map, findSome?_interval, getD_ite_none_some,
    Setting.interval?, Setting.count?, Setting.bound?, Setting.byMonth?, Setting.byWeekNo?,
    Setting.byMonthDay?, Setting.byDay?, Setting.bySetPos?]

theorem build_draft (r : Rule) : r.draft.build = .ok r := by
  refine Draft.build_eq_ok_iff.2 ⟨r.freq, rfl, ?_⟩
  rw [data_draft, RuleData.withoutRepeats_eq_self r.valid]

theorem fits_of_mem_settings (h : ∀ b ∈ r.bound, b.IsExact) {s : Setting} (hs : s ∈ r.settings) :
    s.Fits := by
  have hvalid := r.valid
  have hdays : ∀ d ∈ r.byDay, d.Fits :=
    fun d hd n hn ↦ hvalid.ordinals n (List.mem_filterMap.2 ⟨d, hd, hn⟩)
  have hinterval (hs : s ∈ if r.interval = 1 then [] else [.interval r.interval]) :
      s = .interval r.interval := by
    split at hs
    · cases hs
    · exact List.mem_singleton.1 hs
  simp only [settings, List.mem_append, List.mem_cons, List.mem_map, Option.mem_toList,
    mem_listSetting] at hs
  obtain (((((((rfl | hs) | ⟨n, hn, rfl⟩) | ⟨b, hb, rfl⟩) | ⟨hne, rfl⟩) | ⟨hne, rfl⟩) |
    ⟨hne, rfl⟩) | ⟨hne, rfl⟩) | ⟨hne, rfl⟩ := hs
  · trivial
  · rw [hinterval hs]
    exact hvalid.interval
  · exact hvalid.count n hn
  · exact h b hb
  · exact ⟨hne, hvalid.nodup_byMonth, hvalid.byMonth⟩
  · exact ⟨hne, hvalid.nodup_byWeekNo, hvalid.byWeekNo⟩
  · exact ⟨hne, hvalid.nodup_byMonthDay, hvalid.byMonthDay⟩
  · exact ⟨hne, hvalid.nodup_byDay, hdays⟩
  · exact ⟨hne, hvalid.nodup_bySetPos, hvalid.bySetPos⟩

theorem parse_eq_ok_iff {text : String} : parse text = .ok r ↔
    ∃ parts, Part.scan text = .ok parts ∧ ∃ d, Draft.ofParts parts = .ok d ∧ d.build = .ok r := by
  simp only [parse, bind_eq_ok_iff]

theorem parse_text (h : ∀ b ∈ r.bound, b.IsExact) : parse r.text = .ok r := by
  have hne : r.settings ≠ [] := List.cons_ne_nil _ _
  have hfits (s : Setting) (hs : s ∈ r.settings) : s.Fits := fits_of_mem_settings h hs
  obtain ⟨parts, hparts, hwrites⟩ := Part.exists_scan_eq_ok hne hfits r.pairwise_settings
  have hdraft : Draft.ofParts parts = .ok r.draft :=
    Draft.ofParts_eq_ok_iff.2 (hwrites.imp fun _ _ hp ↦ hp.setting_eq)
  exact parse_eq_ok_iff.2 ⟨parts, hparts, r.draft, hdraft, r.build_draft⟩

theorem isExact_of_parse {text : String} (h : parse text = .ok r) : ∀ b ∈ r.bound, b.IsExact := by
  obtain ⟨parts, -, d, hd, hbuild⟩ := parse_eq_ok_iff.1 h
  obtain ⟨f, -, hdata⟩ := Draft.build_eq_ok_iff.1 hbuild
  intro b hb
  rw [← hdata] at hb
  obtain ⟨s, hs, hsb⟩ := List.exists_of_findSome?_eq_some hb
  obtain ⟨p, -, hp⟩ := exists_mem_of_forall₂ (Draft.ofParts_eq_ok_iff.1 hd) hs
  have hfits := Part.fits_of_setting hp
  cases s with
  | bound c =>
    cases hsb
    exact hfits
  | freq | interval | count | byMonth | byWeekNo | byMonthDay | byDay | bySetPos => cases hsb

theorem parse_text_iff_isExact : parse r.text = .ok r ↔ ∀ b ∈ r.bound, b.IsExact :=
  ⟨isExact_of_parse, parse_text⟩

/-- The text of a rule is read back as this rule exactly if its end, should it have one, has a year
of four digits and no fraction of a second. A rule that was read is always read back, and its text
does not change any more. Every rule is one that a draft builds, by `build_draft`. -/
theorem parse_text_eq_ok_iff :
    (∀ r : Rule, parse r.text = .ok r ↔ ∀ b ∈ r.bound,
      0 ≤ b.dateTime.date.year ∧ b.dateTime.date.year ≤ 9999 ∧ b.dateTime.time.fraction = 0) ∧
    ∀ (text : String) (r : Rule), parse text = .ok r →
      parse r.text = .ok r ∧ (parse r.text).map Rule.text = .ok r.text := by
  refine ⟨fun r ↦ parse_text_iff_isExact.trans ?_, fun text r h ↦ ?_⟩
  · refine forall₂_congr fun b _ ↦ ⟨fun hb ↦ ?_, fun ⟨hyear, hle, hfraction⟩ ↦ ?_⟩
    · exact ⟨hb.year_nonneg, hb.year_le, hb.fraction_eq⟩
    · exact ⟨hyear, hle, hfraction⟩
  · have hread : parse r.text = .ok r := parse_text_iff_isExact.2 (isExact_of_parse h)
    rw [hread]
    exact ⟨rfl, rfl⟩

def fridaysAndMondays : Rule where
  freq := .monthly
  bound := some (.utc ⟨⟨736328, by decide, by decide⟩, ⟨68399000000000, by decide⟩⟩)
  byDay := [⟨some (-1), .friday⟩, ⟨some 2, .monday⟩]

/-- From a text that is not in the written form. -/
theorem parse_text_fridaysAndMondays :
    parse " BYDAY=-1fr,+2MO,-1FR ; freq=Monthly;;until=2016-12-31T18:59:60Z;interval=1" =
        .ok fridaysAndMondays ∧
      parse fridaysAndMondays.text = .ok fridaysAndMondays ∧
      (parse fridaysAndMondays.text).map Rule.text = .ok fridaysAndMondays.text := by
  have h : parse " BYDAY=-1fr,+2MO,-1FR ; freq=Monthly;;until=2016-12-31T18:59:60Z;interval=1" =
      .ok fridaysAndMondays := by
    rfl
  exact ⟨h, parse_text_eq_ok_iff.2 _ _ h⟩

end Recurrence.Rule
