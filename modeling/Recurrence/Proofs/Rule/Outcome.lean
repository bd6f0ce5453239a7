import Recurrence.Proofs.Rule.Refusal
import Recurrence.Proofs.Rule.Verdict

namespace Recurrence

/-- The parameters that give days from which BYSETPOS selects. -/
def Param.companions : List Param := [.byDay, .byMonthDay, .byMonth, .byWeekNo]

namespace Setting

variable {s : Setting}

theorem Fits.isInDomain (h : s.Fits) : s.IsInDomain := by
  cases s with
  | freq | bound => exact List.forall_mem_nil _
  | interval n | count n => exact List.forall_mem_singleton.2 h
  | byMonth l | byWeekNo l | byMonthDay l | bySetPos l => exact h.forall_mem
  | byDay l =>
    intro n hn
    obtain ⟨day, hday, hn⟩ := List.mem_filterMap.1 hn
    exact h.forall_mem day hday n hn

theorem Fits.isFilled_iff (h : s.Fits) :
    s.IsFilled ↔ s.param = .bySetPos ∨ s.param ∈ Param.companions := by
  cases s with
  | freq | interval | count | bound => exact iff_of_false id (by simp [param, Param.companions])
  | byMonth l | byWeekNo l | byMonthDay l | byDay l | bySetPos l =>
    exact iff_of_true h.ne_nil (by simp [param, Param.companions])

end Setting

namespace Part

/-- The part has the name of a parameter and a value that is read for it. -/
def Reads (p : Part) (s : Setting) : Prop :=
  ∃ param, Param.ofName? p.key = some param ∧ Setting.read param p.value = .ok s

inductive Fails (p : Part) : RuleError → Prop
  | name : Param.ofName? p.key = none → Fails p (.unknownParam p.key p.name.span)
  | value {param : Param} {e : RuleError} : Param.ofName? p.key = some param →
      Setting.read param p.value = .error e → Fails p e

variable {p : Part} {s : Setting} {e : RuleError}

theorem setting_eq_ok_iff : p.setting = .ok s ↔ p.Reads s := by
  rw [setting, Reads]
  split
  next param hparam => simp [hparam]
  next hparam => simp [hparam]

theorem setting_eq_error_iff : p.setting = .error e ↔ p.Fails e := by
  constructor
  · intro h
    rw [setting] at h
    split at h
    next param hparam => exact .value hparam h
    next hparam =>
      cases h
      exact .name hparam
  · intro h
    cases h with
    | name hnone => rw [setting, hnone]
    | value hparam hread =>
      rw [setting, hparam]
      exact hread

end Part

namespace Draft

section

variable {d : Draft} (h : ∀ s ∈ d.settings, s.Fits)

include h

theorem map_withoutRepeats_setting? (p : Param) :
    (d.setting? p).map Setting.withoutRepeats = d.setting? p := by
  cases hs : d.setting? p with
  | none => rfl
  | some s => exact congrArg some (Setting.withoutRepeats_eq_self (h s (of_setting?_eq_some hs).1))

theorem withoutRepeats_data_eq_self (f : Frequency) : (d.data f).withoutRepeats = d.data f := by
  refine RuleData.ext_setting? fun p ↦ ?_
  by_cases hp : p = .freq
  · rw [hp]
    rfl
  · rw [RuleData.setting?_withoutRepeats, setting?_data f hp, Option.map_or,
      map_withoutRepeats_setting? h, Param.map_withoutRepeats_default?]

theorem isFilledIn_setting?_iff {p : Param} : p.IsFilledIn d.setting? ↔
    d.setting? p ≠ none ∧ (p = .bySetPos ∨ p ∈ Param.companions) := by
  constructor
  · rintro ⟨s, hs, hfilled⟩
    obtain ⟨hmem, rfl⟩ := of_setting?_eq_some hs
    exact ⟨by rw [hs]; nofun, (h s hmem).isFilled_iff.1 hfilled⟩
  · rintro ⟨hne, hp⟩
    obtain ⟨s, hs⟩ := Option.ne_none_iff_exists'.1 hne
    obtain ⟨hmem, rfl⟩ := of_setting?_eq_some hs
    exact ⟨s, hs, (h s hmem).isFilled_iff.2 hp⟩

theorem isInDomain_of_setting? (p : Param) (s : Setting) (hs : d.setting? p = some s) :
    s.IsInDomain :=
  (h s (of_setting?_eq_some hs).1).isInDomain

theorem build_of_lonePositions (hfreq : d.setting? .freq ≠ none)
    (hpositions : d.setting? .bySetPos ≠ none)
    (halone : ∀ p ∈ Param.companions, d.setting? p = none) : d.build = .error .lonePositions := by
  have hfilled := (isFilledIn_setting?_iff h).2 ⟨hpositions, .inl rfl⟩
  refine build_eq_error_iff.2 (.lone hfreq (isInDomain_of_setting? h) hfilled fun p hp hp' ↦ ?_)
  obtain ⟨hne, hlist⟩ := (isFilledIn_setting?_iff h).1 hp'
  exact hne (halone p (hlist.resolve_left hp))

theorem exists_build_of_companion (hfreq : d.setting? .freq ≠ none)
    (hcompanion : d.setting? .bySetPos ≠ none → ∃ p ∈ Param.companions, d.setting? p ≠ none) :
    ∃ r, d.build = .ok r ∧ ∀ p, r.setting? p = (d.setting? p).or p.default? := by
  have hfilled (hpositions : Param.bySetPos.IsFilledIn d.setting?) :
      ∃ p : Param, p ≠ .bySetPos ∧ p.IsFilledIn d.setting? := by
    obtain ⟨p, hp, hne⟩ := hcompanion ((isFilledIn_setting?_iff h).1 hpositions).1
    refine ⟨p, fun hsame ↦ ?_, (isFilledIn_setting?_iff h).2 ⟨hne, .inr hp⟩⟩
    rw [hsame] at hp
    exact absurd hp (by decide)
  obtain ⟨r, hr⟩ := exists_build_eq_ok_iff.2 ⟨hfreq, isInDomain_of_setting? h, hfilled⟩
  refine ⟨r, hr, fun p ↦ ?_⟩
  rw [says_of_build hr p, map_withoutRepeats_setting? h]

end

section Parts

variable {parts : List Part} (hdistinct : Part.Distinct parts)

include hdistinct

theorem exists_ofParts_of_reads (hreads : ∀ p ∈ parts, ∃ s, p.Reads s) :
    ∃ d, ofParts parts = .ok d := by
  cases hd : ofParts parts with
  | ok d => exact ⟨d, rfl⟩
  | error e =>
    obtain ⟨before, p, after, rfl, -, hp⟩ := exists_of_ofParts_eq_error hdistinct hd
    obtain ⟨s, hs⟩ := hreads p List.mem_append_cons_self
    cases hp.symm.trans (Part.setting_eq_ok_iff.2 hs)

theorem reads_or_fails : (∃ settings, List.Forall₂ Part.Reads parts settings) ∨
    ∃ before p after e, parts = before ++ p :: after ∧ (∀ q ∈ before, ∃ s, q.Reads s) ∧
      p.Fails e := by
  cases hd : ofParts parts with
  | ok d => exact .inl ⟨d.settings, (ofParts_eq_ok_iff.1 hd).imp fun _ _ ↦ Part.setting_eq_ok_iff.1⟩
  | error e =>
    obtain ⟨before, p, after, rfl, ⟨d, hbefore⟩, hp⟩ := exists_of_ofParts_eq_error hdistinct hd
    refine .inr ⟨before, p, after, e, rfl, fun q hq ↦ ?_, Part.setting_eq_error_iff.1 hp⟩
    obtain ⟨s, -, hs⟩ := exists_mem_of_forall₂ (ofParts_eq_ok_iff.1 hbefore).flip hq
    exact ⟨s, Part.setting_eq_ok_iff.1 hs⟩

theorem ofParts_of_forall₂ {settings : List Setting}
    (hreads : List.Forall₂ Part.Reads parts settings) :
    ∃ d, ofParts parts = .ok d ∧ d.settings = settings := by
  obtain ⟨d, hd⟩ := exists_ofParts_of_reads hdistinct fun p hp ↦ by
    obtain ⟨s, -, hs⟩ := exists_mem_of_forall₂ hreads.flip hp
    exact ⟨s, hs⟩
  refine ⟨d, hd, List.right_unique_forall₂' (fun p s t hs ht ↦ ?_) (ofParts_eq_ok_iff.1 hd)
    (hreads.imp fun _ _ ↦ Part.setting_eq_ok_iff.2)⟩
  exact Except.ok.inj (hs.symm.trans ht)

theorem ofParts_of_fails {before after : List Part} {p : Part} {e : RuleError}
    (hparts : parts = before ++ p :: after) (hbefore : ∀ q ∈ before, ∃ s, q.Reads s)
    (hp : p.Fails e) : ofParts parts = .error e := by
  subst hparts
  obtain ⟨d, hd⟩ := exists_ofParts_of_reads (List.pairwise_append.1 hdistinct).1 hbefore
  exact foldlM_eq_error_iff.2 ⟨before, p, after, d, rfl, hd,
    bind_eq_error_iff.2 (.inl (Part.setting_eq_error_iff.2 hp))⟩

end Parts

end Draft

namespace Rule

/-- What is refused of a text is the first of its pieces that is no part of its own, or else the
first of its parts that is not read. Of parts that are read a draft refuses neither a parameter nor
a value, and no value is repeated; there is no rule if there is no frequency or if BYSETPOS has no
companion, and otherwise the rule has what was read, or the defaults. -/
theorem parse_outcome (text : String) :
    (∀ e, Part.scan text = .error e → parse text = .error e) ∧
      ∀ parts, Part.scan text = .ok parts →
        ((∃ settings, List.Forall₂ Part.Reads parts settings) ∨
          ∃ before p after e, parts = before ++ p :: after ∧ (∀ q ∈ before, ∃ s, q.Reads s) ∧
            p.Fails e) ∧
        (∀ before p after e, parts = before ++ p :: after → (∀ q ∈ before, ∃ s, q.Reads s) →
          p.Fails e → parse text = .error e) ∧
        ∀ settings, List.Forall₂ Part.Reads parts settings →
          (∃ d, Draft.ofParts parts = .ok d ∧ d.settings = settings ∧
            ∀ f, (d.data f).outside? = none ∧ (d.data f).withoutRepeats = d.data f) ∧
          let named := settings.map Setting.param
          (.freq ∉ named → parse text = .error (.absentParam .freq)) ∧
          (.freq ∈ named → .bySetPos ∈ named → (∀ p ∈ Param.companions, p ∉ named) →
            parse text = .error .lonePositions) ∧
          (.freq ∈ named → (.bySetPos ∈ named → ∃ p ∈ Param.companions, p ∈ named) →
            ∃ r, parse text = .ok r ∧
              ∀ p, r.setting? p = (settings.find? fun s ↦ s.param = p).or p.default?) := by
  refine ⟨fun e he ↦ bind_eq_error_iff.2 (.inl he), fun parts hparts ↦ ?_⟩
  obtain ⟨-, hdistinct⟩ := Part.scan_eq_ok_iff.1 hparts
  have hparse : parse text = Draft.ofParts parts >>= Draft.build := by
    rw [parse, hparts]
    rfl
  refine ⟨Draft.reads_or_fails hdistinct, fun before p after e happend hbefore hp ↦ ?_,
    fun settings hreads ↦ ?_⟩
  · rw [hparse, Draft.ofParts_of_fails hdistinct happend hbefore hp]
    rfl
  · obtain ⟨d, hd, rfl⟩ := Draft.ofParts_of_forall₂ hdistinct hreads
    have hfits (s : Setting) (hs : s ∈ d.settings) : s.Fits := by
      obtain ⟨p, -, hp⟩ := exists_mem_of_forall₂ hreads hs
      exact Part.fits_of_setting (Part.setting_eq_ok_iff.2 hp)
    have hchecked (f : Frequency) :
        (d.data f).outside? = none ∧ (d.data f).withoutRepeats = d.data f := by
      have hself := Draft.withoutRepeats_data_eq_self hfits f
      exact ⟨hself ▸ Draft.outside?_data_eq_none hfits f, hself⟩
    have hbuild : parse text = d.build := by
      rw [hparse, hd]
      rfl
    have hnamed (p : Param) : p ∈ d.settings.map Setting.param ↔ d.setting? p ≠ none := by
      rw [List.mem_map, Draft.setting?_ne_none_iff]
    refine ⟨⟨d, hd, rfl, hchecked⟩, ?_⟩
    simp only [hnamed, hbuild, not_not]
    exact ⟨fun hfreq ↦ Draft.build_eq_error_iff.2 (.absent hfreq),
      Draft.build_of_lonePositions hfits, Draft.exists_build_of_companion hfits⟩

/-- The first workday of every month, and texts that lack its companion, its frequency and a
parameter of its own. -/
theorem parse_outcome_firstWorkday :
    (∃ r, parse "BYSETPOS=1;BYDAY=MO,TU,MO;FREQ=MONTHLY" = .ok r ∧ r.interval = 1 ∧
      r.byDay = [⟨none, .monday⟩, ⟨none, .tuesday⟩]) ∧
    parse "FREQ=MONTHLY;BYSETPOS=1" = .error .lonePositions ∧
    parse "BYSETPOS=1" = .error (.absentParam .freq) ∧
    parse "FREQ=MONTHLY;FROM=2;INTERVAL=0" = .error (.unknownParam "FROM" ⟨13, 17⟩) ∧
    parse "FREQ" = .error (.missingEquals "FREQ" ⟨0, 4⟩) := by
  let positions : Setting := .bySetPos [1]
  let days : Setting := .byDay [⟨none, .monday⟩, ⟨none, .tuesday⟩]
  refine ⟨?_, ?_, ?_, ?_, (parse_outcome "FREQ").1 _ rfl⟩
  · obtain ⟨-, -, hread⟩ := (parse_outcome "BYSETPOS=1;BYDAY=MO,TU,MO;FREQ=MONTHLY").2 _ rfl
    obtain ⟨-, -, -, hrule⟩ := hread [positions, days, .freq .monthly]
      (.cons ⟨_, rfl, rfl⟩ (.cons ⟨_, rfl, rfl⟩ (.cons ⟨_, rfl, rfl⟩ .nil)))
    obtain ⟨r, hr, hhas⟩ := hrule (by decide) fun _ ↦ ⟨.byDay, by decide, by decide⟩
    exact ⟨r, hr, Setting.interval.inj (Option.some.inj (hhas .interval)),
      Setting.byDay.inj (Option.some.inj (hhas .byDay))⟩
  · obtain ⟨-, -, hread⟩ := (parse_outcome "FREQ=MONTHLY;BYSETPOS=1").2 _ rfl
    obtain ⟨-, -, hlone, -⟩ := hread [.freq .monthly, positions]
      (.cons ⟨_, rfl, rfl⟩ (.cons ⟨_, rfl, rfl⟩ .nil))
    exact hlone (by decide) (by decide) (by decide)
  · obtain ⟨-, -, hread⟩ := (parse_outcome "BYSETPOS=1").2 _ rfl
    obtain ⟨-, habsent, -⟩ := hread [positions] (.cons ⟨_, rfl, rfl⟩ .nil)
    exact habsent (by decide)
  · obtain ⟨-, hfails, -⟩ := (parse_outcome "FREQ=MONTHLY;FROM=2;INTERVAL=0").2 _ rfl
    refine hfails [_] _ [_] _ rfl (List.forall_mem_singleton.2 ?_) (.name rfl)
    exact ⟨.freq .monthly, .freq, rfl, rfl⟩

end Rule

end Recurrence
