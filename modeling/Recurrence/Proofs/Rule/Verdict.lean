import Recurrence.Proofs.Rule.Draft

namespace Recurrence

theorem find?_eraseDups {α : Type} [BEq α] [LawfulBEq α] (p : α → Bool) (as : List α) :
    as.eraseDups.find? p = as.find? p := by
  match as with
  | [] => rfl
  | a :: as =>
    rw [List.eraseDups_cons]
    by_cases ha : p a = true
    · rw [List.find?_cons_of_pos ha, List.find?_cons_of_pos ha]
    · rw [List.find?_cons_of_neg ha, List.find?_cons_of_neg ha, find?_eraseDups p _,
        List.find?_filter]
      refine congrArg (List.find? · as) (funext fun b ↦ ?_)
      by_cases hb : b = a
      · simp [hb, ha]
      · simp [hb]
termination_by as.length
decreasing_by exact Nat.lt_succ_of_le (List.length_filter_le _ _)

namespace Setting

def numbers : Setting → List Int
  | freq _ | bound _ => []
  | interval n | count n => [(n : Int)]
  | byMonth l | byWeekNo l | byMonthDay l | bySetPos l => l
  | byDay l => l.filterMap WeekdayNum.ordinal

def IsInDomain (s : Setting) : Prop := ∀ n ∈ s.numbers, s.param.numberDomain.Contains n

instance (s : Setting) : Decidable s.IsInDomain := inferInstanceAs (Decidable (∀ n ∈ _, _))

def IsFilled : Setting → Prop
  | byMonth l | byWeekNo l | byMonthDay l | bySetPos l => l ≠ []
  | byDay l => l ≠ []
  | freq _ | interval _ | count _ | bound _ => False

/-- Of values that are the same the first stays in a list. -/
def withoutRepeats : Setting → Setting
  | byMonth l => byMonth l.eraseDups
  | byWeekNo l => byWeekNo l.eraseDups
  | byMonthDay l => byMonthDay l.eraseDups
  | byDay l => byDay l.eraseDups
  | bySetPos l => bySetPos l.eraseDups
  | s => s

def outside? (s : Setting) : Option RuleError :=
  RuleError.outside? s.param s.param.numberDomain s.numbers

variable {s : Setting}

theorem outside?_eq_none_iff : s.outside? = none ↔ s.IsInDomain :=
  RuleError.outside?_eq_none_iff

theorem outside?_eq_some_iff {e : RuleError} : s.outside? = some e ↔
    ∃ before n after, s.numbers = before ++ n :: after ∧
      (∀ m ∈ before, s.param.numberDomain.Contains m) ∧ ¬ s.param.numberDomain.Contains n ∧
      e = .badInteger s.param s.param.numberDomain (String.ofList (Decimal.ofInt n)) ⟨0, 0⟩ := by
  simp only [outside?, RuleError.outside?, Option.map_eq_some_iff, List.find?_eq_some_iff_append,
    decide_eq_true_eq, Bool.not_eq_true', decide_eq_false_iff_not, not_not]
  constructor
  · rintro ⟨n, ⟨hn, before, after, hnumbers, hbefore⟩, rfl⟩
    exact ⟨before, n, after, hnumbers, hbefore, hn, rfl⟩
  · rintro ⟨before, n, after, hnumbers, hbefore, hn, rfl⟩
    exact ⟨n, ⟨hn, before, after, hnumbers, hbefore⟩, rfl⟩

@[simp]
theorem outside?_withoutRepeats (s : Setting) : s.withoutRepeats.outside? = s.outside? := by
  cases s with
  | freq | interval | count | bound => rfl
  | byMonth l | byWeekNo l | byMonthDay l | bySetPos l =>
    exact congrArg (Option.map _) (find?_eraseDups _ l)
  | byDay l =>
    refine congrArg (Option.map _) ?_
    simp only [numbers, withoutRepeats, List.find?_filterMap, find?_eraseDups]
    rfl

@[simp]
theorem isFilled_withoutRepeats : s.withoutRepeats.IsFilled ↔ s.IsFilled := by
  have heraseDups {α : Type} [BEq α] {l : List α} : l.eraseDups ≠ [] ↔ l ≠ [] :=
    ⟨fun h hnil ↦ h (by rw [hnil]; rfl), eraseDups_ne_nil⟩
  cases s with
  | freq | interval | count | bound => exact Iff.rfl
  | byMonth l | byWeekNo l | byMonthDay l | bySetPos l | byDay l => exact heraseDups

theorem withoutRepeats_eq_self (h : s.Fits) : s.withoutRepeats = s := by
  cases s with
  | freq | interval | count | bound => rfl
  | byMonth l | byWeekNo l | byMonthDay l | bySetPos l | byDay l =>
    exact congrArg _ (eraseDups_eq_self h.nodup)

end Setting

/-- What holds for a parameter that is not set. A rule may go without a count and without an end. -/
def Param.default? : Param → Option Setting
  | interval => some (.interval 1)
  | byMonth => some (.byMonth [])
  | byWeekNo => some (.byWeekNo [])
  | byMonthDay => some (.byMonthDay [])
  | byDay => some (.byDay [])
  | bySetPos => some (.bySetPos [])
  | freq | count | bound => none

@[simp]
theorem Param.map_withoutRepeats_default? (p : Param) :
    p.default?.map Setting.withoutRepeats = p.default? := by
  cases p <;> rfl

def Param.IsFilledIn (p : Param) (said : Param → Option Setting) : Prop :=
  ∃ s, said p = some s ∧ s.IsFilled

/-- Why nothing is made of what is said for each parameter. -/
inductive RuleError.Refuses (said : Param → Option Setting) : RuleError → Prop
  | absent : said .freq = none → Refuses said (.absentParam .freq)
  /-- The first number outside its domain, after parameters whose numbers lie in theirs. -/
  | outside {earlier later : List Param} {p : Param} {s : Setting} {before after : List Int}
      {n : Int} : said .freq ≠ none → Param.all = earlier ++ p :: later →
      (∀ q ∈ earlier, ∀ t, said q = some t → t.IsInDomain) → said p = some s →
      s.numbers = before ++ n :: after → (∀ m ∈ before, s.param.numberDomain.Contains m) →
      ¬ s.param.numberDomain.Contains n → Refuses said
        (.badInteger s.param s.param.numberDomain (String.ofList (Decimal.ofInt n)) ⟨0, 0⟩)
  | lone : said .freq ≠ none → (∀ p s, said p = some s → s.IsInDomain) →
      Param.bySetPos.IsFilledIn said →
      (∀ p : Param, p ≠ .bySetPos → ¬ p.IsFilledIn said) → Refuses said .lonePositions

namespace RuleData

def setting? (r : RuleData) : Param → Option Setting
  | .freq => some (.freq r.freq)
  | .interval => some (.interval r.interval)
  | .count => r.count.map .count
  | .bound => r.bound.map .bound
  | .byMonth => some (.byMonth r.byMonth)
  | .byWeekNo => some (.byWeekNo r.byWeekNo)
  | .byMonthDay => some (.byMonthDay r.byMonthDay)
  | .byDay => some (.byDay r.byDay)
  | .bySetPos => some (.bySetPos r.bySetPos)

/-- The rule has what is said, without repeats, and where nothing is said the defaults. -/
def Says (r : RuleData) (said : Param → Option Setting) : Prop :=
  ∀ p, r.setting? p = ((said p).map Setting.withoutRepeats).or p.default?

variable {r r' : RuleData} {said : Param → Option Setting}

theorem ext_setting? (h : ∀ p, r.setting? p = r'.setting? p) : r = r' := by
  have hcount : r.count = r'.count := Option.map_injective (fun _ _ ↦ Setting.count.inj) (h .count)
  have hbound : r.bound = r'.bound := Option.map_injective (fun _ _ ↦ Setting.bound.inj) (h .bound)
  cases r
  cases r'
  rw [mk.injEq]
  exact ⟨by simpa [setting?] using h .freq, by simpa [setting?] using h .interval, hcount, hbound,
    by simpa [setting?] using h .byMonth, by simpa [setting?] using h .byWeekNo,
    by simpa [setting?] using h .byMonthDay, by simpa [setting?] using h .byDay,
    by simpa [setting?] using h .bySetPos⟩

theorem setting?_withoutRepeats (r : RuleData) (p : Param) :
    r.withoutRepeats.setting? p = (r.setting? p).map Setting.withoutRepeats := by
  cases p with
  | count => cases h : r.count <;> simp [setting?, withoutRepeats, h, Setting.withoutRepeats]
  | bound => cases h : r.bound <;> simp [setting?, withoutRepeats, h, Setting.withoutRepeats]
  | freq | interval | byMonth | byWeekNo | byMonthDay | byDay | bySetPos => rfl

theorem outside?_eq_findSome? (r : RuleData) :
    r.outside? = Param.all.findSome? fun p ↦ (r.setting? p).bind Setting.outside? := by
  have hcons {f : Param → Option RuleError} {p : Param} {l : List Param} :
      (p :: l).findSome? f = (f p).or (l.findSome? f) := by
    rw [List.findSome?_cons]
    cases f p <;> rfl
  have hcount : (r.setting? .count).bind Setting.outside? =
      RuleError.outside? .count Param.count.domain (r.count.toList.map Int.ofNat) := by
    rw [setting?]
    cases r.count <;> rfl
  have hbound : (r.setting? .bound).bind Setting.outside? = none := by
    rw [setting?]
    cases r.bound <;> rfl
  have hfreq : (r.setting? .freq).bind Setting.outside? = none := rfl
  simp only [Param.all, hcons, hfreq, hcount, hbound, List.findSome?_nil, Option.or_none,
    Option.none_or, outside?, Option.orElse_eq_orElse, Option.orElse_eq_or]
  rfl

theorem hasLonePositions_iff_isFilledIn : r.HasLonePositions ↔
    Param.bySetPos.IsFilledIn r.setting? ∧
      ∀ p : Param, p ≠ .bySetPos → ¬ p.IsFilledIn r.setting? := by
  constructor
  · rintro ⟨hne, hmonth, hweek, hmonthDay, hday⟩
    refine ⟨⟨_, rfl, hne⟩, fun p hp ⟨s, hs, hfilled⟩ ↦ ?_⟩
    cases p with
    | freq | interval => cases hs; exact hfilled
    | count | bound =>
      obtain ⟨_, -, rfl⟩ := Option.map_eq_some_iff.1 hs
      exact hfilled
    | byMonth => cases hs; exact hfilled hmonth
    | byWeekNo => cases hs; exact hfilled hweek
    | byMonthDay => cases hs; exact hfilled hmonthDay
    | byDay => cases hs; exact hfilled hday
    | bySetPos => exact hp rfl
  · rintro ⟨⟨_, ⟨⟩, hne⟩, h⟩
    have hnil (p : Param) (s : Setting) (hp : p ≠ .bySetPos) (hs : r.setting? p = some s) :
        ¬ s.IsFilled := fun hfilled ↦ h p hp ⟨s, hs, hfilled⟩
    exact ⟨hne, not_not.1 (hnil .byMonth _ nofun rfl), not_not.1 (hnil .byWeekNo _ nofun rfl),
      not_not.1 (hnil .byMonthDay _ nofun rfl), not_not.1 (hnil .byDay _ nofun rfl)⟩

namespace Says

variable (h : r.Says said)

include h

theorem outside?_eq : r.outside? = Param.all.findSome? fun p ↦ (said p).bind Setting.outside? := by
  rw [outside?_eq_findSome?]
  refine congrArg (List.findSome? · Param.all) (funext fun p ↦ ?_)
  rw [h p]
  cases said p with
  | none => cases p <;> rfl
  | some s => exact s.outside?_withoutRepeats

theorem isFilledIn_iff (p : Param) : p.IsFilledIn r.setting? ↔ p.IsFilledIn said := by
  rw [Param.IsFilledIn, Param.IsFilledIn, h p]
  cases said p with
  | none => cases p <;> simp [Param.default?, Setting.IsFilled]
  | some s => simp

theorem hasLonePositions_iff : r.HasLonePositions ↔
    Param.bySetPos.IsFilledIn said ∧ ∀ p : Param, p ≠ .bySetPos → ¬ p.IsFilledIn said := by
  simp only [hasLonePositions_iff_isFilledIn, h.isFilledIn_iff]

theorem outside?_eq_none_iff : r.outside? = none ↔ ∀ p s, said p = some s → s.IsInDomain := by
  rw [h.outside?_eq, List.findSome?_eq_none_iff]
  constructor
  · intro hall p s hs
    have hp := hall p p.mem_all
    rw [hs] at hp
    exact Setting.outside?_eq_none_iff.1 hp
  · intro hall p _
    cases hs : said p with
    | none => rfl
    | some s => exact Setting.outside?_eq_none_iff.2 (hall p s hs)

theorem fault?_eq_some_iff {e : RuleError} (hfreq : said .freq ≠ none) :
    r.fault? = some e ↔ e.Refuses said := by
  rw [fault?, Option.orElse_eq_orElse, Option.orElse_eq_or, Option.or_eq_some_iff,
    h.outside?_eq_none_iff, h.outside?_eq, List.findSome?_eq_some_iff]
  constructor
  · rintro (⟨earlier, p, later, hall, hp, hearlier⟩ | ⟨hdomain, hlone⟩)
    · obtain ⟨s, hs, hout⟩ := Option.bind_eq_some_iff.1 hp
      obtain ⟨before, n, after, hnumbers, hbefore, hn, rfl⟩ := Setting.outside?_eq_some_iff.1 hout
      refine .outside hfreq hall (fun q hq t ht ↦ ?_) hs hnumbers hbefore hn
      have hnone := hearlier q hq
      rw [ht] at hnone
      exact Setting.outside?_eq_none_iff.1 hnone
    · split at hlone
      next hpositions =>
        cases hlone
        obtain ⟨hfilled, hothers⟩ := h.hasLonePositions_iff.1 hpositions
        exact .lone hfreq hdomain hfilled hothers
      next => cases hlone
  · intro hrefuses
    cases hrefuses with
    | absent hnone => exact absurd hnone hfreq
    | @outside earlier later p s before after n _ hall hearlier hs hnumbers hbefore hn =>
      refine .inl ⟨earlier, p, later, hall, ?_, fun q hq ↦ ?_⟩
      · rw [hs]
        exact Setting.outside?_eq_some_iff.2 ⟨before, n, after, hnumbers, hbefore, hn, rfl⟩
      · cases ht : said q with
        | none => rfl
        | some t => exact Setting.outside?_eq_none_iff.2 (hearlier q hq t ht)
    | lone _ hdomain hfilled hothers =>
      exact .inr ⟨hdomain, if_pos (h.hasLonePositions_iff.2 ⟨hfilled, hothers⟩)⟩

end Says

end RuleData

namespace Draft

def setting? (d : Draft) (p : Param) : Option Setting := d.settings.find? fun s ↦ s.param = p

variable {d d' : Draft} {r : Rule} {e : RuleError}

theorem setting?_ne_none_iff {p : Param} :
    d.setting? p ≠ none ↔ ∃ s ∈ d.settings, s.param = p := by
  simp [setting?]

theorem of_setting?_eq_some {p : Param} {s : Setting} (h : d.setting? p = some s) :
    s ∈ d.settings ∧ s.param = p := by
  have hparam := List.find?_some h
  exact ⟨List.mem_of_find?_eq_some h, by simpa using hparam⟩

theorem setting?_eq_map {α : Type} (p : Param) (g : Setting → Option α) (make : α → Setting)
    (h : ∀ s, Option.guard (fun s ↦ decide (s.param = p)) s = (g s).map make) :
    d.setting? p = (d.settings.findSome? g).map make := by
  rw [setting?, ← List.findSome?_guard, List.map_findSome?]
  exact congrArg (List.findSome? · d.settings) (funext h)

theorem setting?_freq : d.setting? .freq = (d.settings.findSome? Setting.freq?).map .freq :=
  setting?_eq_map .freq Setting.freq? .freq fun s ↦ by cases s <;> rfl

theorem setting?_data (f : Frequency) {p : Param} (hp : p ≠ .freq) :
    (d.data f).setting? p = (d.setting? p).or p.default? := by
  have hgetD {α : Type} (p : Param) (g : Setting → Option α) (make : α → Setting) (default : α)
      (h : ∀ s, Option.guard (fun s ↦ decide (s.param = p)) s = (g s).map make) :
      some (make ((d.settings.findSome? g).getD default)) =
        (d.setting? p).or (some (make default)) := by
    rw [setting?_eq_map p g make h]
    cases d.settings.findSome? g <;> rfl
  cases p with
  | freq => exact absurd rfl hp
  | count =>
    rw [d.setting?_eq_map .count Setting.count? .count fun s ↦ by cases s <;> rfl]
    exact Option.or_none.symm
  | bound =>
    rw [d.setting?_eq_map .bound Setting.bound? .bound fun s ↦ by cases s <;> rfl]
    exact Option.or_none.symm
  | interval => exact hgetD .interval Setting.interval? .interval 1 fun s ↦ by cases s <;> rfl
  | byMonth => exact hgetD .byMonth Setting.byMonth? .byMonth [] fun s ↦ by cases s <;> rfl
  | byWeekNo => exact hgetD .byWeekNo Setting.byWeekNo? .byWeekNo [] fun s ↦ by cases s <;> rfl
  | byMonthDay =>
    exact hgetD .byMonthDay Setting.byMonthDay? .byMonthDay [] fun s ↦ by cases s <;> rfl
  | byDay => exact hgetD .byDay Setting.byDay? .byDay [] fun s ↦ by cases s <;> rfl
  | bySetPos => exact hgetD .bySetPos Setting.bySetPos? .bySetPos [] fun s ↦ by cases s <;> rfl

theorem says_withoutRepeats_data {f : Frequency} (hf : d.setting? .freq = some (.freq f)) :
    (d.data f).withoutRepeats.Says d.setting? := by
  intro p
  by_cases hp : p = .freq
  · rw [hp, hf]
    rfl
  · rw [RuleData.setting?_withoutRepeats, setting?_data f hp, Option.map_or,
      Param.map_withoutRepeats_default?]

theorem says_of_build (h : d.build = .ok r) : r.Says d.setting? := by
  obtain ⟨f, hf, hdata⟩ := build_eq_ok_iff.1 h
  rw [← hdata]
  exact says_withoutRepeats_data (by rw [setting?_freq, hf]; rfl)

theorem build_eq_error_iff : d.build = .error e ↔ e.Refuses d.setting? := by
  rw [build]
  cases hfind : d.settings.findSome? Setting.freq? with
  | none =>
    have hnone : d.setting? .freq = none := by rw [setting?_freq, hfind]; rfl
    constructor
    · rintro ⟨⟩
      exact .absent hnone
    · intro hrefuses
      cases hrefuses with
      | absent => rfl
      | outside hfreq | lone hfreq => exact absurd hnone hfreq
  | some f =>
    have hf : d.setting? .freq = some (.freq f) := by rw [setting?_freq, hfind]; rfl
    have hfreq : d.setting? .freq ≠ none := by
      rw [hf]
      exact Option.some_ne_none _
    rw [← (says_withoutRepeats_data hf).fault?_eq_some_iff hfreq]
    dsimp only
    split
    next fault hfault => rw [hfault, Except.error.injEq, Option.some.injEq]
    next hnone =>
      refine iff_of_false (by rintro ⟨⟩) fun hfault ↦ ?_
      rw [hnone] at hfault
      cases hfault

theorem build_congr (h : d.setting? = d'.setting?) : d.build = d'.build := by
  cases hbuild : d.build with
  | error e =>
    rw [build_eq_error_iff, h] at hbuild
    exact (build_eq_error_iff.2 hbuild).symm
  | ok r =>
    cases hbuild' : d'.build with
    | error e =>
      rw [build_eq_error_iff, ← h, ← build_eq_error_iff, hbuild] at hbuild'
      cases hbuild'
    | ok r' =>
      have hdata : r.toRuleData = r'.toRuleData := by
        refine RuleData.ext_setting? fun p ↦ ?_
        rw [says_of_build hbuild p, says_of_build hbuild' p, h]
      cases r
      cases r'
      congr

theorem exists_build_eq_ok_iff : (∃ r, d.build = .ok r) ↔
    d.setting? .freq ≠ none ∧ (∀ p s, d.setting? p = some s → s.IsInDomain) ∧
      (Param.bySetPos.IsFilledIn d.setting? →
        ∃ p : Param, p ≠ .bySetPos ∧ p.IsFilledIn d.setting?) := by
  constructor
  · rintro ⟨r, hbuild⟩
    have hnot (e : RuleError) : ¬ e.Refuses d.setting? := by
      rw [← build_eq_error_iff, hbuild]
      nofun
    have hfreq : d.setting? .freq ≠ none := fun hnone ↦ hnot _ (.absent hnone)
    have hdomain : ∀ p s, d.setting? p = some s → s.IsInDomain := by
      have hvalid := RuleData.fault?_eq_none r.valid
      rw [RuleData.fault?, Option.orElse_eq_orElse, Option.orElse_eq_or,
        Option.or_eq_none_iff] at hvalid
      exact (says_of_build hbuild).outside?_eq_none_iff.1 hvalid.1
    refine ⟨hfreq, hdomain, fun hfilled ↦ ?_⟩
    by_contra hnone
    exact hnot _ (.lone hfreq hdomain hfilled fun p hp hp' ↦ hnone ⟨p, hp, hp'⟩)
  · rintro ⟨hfreq, hdomain, hcompanion⟩
    cases hbuild : d.build with
    | ok r => exact ⟨r, rfl⟩
    | error e =>
      cases build_eq_error_iff.1 hbuild with
      | absent hnone => exact absurd hnone hfreq
      | outside _ _ _ hs hnumbers _ hn =>
        exact absurd (hdomain _ _ hs _ (hnumbers ▸ List.mem_append_cons_self)) hn
      | lone _ _ hfilled hothers =>
        obtain ⟨p, hp, hp'⟩ := hcompanion hfilled
        exact absurd hp' (hothers p hp)

end Draft

end Recurrence
