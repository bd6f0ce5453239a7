import Recurrence.Proofs.Rule.Verdict

namespace Recurrence.Draft

inductive Call
  | push (s : Setting)
  /-- Of a copy of the draft. -/
  | build

inductive Answer
  | pushed (refusal : Option RuleError)
  | built (result : Except RuleError Rule)

namespace Call

def setting? : Call → Option Setting
  | push s => some s
  | build => none

/-- The setting that is pushed first for each parameter. -/
def first (calls : List Call) (p : Param) : Option Setting :=
  (calls.filterMap setting?).find? fun s ↦ s.param = p

theorem first_append (calls later : List Call) (p : Param) :
    first (calls ++ later) p = (first calls p).or (first later p) := by
  rw [first, List.filterMap_append, List.find?_append]
  rfl

theorem or_first_push {said : Param → Option Setting} {s : Setting} (h : said s.param ≠ none)
    (p : Param) : (said p).or (first [.push s] p) = said p := by
  by_cases hp : s.param = p
  · obtain ⟨t, ht⟩ := Option.ne_none_iff_exists'.1 h
    rw [← hp, ht]
    rfl
  · have hnone : first [.push s] p = none := List.find?_cons_of_neg (by simpa using hp)
    rw [hnone, Option.or_none]

end Call

/-- The answer to a call and the draft after it, which is the same if a setting is refused. -/
def call (d : Draft) : Call → Answer × Draft
  | .push s =>
    match d.push s with
    | .ok d' => (.pushed none, d')
    | .error e => (.pushed (some e), d)
  | .build => (.built d.build, d)

def after (d : Draft) (calls : List Call) : Draft := calls.foldl (fun d c ↦ (d.call c).2) d

def answers (d : Draft) : List Call → List Answer
  | [] => []
  | c :: calls => (d.call c).1 :: (d.call c).2.answers calls

variable {d d' : Draft} {s : Setting} {e : RuleError}

theorem push_eq_error_iff : d.push s = .error e ↔
    d.setting? s.param ≠ none ∧ e = .repeatedParam s.param.name none := by
  rw [setting?_ne_none_iff, push]
  split
  next h =>
    rw [Except.error.injEq]
    exact ⟨fun he ↦ ⟨h, he.symm⟩, fun he ↦ he.2.symm⟩
  next h => exact iff_of_false (by rintro ⟨⟩) fun he ↦ h he.1

theorem setting?_call (d : Draft) (c : Call) (p : Param) :
    (d.call c).2.setting? p = (d.setting? p).or (Call.first [c] p) := by
  cases c with
  | build => exact Option.or_none.symm
  | push s =>
    rw [call]
    split
    next d' hpush =>
      rw [setting?, push_eq_ok_iff.1 hpush, List.find?_append]
      rfl
    next e hpush => exact (Call.or_first_push (push_eq_error_iff.1 hpush).1 p).symm

theorem setting?_after (d : Draft) (calls : List Call) (p : Param) :
    (d.after calls).setting? p = (d.setting? p).or (Call.first calls p) := by
  induction calls generalizing d with
  | nil => exact Option.or_none.symm
  | cons c calls ih =>
    rw [← List.singleton_append, Call.first_append, ← Option.or_assoc, ← setting?_call]
    exact ih (d.call c).2

theorem setting?_after_empty (calls : List Call) :
    (empty.after calls).setting? = Call.first calls :=
  funext fun p ↦ setting?_after empty calls p

theorem answer_push (d : Draft) (s : Setting) : (d.call (.push s)).1 = .pushed
    (if d.setting? s.param = none then none else some (.repeatedParam s.param.name none)) := by
  rw [call]
  split
  next d' hpush =>
    have hnone : d.setting? s.param = none := by
      by_contra hne
      cases hpush.symm.trans (push_eq_error_iff.2 ⟨hne, rfl⟩)
    rw [if_pos hnone]
  next e hpush =>
    obtain ⟨hne, rfl⟩ := push_eq_error_iff.1 hpush
    rw [if_neg hne]

theorem answer_congr (h : d.setting? = d'.setting?) (c : Call) : (d.call c).1 = (d'.call c).1 := by
  cases c with
  | build => exact congrArg Answer.built (build_congr h)
  | push s => rw [answer_push, answer_push, h]

/-- All that is asked of a draft is what it has for each parameter. -/
theorem answers_congr (h : d.setting? = d'.setting?) (calls : List Call) :
    d.answers calls = d'.answers calls := by
  induction calls generalizing d d' with
  | nil => rfl
  | cons c calls ih =>
    have hnext : (d.call c).2.setting? = (d'.call c).2.setting? := by
      funext p
      rw [setting?_call, setting?_call, h]
    rw [answers, answers, answer_congr h, ih hnext]

/-- After any calls on an empty draft a setting is refused exactly if one of its parameter was
pushed before. What is answered then and later depends on the settings pushed first alone: not on
their order, nor on refused settings and on rules that were built. A rule is built of them if
they have a frequency, their numbers lie in their domains, and BYSETPOS is not alone; it says what
they say. Otherwise their first fault is the error. -/
theorem answers_after (calls : List Call) :
    let d := empty.after calls
    let first := Call.first calls
    (∀ s, (d.call (.push s)).1 = .pushed
      (if first s.param = none then none else some (.repeatedParam s.param.name none))) ∧
    (∀ s later, first s.param ≠ none →
      (empty.after (calls ++ [.push s])).answers later = d.answers later) ∧
    (∀ later, (empty.after (calls ++ [.build])).answers later = d.answers later) ∧
    (∀ calls', Call.first calls' = first → ∀ later,
      (empty.after calls').answers later = d.answers later) ∧
    ((∃ r, d.build = .ok r) ↔ first .freq ≠ none ∧ (∀ p s, first p = some s → s.IsInDomain) ∧
      (Param.bySetPos.IsFilledIn first → ∃ p : Param, p ≠ .bySetPos ∧ p.IsFilledIn first)) ∧
    (∀ e, d.build = .error e ↔ e.Refuses first) ∧
    ∀ r, d.build = .ok r → 1 ≤ r.interval ∧ r.Says first := by
  intro d first
  have hd : d.setting? = first := setting?_after_empty calls
  have hsame (calls' : List Call) (h : Call.first calls' = first) (later : List Call) :
      (empty.after calls').answers later = d.answers later :=
    answers_congr ((setting?_after_empty calls').trans (h.trans hd.symm)) later
  rw [← hd] at hsame ⊢
  refine ⟨answer_push d, fun s later hne ↦ hsame _ ?_ later, hsame _ ?_, hsame,
    exists_build_eq_ok_iff, fun e ↦ build_eq_error_iff,
    fun r hr ↦ ⟨r.interval_pos, says_of_build hr⟩⟩
  · funext p
    rw [Call.first_append, ← setting?_after_empty]
    exact Call.or_first_push hne p
  · funext p
    rw [Call.first_append, ← setting?_after_empty]
    exact Option.or_none

/-- The months March and January, in two sessions, of which one has a build before the frequency
and a second list of months. -/
theorem answers_after_marchAndJanuary :
    let months : Setting := .byMonth [3, 1, 3]
    let calls : List Call := [.push months, .build, .push (.freq .yearly), .push (.byMonth [5])]
    let calls' : List Call := [.push (.freq .yearly), .push months]
    Call.first calls' = Call.first calls ∧ Call.first calls' Param.byMonth ≠ none ∧
      (empty.after calls').answers [.push (.count 3), .build] =
        (empty.after calls).answers [.push (.count 3), .build] ∧
      (empty.after (calls' ++ [.push (.byMonth [5])])).answers [.build] =
        (empty.after calls').answers [.build] ∧
      ∃ r, (empty.after calls').build = .ok r ∧ 1 ≤ r.interval ∧ r.byMonth = [3, 1] := by
  intro months calls calls'
  have hfirst : Call.first calls' = Call.first calls := by
    funext p
    cases p <;> rfl
  have hmonths : Call.first calls' Param.byMonth ≠ none := by decide
  obtain ⟨-, -, -, hsame, -⟩ := answers_after calls
  obtain ⟨-, hrefused, -, -, hbuilt, -, hsays⟩ := answers_after calls'
  have hdomain : ∀ p s, Call.first calls' p = some s → s.IsInDomain := by
    intro p s hs
    cases p <;> cases hs <;> decide
  have hpositions (h : Param.bySetPos.IsFilledIn (Call.first calls')) :
      ∃ p : Param, p ≠ .bySetPos ∧ p.IsFilledIn (Call.first calls') := by
    obtain ⟨_, ⟨⟩, _⟩ := h
  obtain ⟨r, hr⟩ := hbuilt.2 ⟨by decide, hdomain, hpositions⟩
  obtain ⟨hinterval, hsays⟩ := hsays r hr
  have hmonth : some (Setting.byMonth r.byMonth) = some (.byMonth [3, 1]) := hsays .byMonth
  exact ⟨hfirst, hmonths, hsame calls' hfirst _, hrefused (.byMonth [5]) _ hmonths, r, hr,
    hinterval, Setting.byMonth.inj (Option.some.inj hmonth)⟩

end Recurrence.Draft
