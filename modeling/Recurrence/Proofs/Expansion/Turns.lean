import Recurrence.Proofs.Expansion.Stream

/-!
The loop of a search, turn by turn. A turn looks at a pending instant or opens a period, and there
is no limit to the number of turns. But each turn that leads to another one takes from what is left
of the calendar, so that the loop ends from wherever it is, with the answer of the search.
-/

namespace Recurrence

/-- What a turn comes to: the end, an occurrence, or another turn. Between turns the loop keeps
since when the periods have been empty. -/
inductive Turn (τ : Type) where
  | stop (c : Cursor τ)
  | give (x : τ) (c : Cursor τ)
  | go (c : Cursor τ) (since : Option Date)

namespace Turn

variable {τ : Type}

def cursor : Turn τ → Cursor τ
  | stop c => c
  | give _ c => c
  | go c _ => c

def since : Turn τ → Option Date
  | stop _ => none
  | give _ _ => none
  | go _ since => since

end Turn

namespace Search

variable {τ : Type} [LT τ] [DecidableLT τ] [Instant τ] (s : Search τ)

def look (c : Cursor τ) (x : τ) : Turn τ :=
  if s.isPassed c x then .go c none
  else if s.exceedsBound x then .stop c.finish
  else
    let c' := { c with last := some x, found := c.found + 1 }
    if s.isPastWindow x then .stop c'.finish
    else if s.isBeforeWindow x then .go c' none
    else .give x { c' with given := c.given + 1 }

def openPeriod (c : Cursor τ) (since : Option Date) : Turn τ :=
  match s.periods.start? c.period with
  | none => .stop c.finish
  | some day =>
    let c' := { c with period := c.period + 1 }
    if s.startsTooLate day then .stop c'.finish
    else match s.candidates c.period with
      | [] =>
        if s.isExhausted (since.getD day) day then .stop c'.finish
        else .go c' (since.getD day)
      | readings => .go { c' with pending := readings.filterMap (Instant.atWallClock? s.anchor) } none

def turn (c : Cursor τ) (since : Option Date) : Turn τ :=
  if c.done || s.hasReachedLimit c || s.hasReachedCount c then .stop c.finish
  else match c.pending with
    | [] => s.openPeriod c since
    | x :: rest => s.look { c with pending := rest } x

/-- The loop comes from one cursor to another place, after any number of turns and calls. -/
inductive Reaches (c₀ : Cursor τ) : Cursor τ → Option Date → Prop
  | start : Reaches c₀ c₀ none
  | turn {c : Cursor τ} {since : Option Date} : Reaches c₀ c since →
      Reaches c₀ (s.turn c since).cursor (s.turn c since).since

inductive Answers : Nat → Cursor τ → Option Date → Option τ → Cursor τ → Prop
  | stop {c c' : Cursor τ} {since : Option Date} :
      s.turn c since = .stop c' → Answers 1 c since none c'
  | give {c c' : Cursor τ} {since : Option Date} {x : τ} :
      s.turn c since = .give x c' → Answers 1 c since (some x) c'
  | go {n : Nat} {c c' c'' : Cursor τ} {since since' : Option Date} {answer : Option τ} :
      s.turn c since = .go c' since' → Answers n c' since' answer c'' →
        Answers (n + 1) c since answer c''

/-- What may still be found from a cursor on. -/
def due (c : Cursor τ) : Nat := c.pending.length + (s.readings c.period).length

def potential (c : Cursor τ) : Nat := Date.count + 1 - c.period + s.due c

/-- Nothing is found but what was due, nothing is given but what is found, and the potential
falls. -/
structure Spends (c c' : Cursor τ) : Prop where
  found : c'.found + s.due c' ≤ c.found + s.due c
  given : c'.given + c.found ≤ c.given + c'.found
  period : c.period ≤ Date.count + 1 → c'.period ≤ Date.count + 1
  potential : s.potential c' < s.potential c

variable {s} {c c' : Cursor τ}

omit [LT τ] [DecidableLT τ] [Instant τ] in
theorem spends_of_period_eq {x : τ} {rest : List τ} (h : c.pending = x :: rest)
    (hperiod : c'.period = c.period) (hpending : c'.pending.length ≤ rest.length)
    (hfound : c'.found ≤ c.found + 1) (hgiven : c'.given + c.found ≤ c.given + c'.found) :
    s.Spends c c' := by
  have hdue : s.due c' < s.due c := by
    rw [due, due, hperiod, h, List.length_cons]
    omega
  refine ⟨by omega, hgiven, by omega, ?_⟩
  rw [potential, potential, hperiod]
  omega

omit [LT τ] [DecidableLT τ] [Instant τ] in
theorem spends_of_period_succ {day : Date} (hday : s.periods.start? c.period = some day)
    (hperiod : c'.period = c.period + 1)
    (hpending : c'.pending.length ≤ (s.candidates c.period).length) (hfound : c'.found = c.found)
    (hgiven : c'.given = c.given) : s.Spends c c' := by
  have hle := Periods.le_count_of_start? hday
  have hstart : (s.periods.start? c.period).isSome = true := by
    rw [hday]
    rfl
  have hdue : s.due c' ≤ s.due c := by
    rw [due, due, hperiod, readings_eq_append hstart, List.length_append]
    omega
  refine ⟨by omega, by omega, by omega, ?_⟩
  rw [potential, potential, hperiod]
  omega

variable (s) in
theorem look_cases (c : Cursor τ) (x : τ) :
    ∃ last found, (found = c.found ∨ found = c.found + 1) ∧
      (s.look c x = .go { c with last, found } none ∨
        s.look c x = .stop { c.finish with last, found } ∨
        found = c.found + 1 ∧ s.look c x = .give x { c with last, found, given := c.given + 1 }) := by
  rw [look]
  split
  · exact ⟨c.last, c.found, .inl rfl, .inl rfl⟩
  split
  · exact ⟨c.last, c.found, .inl rfl, .inr (.inl rfl)⟩
  refine ⟨some x, c.found + 1, .inr rfl, ?_⟩
  dsimp only
  split
  · exact .inr (.inl rfl)
  split
  · exact .inl rfl
  · exact .inr (.inr ⟨rfl, rfl⟩)

variable (s) in
theorem openPeriod_cases (c : Cursor τ) (since : Option Date) :
    s.openPeriod c since = .stop c.finish ∨ ∃ day, s.periods.start? c.period = some day ∧
      (s.openPeriod c since = .stop { c.finish with period := c.period + 1 } ∨
        s.openPeriod c since = .go { c with period := c.period + 1 } (some (since.getD day)) ∨
        ∃ pending, pending.length ≤ (s.candidates c.period).length ∧
          s.openPeriod c since = .go { c with period := c.period + 1, pending } none) := by
  rw [openPeriod]
  rcases hday : s.periods.start? c.period with _ | day
  · exact .inl rfl
  refine .inr ⟨day, rfl, ?_⟩
  dsimp only
  split
  · exact .inl rfl
  split
  · split
    · exact .inl rfl
    · exact .inr (.inl rfl)
  · exact .inr (.inr ⟨_, List.length_filterMap_le _ _, rfl⟩)

theorem spends_look {x : τ} {rest : List τ} (h : c.pending = x :: rest) :
    s.Spends c (s.look { c with pending := rest } x).cursor := by
  obtain ⟨last, found, hfound, hlook⟩ := s.look_cases { c with pending := rest } x
  dsimp only at hfound
  have hle : found ≤ c.found + 1 := by omega
  have hkept : c.given + c.found ≤ c.given + found := by omega
  rcases hlook with hlook | hlook | ⟨rfl, hlook⟩
  · rw [hlook]
    exact spends_of_period_eq h rfl (Nat.le_refl _) hle hkept
  · rw [hlook]
    exact spends_of_period_eq h rfl (Nat.zero_le _) hle hkept
  · rw [hlook]
    exact spends_of_period_eq h rfl (Nat.le_refl _) hle (by dsimp only [Turn.cursor]; omega)

theorem spends_openPeriod (h : c.pending = []) (since : Option Date) :
    s.openPeriod c since = .stop c.finish ∨ s.Spends c (s.openPeriod c since).cursor := by
  rcases s.openPeriod_cases c since with hstop | ⟨day, hday, hopen⟩
  · exact .inl hstop
  right
  rcases hopen with hopen | hopen | ⟨pending, hlength, hopen⟩
  · rw [hopen]
    exact spends_of_period_succ hday rfl (Nat.zero_le _) rfl rfl
  · rw [hopen]
    exact spends_of_period_succ hday rfl (by simp [Turn.cursor, h]) rfl rfl
  · rw [hopen]
    exact spends_of_period_succ hday rfl hlength rfl rfl

theorem turn_cases (c : Cursor τ) (since : Option Date) :
    s.turn c since = .stop c.finish ∨ s.Spends c (s.turn c since).cursor := by
  unfold turn
  split
  · exact .inl rfl
  · split
    · exact spends_openPeriod ‹_› since
    · exact .inr (spends_look ‹_›)

theorem potential_lt_of_go {since since' : Option Date} (h : s.turn c since = .go c' since') :
    s.potential c' < s.potential c := by
  have hcases := s.turn_cases c since
  rw [h] at hcases
  rcases hcases with hstop | hspends
  · cases hstop
  · exact hspends.potential

variable (s) in
theorem exists_answers (c : Cursor τ) (since : Option Date) :
    ∃ n answer c', s.Answers n c since answer c' := by
  rcases hturn : s.turn c since with c' | ⟨x, c'⟩ | ⟨c', since'⟩
  · exact ⟨1, none, c', .stop hturn⟩
  · exact ⟨1, some x, c', .give hturn⟩
  · obtain ⟨n, answer, c'', hanswers⟩ := exists_answers c' since'
    exact ⟨n + 1, answer, c'', .go hturn hanswers⟩
termination_by s.potential c
decreasing_by exact potential_lt_of_go hturn

theorem turns_le_potential {n : Nat} {since : Option Date} {answer : Option τ}
    (h : s.Answers n c since answer c') : n ≤ s.potential c + 1 := by
  induction h with
  | stop => omega
  | give => omega
  | go hturn _ ih =>
    have hlt := potential_lt_of_go hturn
    omega

theorem Reaches.answers {c₀ : Cursor τ} {n : Nat} {since : Option Date} {answer : Option τ}
    (h : s.Reaches c₀ c since) (hanswers : s.Answers n c since answer c') :
    s.Reaches c₀ c' none := by
  induction hanswers with
  | stop hturn =>
    have hnext := h.turn
    rwa [hturn] at hnext
  | give hturn =>
    have hnext := h.turn
    rwa [hturn] at hnext
  | go hturn _ ih =>
    have hnext := h.turn
    rw [hturn] at hnext
    exact ih hnext

/-- What is found and what is due are days of the calendar. -/
structure InBounds (s : Search τ) (c : Cursor τ) : Prop where
  found : c.found + s.due c ≤ Date.count
  given : c.given ≤ c.found
  period : c.period ≤ Date.count + 1

omit [LT τ] [DecidableLT τ] [Instant τ] in
theorem InBounds.finish (h : s.InBounds c) : s.InBounds c.finish := by
  have hfound := h.found
  refine ⟨?_, h.given, h.period⟩
  simp only [Cursor.finish, due, List.length_nil] at hfound ⊢
  omega

theorem InBounds.turn (h : s.InBounds c) (since : Option Date) :
    s.InBounds (s.turn c since).cursor := by
  rcases s.turn_cases c since with hstop | hspends
  · rw [hstop]
    exact h.finish
  · have hfound := h.found
    have hgiven := h.given
    have hfound' := hspends.found
    have hgiven' := hspends.given
    exact ⟨by omega, by omega, hspends.period h.period⟩

theorem InBounds.of_reaches {c₀ : Cursor τ} {since : Option Date} (h₀ : s.InBounds c₀)
    (h : s.Reaches c₀ c since) : s.InBounds c := by
  induction h with
  | start => exact h₀
  | turn _ ih => exact ih.turn _

omit [LT τ] [DecidableLT τ] [Instant τ] in
theorem InBounds.potential_le (h : s.InBounds c) : s.potential c ≤ 2 * Date.count + 1 := by
  have hfound := h.found
  unfold potential
  omega

variable (s) in
def Ends (c : Cursor τ) (since : Option Date) (answer : Option τ) (c' : Cursor τ) : Prop :=
  ∃ n, s.Answers n c since answer c'

variable (s) in
/-- Whatever the loop comes to from the second place, it comes to from the first. -/
def Leads (c : Cursor τ) (since : Option Date) (c' : Cursor τ) (since' : Option Date) : Prop :=
  ∀ answer c'', s.Ends c' since' answer c'' → s.Ends c since answer c''

theorem leads_of_go {since since' : Option Date} (h : s.turn c since = .go c' since') :
    s.Leads c since c' since' := by
  intro answer c'' hends
  obtain ⟨n, hanswers⟩ := hends
  exact ⟨n + 1, .go h hanswers⟩

theorem Leads.trans {c'' : Cursor τ} {since since' since'' : Option Date}
    (h : s.Leads c since c' since') (h' : s.Leads c' since' c'' since'') :
    s.Leads c since c'' since'' :=
  fun answer last hends ↦ h answer last (h' answer last hends)

theorem turn_of_reached (since : Option Date)
    (h : c.done = true ∨ s.hasReachedLimit c = true ∨ s.hasReachedCount c = true) :
    s.turn c since = .stop c.finish := by
  rw [turn, if_pos]
  rw [Bool.or_eq_true, Bool.or_eq_true]
  exact or_assoc.2 h

theorem scan_cons (c : Cursor τ) (x : τ) (rest : List τ) : s.scan c (x :: rest) =
    if s.hasReachedCount c then (none, c.finish)
    else match s.look { c with pending := rest } x with
      | .stop c' => (none, c')
      | .give y c' => (some y, c')
      | .go c' _ => s.scan { c' with pending := c.pending } rest := by
  have hpassed : s.isPassed { c with pending := rest } x = s.isPassed c x := rfl
  by_cases hcount : s.hasReachedCount c = true
  · simp [scan, hcount]
  by_cases h₁ : s.isPassed c x = true
  · simp [scan, look, hpassed, hcount, h₁]
  by_cases h₂ : s.exceedsBound x = true
  · simp [scan, look, hpassed, hcount, h₁, h₂, Cursor.finish]
  by_cases h₃ : s.isPastWindow x = true
  · simp [scan, look, hpassed, hcount, h₁, h₂, h₃, Cursor.finish]
  by_cases h₄ : s.isBeforeWindow x = true
  · simp [scan, look, hpassed, hcount, h₁, h₂, h₃, h₄]
  · simp [scan, look, hpassed, hcount, h₁, h₂, h₃, h₄]

theorem refill_succ (left : Nat) (c : Cursor τ) (since : Option Date) :
    s.refill (left + 1) c.period since =
      match s.openPeriod c since with
      | .go c' (some day) => s.refill left c'.period (some day)
      | .go c' none => some (c'.period, c'.pending)
      | _ => none := by
  rcases hday : s.periods.start? c.period with _ | day
  · simp [refill, openPeriod, hday]
  by_cases hlate : s.startsTooLate day = true
  · simp [refill, openPeriod, hday, hlate]
  rcases hempty : s.candidates c.period with _ | ⟨r, readings⟩
  · by_cases hexhausted : s.isExhausted (since.getD day) day = true
    · simp [refill, openPeriod, hday, hlate, hempty, hexhausted]
    · simp [refill, openPeriod, hday, hlate, hempty, hexhausted]
  · simp [refill, openPeriod, hday, hlate, hempty]

section Goes

variable (since : Option Date) (hdone : c.done = false) (hlimit : ¬ s.hasReachedLimit c = true)

include hdone hlimit

theorem turn_of_pending_nil (hcount : ¬ s.hasReachedCount c = true) (h : c.pending = []) :
    s.turn c since = s.openPeriod c since := by
  rw [turn, if_neg, h]
  simp [hdone, hlimit, hcount]

theorem turn_of_pending_cons (hcount : ¬ s.hasReachedCount c = true) (x : τ) (rest : List τ) :
    s.turn { c with pending := x :: rest } since = s.look { c with pending := rest } x := by
  have hgoes : ¬ (c.done || s.hasReachedLimit c || s.hasReachedCount c) = true := by
    simp [hdone, hlimit, hcount]
  exact if_neg hgoes

/-- A scan is a turn for each instant, up to the answer or to the last instant. -/
theorem scan_cases (xs : List τ) :
    (∃ c', s.scan c xs = (none, c') ∧ c'.done = false ∧ c'.pending = [] ∧ c'.given = c.given ∧
        s.Leads { c with pending := xs } none c' none) ∨
      ∃ answer c', s.scan c xs = (answer, c') ∧ (answer = none → c'.finish = c') ∧
        s.Ends { c with pending := xs } none answer c' := by
  induction xs generalizing c with
  | nil => exact .inl ⟨_, rfl, hdone, rfl, rfl, fun _ _ hends ↦ hends⟩
  | cons x rest ih =>
    rw [scan_cons]
    by_cases hcount : s.hasReachedCount c = true
    · have hturn : s.turn { c with pending := x :: rest } none = .stop c.finish :=
        turn_of_reached _ (.inr (.inr hcount))
      rw [if_pos hcount]
      exact .inr ⟨none, c.finish, rfl, fun _ ↦ rfl, 1, .stop hturn⟩
    · rw [if_neg hcount]
      have hturn := turn_of_pending_cons none hdone hlimit hcount x rest
      obtain ⟨last, found, -, hlook | hlook | ⟨-, hlook⟩⟩ := s.look_cases { c with pending := rest } x
      · rw [hlook]
        have hgo := leads_of_go (hturn.trans hlook)
        rcases ih (c := { c with last, found }) hdone hlimit with h | h
        · obtain ⟨c', hscan, hdone', hpending', hgiven', hleads⟩ := h
          exact .inl ⟨c', hscan, hdone', hpending', hgiven', hgo.trans hleads⟩
        · obtain ⟨answer, c', hscan, hfinish, hends⟩ := h
          exact .inr ⟨answer, c', hscan, hfinish, hgo answer c' hends⟩
      · rw [hlook]
        exact .inr ⟨none, _, rfl, fun _ ↦ rfl, 1, .stop (hturn.trans hlook)⟩
      · rw [hlook]
        exact .inr ⟨some x, _, rfl, nofun, 1, .give (hturn.trans hlook)⟩

/-- A refill is a turn for each period, and it has enough of them. -/
theorem refill_cases (left : Nat) (hcount : ¬ s.hasReachedCount c = true) (hpending : c.pending = [])
    (hleft : Date.count + 1 ≤ left + c.period) :
    (s.refill left c.period since = none ∧
        ∃ p, s.Ends c since none { c.finish with period := p }) ∨
      ∃ n pending, s.refill left c.period since = some (n, pending) ∧
        s.Leads c since { c with period := n, pending := pending } none := by
  induction left generalizing c since with
  | zero =>
    have hturn := turn_of_pending_nil since hdone hlimit hcount hpending
    have hstart : s.periods.start? c.period = none := by
      apply Option.eq_none_iff_forall_not_mem.2
      intro day hday
      have hle := Periods.le_count_of_start? hday
      omega
    have hstop : s.openPeriod c since = .stop c.finish := by simp [openPeriod, hstart]
    exact .inl ⟨rfl, c.period, 1, .stop (hturn.trans hstop)⟩
  | succ left ih =>
    have hturn := turn_of_pending_nil since hdone hlimit hcount hpending
    rw [refill_succ]
    rcases s.openPeriod_cases c since with hopen | ⟨day, -, hopen | hopen | ⟨pending, -, hopen⟩⟩
    · rw [hopen]
      exact .inl ⟨rfl, c.period, 1, .stop (hturn.trans hopen)⟩
    · rw [hopen]
      exact .inl ⟨rfl, c.period + 1, 1, .stop (hturn.trans hopen)⟩
    · rw [hopen]
      have hgo := leads_of_go (hturn.trans hopen)
      rcases ih (c := { c with period := c.period + 1 }) (some (since.getD day)) hdone hlimit hcount
        hpending (by dsimp only; omega) with ⟨hnone, p, hends⟩ | ⟨n, pending, hsome, hleads⟩
      · exact .inl ⟨hnone, p, hgo none _ hends⟩
      · exact .inr ⟨n, pending, hsome, hgo.trans hleads⟩
    · rw [hopen]
      exact .inr ⟨_, _, rfl, leads_of_go (hturn.trans hopen)⟩

end Goes

theorem ends_of_advance {left : Nat} {answer : Option τ} (hdone : c.done = false)
    (hlimit : ¬ s.hasReachedLimit c = true) (hperiod : c.period ≤ Date.count + 1)
    (hleft : Date.count + 2 ≤ left + c.period) (h : s.advance left c = (answer, c')) :
    ∃ p, s.Ends c none answer { c' with period := p } ∧ (answer ≠ none → p = c'.period) := by
  induction left generalizing c with
  | zero => omega
  | succ left ih =>
    rw [advance] at h
    rcases scan_cases hdone hlimit c.pending with
      ⟨c₁, hscan, hdone₁, hpending, hgiven, hleads⟩ | ⟨answer₁, c₁, hscan, hfinish, hends⟩
    · have hperiod₁ : c₁.period = c.period := by simpa [hscan] using s.period_scan c c.pending
      have hlimit₁ : ¬ s.hasReachedLimit c₁ = true := by rwa [hasReachedLimit, hgiven]
      rw [hscan] at h
      dsimp only at h
      split at h
      · rename_i hend
        have hcount : s.hasReachedCount c₁ = true := by simpa [hdone₁] using hend
        cases h
        refine ⟨c₁.period, hleads none _ ⟨1, .stop (turn_of_reached _ (.inr (.inr hcount)))⟩, by simp⟩
      · rename_i hend
        have hcount : ¬ s.hasReachedCount c₁ = true := by simpa [hdone₁] using hend
        have hleft₁ : Date.count + 1 ≤ Date.count + 1 - c₁.period + c₁.period := by omega
        rcases refill_cases none hdone₁ hlimit₁ _ hcount hpending hleft₁ with
          ⟨hnone, p, hends⟩ | ⟨n, pending, hsome, hleads'⟩
        · rw [hnone] at h
          cases h
          exact ⟨p, hleads none _ hends, by simp⟩
        · have hlt := s.lt_of_refill hsome
          obtain ⟨k, rfl, -, -, hstart, -⟩ := s.refill_eq_some hsome
          obtain ⟨day, hday⟩ := Option.isSome_iff_exists.1 hstart
          have hk := Periods.le_count_of_start? hday
          rw [hsome] at h
          obtain ⟨p, hends, hp⟩ := ih (c := { c₁ with period := k + 1, pending := pending }) hdone₁
            hlimit₁ (Nat.succ_le_succ hk) (by dsimp only; omega) h
          exact ⟨p, hleads.trans hleads' _ _ hends, hp⟩
    · refine ⟨c₁.period, ?_⟩
      rw [hscan] at h
      rcases answer₁ with _ | x
      · have hdone₁ : c₁.done = true := by
          rw [← hfinish rfl]
          rfl
        simp only [hdone₁, Bool.true_or, if_true, hfinish rfl] at h
        cases h
        exact ⟨hends, by simp⟩
      · cases h
        exact ⟨hends, fun _ ↦ rfl⟩

theorem ends_next (hperiod : c.period ≤ Date.count + 1) :
    ∃ p, s.Ends c none (s.next c).1 { (s.next c).2 with period := p } ∧
      ((s.next c).1 ≠ none → p = (s.next c).2.period) := by
  rw [next]
  split
  · rename_i hend
    have hreached : c.done = true ∨ s.hasReachedLimit c = true := by simpa using hend
    have hturn := turn_of_reached none (hreached.imp_right .inl)
    exact ⟨c.period, ⟨1, .stop hturn⟩, by simp⟩
  · rename_i hgoes
    have hdone : c.done = false := by simp_all
    have hlimit : ¬ s.hasReachedLimit c = true := by simp_all
    exact ends_of_advance hdone hlimit hperiod (by omega) rfl

end Search

end Recurrence
