import Recurrence.Expansion.Config
import Recurrence.Expansion.Cursor
import Recurrence.Expansion.Pattern
import Recurrence.Instant

/-!
The search for the occurrences of a rule, from period to period. It ends at the end of the
calendar, at the end that the rule sets, past the window, or after too many years without a day
that the rule picks; a cursor that has come to the end stays there.
-/

namespace Recurrence

structure Window (τ : Type) where
  first : τ
  last : τ

/-- What is looked for: the occurrences of a rule from an anchor on, at most `limit` of them, and
if there is a window only those in it. -/
structure Search (τ : Type) where
  rule : Rule
  anchor : τ
  periods : Periods
  pattern : Pattern
  time : Time
  limit : Option Nat
  window : Option (Window τ)
  config : Config

namespace Search

variable {τ : Type} [LT τ] [DecidableLT τ] [Instant τ] (s : Search τ)

def start (rule : Rule) (anchor : τ) (config : Config) : Search τ where
  rule := rule
  anchor := anchor
  periods := {
    freq := rule.freq
    base := rule.freq.unitOf (Instant.wallClock anchor).date
    interval := rule.interval
    interval_pos := rule.interval_pos }
  pattern := .ofRule rule.toRuleData (Instant.wallClock anchor).date
  time := (Instant.wallClock anchor).time
  limit := none
  window := none
  config := config

def candidates (n : Nat) : List DateTime :=
  (s.pattern.pick (s.periods.freq.days (s.periods.unit n))).map (⟨·, s.time⟩)

def exceedsBound (x : τ) : Bool := s.rule.bound.any fun bound ↦ Instant.exceeds x bound

def isPastWindow (x : τ) : Bool := s.window.any fun w ↦ w.last < x

/-- Nothing can be found from a day on whose midnight is too late already. -/
def startsTooLate (day : Date) : Bool :=
  (Instant.atWallClock? s.anchor day.midnight).any fun x ↦ s.exceedsBound x || s.isPastWindow x

def isExhausted (since day : Date) : Bool :=
  (since.addYears? (s.config.maxEmptyYears * s.rule.interval)).any fun limit ↦ limit ≤ day

/-- The instants of the first of `left` periods from `n` on that is not empty, and the number of the
period after it. The periods since `since` have been empty. -/
def refill : Nat → Nat → Option Date → Option (Nat × List τ)
  | 0, _, _ => none
  | left + 1, n, since =>
    match s.periods.start? n with
    | none => none
    | some day =>
      if s.startsTooLate day then none
      else match s.candidates n with
        | [] =>
          if s.isExhausted (since.getD day) day then none
          else refill left (n + 1) (since.getD day)
        | readings => some (n + 1, readings.filterMap (Instant.atWallClock? s.anchor))

def hasReachedLimit (c : Cursor τ) : Bool := s.limit.any fun limit ↦ limit ≤ c.given

def hasReachedCount (c : Cursor τ) : Bool := s.rule.count.any fun count ↦ count ≤ c.found

def isPassed (c : Cursor τ) (x : τ) : Bool := x < s.anchor || c.last.any fun last ↦ ¬ last < x

def isBeforeWindow (x : τ) : Bool := s.window.any fun w ↦ x < w.first

/-- Looks through pending instants for the next occurrence. Without one and with the cursor not
done, more instants are needed. -/
def scan (c : Cursor τ) : List τ → Option τ × Cursor τ
  | [] => (none, { c with pending := [] })
  | x :: rest =>
    if s.hasReachedCount c then (none, c.finish)
    else if s.isPassed c x then scan c rest
    else if s.exceedsBound x then (none, c.finish)
    else
      let c' := { c with last := some x, found := c.found + 1 }
      if s.isPastWindow x then (none, c'.finish)
      else if s.isBeforeWindow x then scan c' rest
      else (some x, { c' with pending := rest, given := c.given + 1 })

def advance : Nat → Cursor τ → Option τ × Cursor τ
  | 0, c => (none, c.finish)
  | left + 1, c =>
    match s.scan c c.pending with
    | (some x, c') => (some x, c')
    | (none, c') =>
      if c'.done || s.hasReachedCount c' then (none, c'.finish)
      else match s.refill (Date.count + 1 - c'.period) c'.period none with
        | none => (none, c'.finish)
        | some (n, pending) => advance left { c' with period := n, pending := pending }

def next (c : Cursor τ) : Option τ × Cursor τ :=
  if c.done || s.hasReachedLimit c then (none, c.finish)
  else s.advance (Date.count + 2 - c.period) c

theorem lt_of_refill {left n n' : Nat} {since : Option Date} {pending : List τ}
    (h : s.refill left n since = some (n', pending)) : n < n' ∧ n ≤ Date.count := by
  fun_induction refill s left n since with
  | case1 => cases h
  | case2 => cases h
  | case3 => cases h
  | case4 => cases h
  | case5 left n since day hday _ _ _ ih =>
    exact ⟨Nat.lt_trans (Nat.lt_succ_self n) (ih h).1, Periods.le_count_of_start? hday⟩
  | case6 left n since day hday =>
    cases h
    exact ⟨Nat.lt_succ_self n, Periods.le_count_of_start? hday⟩

theorem period_scan (c : Cursor τ) (xs : List τ) : (s.scan c xs).2.period = c.period := by
  fun_induction scan s c xs <;> first | rfl | assumption

theorem length_pending_scan {c c' : Cursor τ} {xs : List τ} {x : τ}
    (h : s.scan c xs = (some x, c')) : c'.pending.length < xs.length := by
  fun_induction scan s c xs with
  | case1 => cases h
  | case2 => cases h
  | case3 _ _ _ _ _ ih => exact Nat.lt_succ_of_lt (ih h)
  | case4 => cases h
  | case5 => cases h
  | case6 _ _ _ _ _ _ _ _ _ ih => exact Nat.lt_succ_of_lt (ih h)
  | case7 => cases h; exact Nat.lt_succ_self _

theorem isAfter_of_advance {left : Nat} {c c' : Cursor τ} {x : τ}
    (h : s.advance left c = (some x, c')) : c'.IsAfter c := by
  fun_induction advance s left c with
  | case1 => cases h
  | case2 left c y c'' hscan =>
    cases h
    exact Cursor.isAfter_of_length_lt (by simpa [hscan] using s.period_scan c c.pending)
      (s.length_pending_scan hscan)
  | case3 => cases h
  | case4 => cases h
  | case5 left c c'' hscan _ n pending hrefill ih =>
    refine (ih h).trans (.left _ _ ?_)
    have hperiod : c''.period = c.period := by simpa [hscan] using s.period_scan c c.pending
    have := s.lt_of_refill hrefill
    dsimp only
    omega

theorem isAfter_of_next {c c' : Cursor τ} {x : τ} (h : s.next c = (some x, c')) :
    c'.IsAfter c := by
  unfold next at h
  split at h
  · cases h
  · exact s.isAfter_of_advance h

end Search

end Recurrence
