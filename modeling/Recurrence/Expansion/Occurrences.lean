import Recurrence.Expansion.Search
import Recurrence.Expansion.Source

namespace Recurrence

structure Occurrences (τ : Type) where
  search : Search τ
  cursor : Cursor τ

namespace Occurrences

variable {τ : Type} [LT τ] [DecidableLT τ] [Instant τ]

def next (o : Occurrences τ) : Option τ × Occurrences τ :=
  match o.search.next o.cursor with
  | (answer, cursor) => (answer, { o with cursor := cursor })

theorem isAfter_of_next {o o' : Occurrences τ} {x : τ} (h : o.next = (some x, o')) :
    o'.cursor.IsAfter o.cursor := by
  unfold next at h
  split at h
  cases h
  exact o.search.isAfter_of_next ‹_›

instance : Source (Occurrences τ) τ where
  next := next
  IsAfter a b := a.cursor.IsAfter b.cursor
  wellFounded := InvImage.wf (fun o : Occurrences τ ↦ o.cursor.remaining)
    (Prod.lex Nat.lt_wfRel Nat.lt_wfRel).wf
  isAfter_of_next := isAfter_of_next

def ofRule (rule : Rule) (anchor : τ) (config : Config) (limit : Option Nat) : Occurrences τ :=
  ⟨{ Search.start rule anchor config with limit := limit }, .before 0⟩

/-- The occurrences in a window. Without a count the periods before the window are passed over,
but for one, because the window may be given in another zone. -/
def within (rule : Rule) (anchor : τ) (config : Config) (window : Window τ) : Occurrences τ :=
  let search := Search.start rule anchor config
  if window.last < window.first then ⟨search, (Cursor.before 0).finish⟩
  else
    let skipped :=
      if rule.count = none ∧ anchor < window.first then
        search.periods.indexBefore (Instant.wallClock window.first).date
      else 0
    ⟨{ search with window := some window }, .before skipped⟩

end Occurrences

end Recurrence
