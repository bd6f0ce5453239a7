import Recurrence.Expansion.Occurrences

namespace Recurrence

structure Series (τ : Type) where
  rule : Rule
  anchor : τ
  config : Config := {}

namespace Series

variable {τ : Type} [LT τ] [DecidableLT τ] [Instant τ] (s : Series τ)

def occurrences : Occurrences τ := .ofRule s.rule s.anchor s.config none

def between (first last : τ) : Occurrences τ := .within s.rule s.anchor s.config ⟨first, last⟩

def contains (x : τ) : Bool := Source.contains s.occurrences x

end Series

def Rule.occursAt {τ : Type} [LT τ] [DecidableLT τ] [Instant τ] (rule : Rule) (anchor x : τ) :
    Bool :=
  if x < anchor then false else ({ rule, anchor : Series τ }).contains x

end Recurrence
