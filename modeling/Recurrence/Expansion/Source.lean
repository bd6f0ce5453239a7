namespace Recurrence

class Source (σ : Type) (α : outParam Type) where
  next : σ → Option α × σ
  IsAfter : σ → σ → Prop
  wellFounded : WellFounded IsAfter
  isAfter_of_next : ∀ {s s' : σ} {x : α}, next s = (some x, s') → IsAfter s' s

namespace Source

variable {σ α : Type} [Source σ α]

local instance : WellFoundedRelation σ := ⟨IsAfter, wellFounded⟩

def toList (s : σ) : List α :=
  match _h : next s with
  | (none, _) => []
  | (some x, s') => x :: toList s'
termination_by s
decreasing_by exact isAfter_of_next _h

/-- The first `n` items, and whether the source ended before them. -/
def take : Nat → σ → List α × Bool
  | 0, _ => ([], false)
  | n + 1, s =>
    match next s with
    | (none, _) => ([], true)
    | (some x, s') => let (xs, ended) := take n s'; (x :: xs, ended)

def calls : Nat → σ → List (Option α) × σ
  | 0, s => ([], s)
  | n + 1, s => let (answer, s') := next s; let (answers, s') := calls n s'; (answer :: answers, s')

section Order

variable [LT α] [DecidableLT α]

/-- The first item that is not smaller than `x`, and how many items are taken to find it. -/
def search (s : σ) (x : α) : Option α × Nat :=
  match _h : next s with
  | (none, _) => (none, 0)
  | (some y, s') =>
    if y < x then let (found, taken) := search s' x; (found, taken + 1) else (some y, 1)
termination_by s
decreasing_by exact isAfter_of_next _h

def pulls (s : σ) (x : α) : Nat := (search s x).2

def contains (s : σ) (x : α) : Bool := (search s x).1.any fun y ↦ ¬ x < y

end Order

end Source

instance {α : Type} : Source (List α) α where
  next
    | [] => (none, [])
    | x :: xs => (some x, xs)
  IsAfter xs ys := xs.length < ys.length
  wellFounded := (measure List.length).wf
  isAfter_of_next {s s' x} h := by
    cases s with
    | nil => cases h
    | cons y ys => cases h; exact Nat.lt_succ_self _

end Recurrence
