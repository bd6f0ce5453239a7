namespace Recurrence.Position

def resolve? (position : Int) (length : Nat) : Option Nat :=
  let p := if position < 0 then length + position + 1 else position
  if 1 ≤ p ∧ p ≤ length then some p.toNat else none

/-- The items at the given positions, in the order of the list and each once. -/
def select {α : Type} (positions : List Int) (items : List α) : List α :=
  ((positions.filterMap (resolve? · items.length)).mergeSort.eraseReps).filterMap
    fun p ↦ items[p - 1]?

end Recurrence.Position
