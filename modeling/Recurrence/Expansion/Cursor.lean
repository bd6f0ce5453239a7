import Recurrence.Calendar.Date

namespace Recurrence

structure Cursor (τ : Type) where
  period : Nat
  pending : List τ
  last : Option τ
  found : Nat
  given : Nat
  done : Bool

namespace Cursor

variable {τ : Type}

def before (n : Nat) : Cursor τ := ⟨n, [], none, 0, 0, false⟩

def finish (c : Cursor τ) : Cursor τ := { c with pending := [], done := true }

def remaining (c : Cursor τ) : Nat × Nat := (Date.count + 1 - c.period, c.pending.length)

def IsAfter (c' c : Cursor τ) : Prop := Prod.Lex (· < ·) (· < ·) c'.remaining c.remaining

theorem IsAfter.trans {a b c : Cursor τ} (h₁ : a.IsAfter b) (h₂ : b.IsAfter c) : a.IsAfter c := by
  rw [IsAfter, Prod.lex_def] at *
  omega

theorem isAfter_of_length_lt {a b : Cursor τ} (h₁ : a.period = b.period)
    (h₂ : a.pending.length < b.pending.length) : a.IsAfter b := by
  rw [IsAfter, remaining, remaining, h₁]
  exact .right _ h₂

end Cursor

end Recurrence
