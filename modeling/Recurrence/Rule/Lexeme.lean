import Recurrence.Text.Slice

namespace Recurrence

inductive LexemeKind where
  | word
  | blank
  | semicolon
  | equals
deriving DecidableEq, Repr

namespace LexemeKind

def ofChar (c : Char) : LexemeKind :=
  if c = ';' then semicolon
  else if c = '=' then equals
  else if c = ' ' ∨ c = '\t' ∨ c = '\r' ∨ c = '\n' then blank
  else word

def Runs : LexemeKind → Prop
  | word | blank => True
  | semicolon | equals => False

instance : DecidablePred Runs
  | word | blank => .isTrue trivial
  | semicolon | equals => .isFalse id

end LexemeKind

structure Lexeme where
  kind : LexemeKind
  slice : Slice
deriving DecidableEq, Repr

namespace Lexeme

/-- Puts a character in front, into the first lexeme if they run together. -/
def cons (c : Char) (start : Nat) : List Lexeme → List Lexeme
  | [] => [⟨.ofChar c, [c], start⟩]
  | first :: rest =>
    if first.kind = .ofChar c ∧ first.kind.Runs then
      ⟨first.kind, c :: first.slice.chars, start⟩ :: rest
    else ⟨.ofChar c, [c], start⟩ :: first :: rest

def scan (start : Nat) : List Char → List Lexeme
  | [] => []
  | c :: text => cons c start (scan (start + c.utf8Size) text)

def chars (lexemes : List Lexeme) : List Char := lexemes.flatMap fun l ↦ l.slice.chars

def trim (lexemes : List Lexeme) : List Lexeme :=
  ((lexemes.dropWhile fun l ↦ l.kind = .blank).reverse.dropWhile fun l ↦ l.kind = .blank).reverse

theorem chars_cons (c : Char) (start : Nat) (lexemes : List Lexeme) :
    chars (cons c start lexemes) = c :: chars lexemes := by
  cases lexemes with
  | nil => rfl
  | cons first rest =>
    rw [cons]
    split <;> rfl

theorem chars_scan (start : Nat) (text : List Char) : chars (scan start text) = text := by
  induction text generalizing start with
  | nil => rfl
  | cons c text ih => rw [scan, chars_cons, ih]

end Lexeme

end Recurrence
