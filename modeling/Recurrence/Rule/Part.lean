import Recurrence.Rule.Lexeme
import Recurrence.Rule.Error

namespace Recurrence

structure Part where
  name : Slice
  value : Slice
deriving DecidableEq, Repr

namespace Part

def key (p : Part) : String := String.ofList (p.name.chars.map Char.toUpper)

def ofLexemes? (lexemes : List Lexeme) : Except RuleError (Option Part) :=
  match Lexeme.trim lexemes with
  | [] => .ok none
  | first :: rest =>
    let whole : Slice := ⟨Lexeme.chars (first :: rest), first.slice.start⟩
    match rest.find? fun l ↦ l.kind = .blank with
    | some blank => .error (.innerBlank whole.text blank.slice.span)
    | none =>
      match (first :: rest).span fun l ↦ l.kind ≠ .equals with
      | (_, []) => .error (.missingEquals whole.text whole.span)
      | ([name], equals :: value) => .ok (some ⟨name.slice, Lexeme.chars value, equals.slice.stop⟩)
      | _ => .error (.missingName whole.text whole.span)

def append (parts : List Part) (lexemes : List Lexeme) : Except RuleError (List Part) := do
  match ← ofLexemes? lexemes with
  | none => return parts
  | some part =>
    if parts.any fun p ↦ p.key = part.key then
      throw (.repeatedParam part.key part.name.span)
    else return parts ++ [part]

def scan (text : String) : Except RuleError (List Part) :=
  ((Lexeme.scan 0 text.toList).splitOnP fun l ↦ l.kind = .semicolon).foldlM append []

end Part

end Recurrence
