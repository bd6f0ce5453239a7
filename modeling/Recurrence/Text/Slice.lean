namespace Recurrence

structure Span where
  start : Nat
  stop : Nat
deriving DecidableEq, Repr

def utf8Length : List Char → Nat
  | [] => 0
  | c :: text => c.utf8Size + utf8Length text

/-- Consecutive characters of a text, and the byte offset of the first of them. -/
structure Slice where
  chars : List Char
  start : Nat
deriving DecidableEq, Repr

namespace Slice

def ofString (text : String) : Slice := ⟨text.toList, 0⟩

def text (s : Slice) : String := String.ofList s.chars

def stop (s : Slice) : Nat := s.start + utf8Length s.chars

def span (s : Slice) : Span := ⟨s.start, s.stop⟩

/-- Locates pieces that follow each other, with a gap of so many bytes between them. -/
def locate (gap : Nat) : Nat → List (List Char) → List Slice
  | _, [] => []
  | start, piece :: pieces => ⟨piece, start⟩ :: locate gap (start + utf8Length piece + gap) pieces

def splitOn (separator : Char) (s : Slice) : List Slice :=
  locate separator.utf8Size s.start (s.chars.splitOn separator)

@[simp]
theorem utf8Length_nil : utf8Length [] = 0 := rfl

@[simp]
theorem utf8Length_cons (c : Char) (cs : List Char) :
    utf8Length (c :: cs) = c.utf8Size + utf8Length cs := rfl

@[simp]
theorem utf8Length_append (cs ds : List Char) :
    utf8Length (cs ++ ds) = utf8Length cs + utf8Length ds := by
  induction cs with
  | nil => simp
  | cons c cs ih => simp [ih, Nat.add_assoc]

@[simp]
theorem locate_map_chars (gap start : Nat) (pieces : List (List Char)) :
    (locate gap start pieces).map chars = pieces := by
  induction pieces generalizing start with
  | nil => rfl
  | cons piece pieces ih => simp [locate, ih]

end Slice

end Recurrence
