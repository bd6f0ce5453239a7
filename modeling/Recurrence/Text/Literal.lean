namespace Recurrence

/-- The texts differ at most in the case of ASCII letters. -/
def SameLetters (a b : String) : Prop := a.toList.map Char.toUpper = b.toList.map Char.toUpper

instance (a b : String) : Decidable (SameLetters a b) := inferInstanceAs (Decidable (_ = _))

def literal? {α : Type} (all : List α) (name : α → String) (text : String) : Option α :=
  all.find? fun a ↦ SameLetters (name a) text

theorem SameLetters.symm {a b : String} (h : SameLetters a b) : SameLetters b a := Eq.symm h

theorem SameLetters.trans {a b c : String} (h₁ : SameLetters a b) (h₂ : SameLetters b c) :
    SameLetters a c :=
  Eq.trans h₁ h₂

end Recurrence
