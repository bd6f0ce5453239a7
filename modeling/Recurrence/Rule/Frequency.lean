import Recurrence.Text.Literal

namespace Recurrence

inductive Frequency where
  | daily
  | weekly
  | monthly
  | yearly
deriving DecidableEq, Repr

namespace Frequency

def all : List Frequency := [daily, weekly, monthly, yearly]

def name : Frequency → String
  | daily => "DAILY"
  | weekly => "WEEKLY"
  | monthly => "MONTHLY"
  | yearly => "YEARLY"

def ofName? (text : String) : Option Frequency := literal? all name text

end Frequency

end Recurrence
