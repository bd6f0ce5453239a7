import Recurrence.Zone.Basic
import Recurrence.Text.Literal

namespace Recurrence.Zone

/-- Clocks go forward in the first change and back in the second. -/
def northern (standard daylight : Offset) (begins ends : SundayRule)
    (beginMonth endMonth beginMinute endMinute : Nat) : Zone :=
  .seasonal ⟨beginMonth, begins, beginMinute, standard, daylight⟩
    ⟨endMonth, ends, endMinute, daylight, standard⟩

/-- Clocks go back in April and forward in October. -/
def southern (standard daylight : Offset) (beginMinute endMinute : Nat) : Zone :=
  .seasonal ⟨4, .nth 1, endMinute, daylight, standard⟩
    ⟨10, .nth 1, beginMinute, standard, daylight⟩

def east (minutes : Int) (h₁ : -1560 < minutes := by decide)
    (h₂ : minutes < 1560 := by decide) : Offset :=
  ⟨minutes, h₁, h₂⟩

def utc : Zone := .fixed .utc

def newYork : Zone :=
  northern (east (-300)) (east (-240)) (.nth 2) (.nth 1) 3 11 120 120

def havana : Zone :=
  northern (east (-300)) (east (-240)) (.nth 2) (.nth 1) 3 11 0 60

def berlin : Zone :=
  northern (east 60) (east 120) .last .last 3 10 120 180

def london : Zone :=
  northern .utc (east 60) .last .last 3 10 60 120

def sydney : Zone := southern (east 600) (east 660) 120 180

def lordHowe : Zone := southern (east 630) (east 660) 120 120

/-- The one change of the clocks of Samoa that skipped 2011-12-30. They do not change again, and did
not before. -/
def apia : Zone :=
  .shifted ⟨(Date.civilNumber 2011 12 30 * 1440 + 600) * 60000000000, east (-600), east 840⟩

/-- A zone keeps one set of rules for all years, the one that its clocks have followed from 2019 on,
and Samoa that of the end of 2011. This is no history of the zones. -/
def named : List (String × Zone) := [
  ("UTC", utc),
  ("America/New_York", newYork),
  ("America/Havana", havana),
  ("Europe/Berlin", berlin),
  ("Europe/London", london),
  ("Australia/Sydney", sydney),
  ("Australia/Lord_Howe", lordHowe),
  ("Asia/Tokyo", .fixed (east 540)),
  ("Asia/Kolkata", .fixed (east 330)),
  ("Pacific/Kiritimati", .fixed (east 840)),
  ("Etc/GMT+12", .fixed (east (-720))),
  ("Etc/GMT-14", .fixed (east 840)),
  ("Pacific/Apia", apia)]

def named? (name : String) : Option Zone :=
  (named.find? fun entry ↦ SameLetters entry.1 name).map (·.2)

end Recurrence.Zone
