namespace Recurrence

inductive Weekday where
  | monday
  | tuesday
  | wednesday
  | thursday
  | friday
  | saturday
  | sunday
deriving DecidableEq, Repr

namespace Weekday

def all : List Weekday :=
  [monday, tuesday, wednesday, thursday, friday, saturday, sunday]

def index : Weekday → Nat
  | monday => 0
  | tuesday => 1
  | wednesday => 2
  | thursday => 3
  | friday => 4
  | saturday => 5
  | sunday => 6

def ofIndex (n : Int) : Weekday :=
  match (n % 7).toNat with
  | 0 => monday
  | 1 => tuesday
  | 2 => wednesday
  | 3 => thursday
  | 4 => friday
  | 5 => saturday
  | _ => sunday

def code : Weekday → String
  | monday => "MO"
  | tuesday => "TU"
  | wednesday => "WE"
  | thursday => "TH"
  | friday => "FR"
  | saturday => "SA"
  | sunday => "SU"

theorem mem_all (w : Weekday) : w ∈ all := by cases w <;> decide

theorem index_lt (w : Weekday) : w.index < 7 := by cases w <;> decide

@[simp]
theorem ofIndex_index (w : Weekday) : ofIndex w.index = w := by cases w <;> rfl

theorem index_ofIndex (n : Int) : ((ofIndex n).index : Int) = n % 7 := by
  have h : n % 7 = ((n % 7).toNat : Int) := by omega
  have hlt : (n % 7).toNat < 7 := by omega
  unfold ofIndex
  rw [h]
  generalize (n % 7).toNat = k at hlt ⊢
  match k, hlt with
  | 0, _ | 1, _ | 2, _ | 3, _ | 4, _ | 5, _ | 6, _ => rfl

end Weekday

end Recurrence
