import Mathlib
import Recurrence.Proofs.Text.Slice
import Recurrence.Text.Literal

namespace Recurrence

section

variable {c d : Char}

theorem toUpper_eq_of_not_isAlpha (h : c.isAlpha = false) : c.toUpper = c := by
  apply Char.toUpper_eq_of_not_isLower
  intro hlower
  simp [Char.isAlpha, hlower] at h

theorem isDigit_eq_false_of_isAlpha (h : c.isAlpha) : c.isDigit = false := by
  simp only [Char.isAlpha, Char.isUpper, Char.isLower, Bool.or_eq_true, Bool.and_eq_true,
    decide_eq_true_eq, UInt32.le_iff_toNat_le, ge_iff_le] at h
  simp only [Char.isDigit, Bool.and_eq_false_iff, decide_eq_false_iff_not, UInt32.le_iff_toNat_le,
    ge_iff_le]
  simp at h ⊢
  omega

theorem eq_of_toUpper_eq (h : c.toUpper = d.toUpper) (hc : c.isAlpha = false) : c = d := by
  have hd : d.isAlpha = false := by
    rw [← Char.isAlpha_toUpper_eq_isAlpha, ← h, Char.isAlpha_toUpper_eq_isAlpha, hc]
  rwa [toUpper_eq_of_not_isAlpha hc, toUpper_eq_of_not_isAlpha hd] at h

/-- A condition that no letter meets does not depend on the case. -/
theorem comp_toUpper_eq {p : Char → Bool} (hp : ∀ c, c.isAlpha → p c = false) :
    p ∘ Char.toUpper = p := by
  funext c
  cases hc : c.isAlpha with
  | false => rw [Function.comp_apply, toUpper_eq_of_not_isAlpha hc]
  | true =>
    have hupper : c.toUpper.isAlpha := by rw [Char.isAlpha_toUpper_eq_isAlpha, hc]
    rw [Function.comp_apply, hp _ hupper, hp c hc]

variable {cs ds : List Char}

theorem eq_of_map_toUpper_eq (h : cs.map Char.toUpper = ds.map Char.toUpper)
    (hcs : ∀ c ∈ cs, c.isAlpha = false) : cs = ds := by
  induction cs generalizing ds with
  | nil =>
    symm
    simpa using h
  | cons c cs ih =>
    obtain ⟨d, ds, rfl, hd, hds⟩ := List.map_eq_cons_iff.1 h.symm
    have hc : c = d := eq_of_toUpper_eq hd.symm (hcs c List.mem_cons_self)
    rw [hc, ih hds.symm fun e he ↦ hcs e (List.mem_cons_of_mem c he)]

theorem mem_iff_of_map_toUpper_eq (h : cs.map Char.toUpper = ds.map Char.toUpper)
    (hc : c.isAlpha = false) : c ∈ cs ↔ c ∈ ds := by
  have hself (cs : List Char) : c ∈ cs ↔ c ∈ cs.map Char.toUpper := by
    rw [List.mem_map]
    constructor
    · intro hmem
      exact ⟨c, hmem, toUpper_eq_of_not_isAlpha hc⟩
    · rintro ⟨d, hmem, hd⟩
      rw [← toUpper_eq_of_not_isAlpha hc] at hd
      rwa [eq_of_toUpper_eq hd.symm hc]
  rw [hself cs, hself ds, h]

theorem map_toUpper_splitOn {separator : Char} (h : separator.isAlpha = false) (cs : List Char) :
    (cs.splitOn separator).map (List.map Char.toUpper) =
      (cs.map Char.toUpper).splitOn separator := by
  have hjoin (pieces : List (List Char)) : ([separator].intercalate pieces).map Char.toUpper =
      [separator].intercalate (pieces.map (List.map Char.toUpper)) := by
    induction pieces with
    | nil => rfl
    | cons piece pieces ih =>
      cases pieces with
      | nil => simp
      | cons next pieces =>
        rw [List.map_cons] at ih
        simp [List.intercalate_cons_cons, ih, toUpper_eq_of_not_isAlpha h]
  have hpieces : ∀ piece ∈ (cs.splitOn separator).map (List.map Char.toUpper),
      separator ∉ piece := by
    intro piece hpiece
    obtain ⟨piece, hmem, rfl⟩ := List.mem_map.1 hpiece
    have hsame : piece.map Char.toUpper = (piece.map Char.toUpper).map Char.toUpper := by
      simp [Char.toUpper_toUpper_eq_toUpper]
    rw [← mem_iff_of_map_toUpper_eq hsame h]
    exact not_mem_of_mem_splitOn hmem
  have hne : (cs.splitOn separator).map (List.map Char.toUpper) ≠ [] := by
    rw [ne_eq, List.map_eq_nil_iff]
    exact List.splitOn_ne_nil separator cs
  rw [← List.splitOn_intercalate separator hpieces hne, ← hjoin, List.intercalate_splitOn]

section

variable {p : Char → Bool} (hp : ∀ c, c.isAlpha → p c = false)

include hp

theorem forall_eq_false_iff_of_map_toUpper_eq (h : cs.map Char.toUpper = ds.map Char.toUpper) :
    (∀ c ∈ cs, p c = false) ↔ ∀ c ∈ ds, p c = false := by
  have hto {cs ds : List Char} (h : cs.map Char.toUpper = ds.map Char.toUpper)
      (hcs : ∀ c ∈ cs, p c = false) : ∀ c ∈ ds, p c = false := by
    intro c hc
    cases halpha : c.isAlpha with
    | false => exact hcs c ((mem_iff_of_map_toUpper_eq h halpha).2 hc)
    | true => exact hp c halpha
  exact ⟨hto h, hto h.symm⟩

theorem map_toUpper_dropWhile (cs : List Char) :
    (cs.dropWhile p).map Char.toUpper = (cs.map Char.toUpper).dropWhile p := by
  rw [List.dropWhile_map, comp_toUpper_eq hp]

theorem map_toUpper_rdropWhile (cs : List Char) :
    (cs.rdropWhile p).map Char.toUpper = (cs.map Char.toUpper).rdropWhile p := by
  rw [List.rdropWhile, List.rdropWhile, List.map_reverse, map_toUpper_dropWhile hp,
    List.map_reverse]

end

end

section

variable {α : Type} {all : List α} {name : α → String} {a : α} {text : String}

theorem literal?_eq_some_iff (hall : ∀ a, a ∈ all)
    (hname : ∀ a b, SameLetters (name a) (name b) → a = b) :
    literal? all name text = some a ↔ SameLetters (name a) text := by
  constructor
  · intro h
    have hfound := List.find?_some h
    simpa using hfound
  · intro h
    cases hfind : literal? all name text with
    | none =>
      have hnone := List.find?_eq_none.1 hfind a (hall a)
      simp [h] at hnone
    | some b =>
      have hb := List.find?_some hfind
      have hsame : SameLetters (name b) text := by simpa using hb
      rw [hname b a (hsame.trans h.symm)]

theorem literal?_congr {text' : String} (h : SameLetters text text') :
    literal? all name text = literal? all name text' := by
  rw [literal?, literal?]
  congr 1
  funext a
  rw [decide_eq_decide]
  constructor
  · intro ha
    exact ha.trans h
  · intro ha
    exact ha.trans h.symm

end

end Recurrence
