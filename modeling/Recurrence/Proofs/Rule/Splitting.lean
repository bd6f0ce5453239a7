import Recurrence.Proofs.Rule.Scan

namespace Recurrence.Part

variable {earlier l : List Slice} {t : Slice} {parts : List Part} {e : RuleError}

/-- Why a piece is no part: it has blanks in it, no `=`, or nothing before that. -/
def malformed? (t : Slice) : Option RuleError :=
  if ∃ c ∈ t.chars, isBlank c then some (.innerBlank t.text t.blanks.span)
  else if '=' ∉ t.chars then some (.missingEquals t.text t.span)
  else if t.chars.head? = some '=' then some (.missingName t.text t.span)
  else none

/-- The name of the piece, in whatever case, is that of one before it. -/
def repeated? (earlier : List Slice) (t : Slice) : Option RuleError :=
  if ∃ q ∈ earlier, q.name.upper = t.name.upper then
    some (.repeatedParam t.name.upper t.name.span)
  else none

def fault? (earlier : List Slice) (t : Slice) : Option RuleError :=
  (malformed? t).or (repeated? earlier t)

def ofPiece (t : Slice) : Part := ⟨t.name, t.value⟩

/-- The parts of the pieces that come after others. -/
def divide (earlier : List Slice) : List Slice → Except RuleError (List Part)
  | [] => .ok []
  | t :: l =>
    (fault? earlier t).elim ((divide (earlier ++ [t]) l).map (ofPiece t :: ·)) .error

def Faultless (earlier l : List Slice) : Prop :=
  ∀ before t after, l = before ++ t :: after → fault? (earlier ++ before) t = none

theorem name_eq_nil_iff (h : '=' ∈ t.chars) : t.name.chars = [] ↔ t.chars.head? = some '=' := by
  rw [Slice.chars_eq_name_append h]
  cases hname : t.name.chars with
  | nil => simp
  | cons c name =>
    have hc : decide (c ≠ '=') = true :=
      List.mem_takeWhile_imp (p := (· ≠ '=')) (hname ▸ List.mem_cons_self : c ∈ t.name.chars)
    simpa using hc

theorem ofSlice_eq_elim_malformed? (t : Slice) :
    ofSlice t = (malformed? t).elim (.ok (ofPiece t)) .error := by
  rw [ofSlice, malformed?]
  split
  next => rfl
  next =>
    split
    next => rfl
    next hequals =>
      rw [if_congr (name_eq_nil_iff (not_not.1 hequals)) rfl rfl]
      split
      next => rfl
      next => rfl

theorem add_eq_elim_fault? (hkeys : parts.map key = earlier.map fun q ↦ q.name.upper) :
    add parts t = (fault? earlier t).elim (.ok (parts ++ [ofPiece t])) .error := by
  rw [add, ofSlice_eq_elim_malformed?, fault?]
  cases malformed? t with
  | some e => rfl
  | none =>
    have hrepeated : (∃ p ∈ parts, p.key = t.name.upper) ↔
        ∃ q ∈ earlier, q.name.upper = t.name.upper := by
      rw [← List.mem_map, ← List.mem_map, hkeys]
    rw [repeated?]
    by_cases hkey : ∃ q ∈ earlier, q.name.upper = t.name.upper
    · rw [if_pos hkey]
      exact if_pos (hrepeated.2 hkey)
    · rw [if_neg hkey]
      exact if_neg fun h ↦ hkey (hrepeated.1 h)

/-- Parts found so far are kept by the name that each of them has. -/
theorem foldlM_add_eq_divide (hkeys : parts.map key = earlier.map fun q ↦ q.name.upper) :
    l.foldlM add parts = (divide earlier l).map (parts ++ ·) := by
  induction l generalizing earlier parts with
  | nil =>
    rw [divide, List.foldlM_nil]
    exact congrArg Except.ok (List.append_nil parts).symm
  | cons t l ih =>
    rw [List.foldlM_cons, add_eq_elim_fault? hkeys, divide]
    cases fault? earlier t with
    | some e => rfl
    | none =>
      have hkeys' : (parts ++ [ofPiece t]).map key =
          (earlier ++ [t]).map fun q ↦ q.name.upper := by
        rw [List.map_append, List.map_append, hkeys]
        rfl
      calc
        l.foldlM add (parts ++ [ofPiece t]) =
            (divide (earlier ++ [t]) l).map (parts ++ [ofPiece t] ++ ·) := ih hkeys'
        _ = ((divide (earlier ++ [t]) l).map (ofPiece t :: ·)).map (parts ++ ·) := by
          cases divide (earlier ++ [t]) l with
          | error _ => rfl
          | ok _ => exact congrArg Except.ok (List.append_cons ..).symm

theorem scan_eq_divide_pieces (text : String) : scan text = divide [] (pieces text) := by
  have hkeys : ([] : List Part).map key = ([] : List Slice).map fun q ↦ q.name.upper := rfl
  rw [scan_eq_foldlM, foldlM_add_eq_divide hkeys]
  cases divide [] (pieces text) <;> rfl

theorem faultless_cons :
    Faultless earlier (t :: l) ↔ fault? earlier t = none ∧ Faultless (earlier ++ [t]) l := by
  constructor
  · intro h
    refine ⟨?_, ?_⟩
    · have hfirst := h [] t l rfl
      rwa [List.append_nil] at hfirst
    · rintro before q after rfl
      rw [List.append_assoc]
      exact h (t :: before) q after rfl
  · rintro ⟨hfirst, h⟩ before q after hl
    cases before with
    | nil =>
      obtain ⟨rfl, -⟩ := List.cons.inj hl
      rw [List.append_nil]
      exact hfirst
    | cons _ before =>
      obtain ⟨rfl, hrest⟩ := List.cons.inj hl
      rw [List.append_cons]
      exact h before q after hrest

theorem divide_eq_ok_iff :
    divide earlier l = .ok parts ↔ Faultless earlier l ∧ parts = l.map ofPiece := by
  induction l generalizing earlier parts with
  | nil =>
    have hnone : Faultless earlier [] := by
      intro before t after hnil
      simp at hnil
    rw [divide, Except.ok.injEq, List.map_nil, eq_comm]
    exact (and_iff_right hnone).symm
  | cons t l ih =>
    rw [divide, faultless_cons]
    cases fault? earlier t with
    | some e => simp
    | none =>
      rw [Option.elim_none, map_eq_ok_iff]
      simp only [ih, List.map_cons, true_and]
      constructor
      · rintro ⟨_, ⟨hl, rfl⟩, rfl⟩
        exact ⟨hl, rfl⟩
      · rintro ⟨hl, rfl⟩
        exact ⟨_, ⟨hl, rfl⟩, rfl⟩

theorem divide_eq_error_iff : divide earlier l = .error e ↔ ∃ before t after,
    l = before ++ t :: after ∧ Faultless earlier before ∧ fault? (earlier ++ before) t = some e := by
  have hnone (earlier : List Slice) : Faultless earlier [] := by
    intro before t after hnil
    simp at hnil
  induction l generalizing earlier with
  | nil => simp [divide]
  | cons t l ih =>
    rw [divide]
    cases hfault : fault? earlier t with
    | some f =>
      rw [Option.elim_some, Except.error.injEq]
      constructor
      · rintro rfl
        exact ⟨[], t, l, rfl, hnone earlier, by rwa [List.append_nil]⟩
      · rintro ⟨before, q, after, hl, hbefore, hq⟩
        cases before with
        | nil =>
          obtain ⟨rfl, -⟩ := List.cons.inj hl
          rw [List.append_nil, hfault] at hq
          exact Option.some.inj hq
        | cons _ before =>
          obtain ⟨rfl, -⟩ := List.cons.inj hl
          rw [(faultless_cons.1 hbefore).1] at hfault
          contradiction
    | none =>
      rw [Option.elim_none, map_eq_error_iff]
      refine ih.trans ?_
      constructor
      · rintro ⟨before, q, after, rfl, hbefore, hq⟩
        rw [List.append_assoc] at hq
        exact ⟨t :: before, q, after, rfl, faultless_cons.2 ⟨hfault, hbefore⟩, hq⟩
      · rintro ⟨before, q, after, hl, hbefore, hq⟩
        cases before with
        | nil =>
          obtain ⟨rfl, -⟩ := List.cons.inj hl
          rw [List.append_nil, hfault] at hq
          cases hq
        | cons _ before =>
          obtain ⟨rfl, hrest⟩ := List.cons.inj hl
          rw [List.append_cons] at hq
          exact ⟨before, q, after, hrest, (faultless_cons.1 hbefore).2, hq⟩

/-- A text is divided at its semicolons, and the first piece at fault is reported. The parts are the
pieces, no two of them with the same name, and name and value stand where their spans say. -/
theorem scan_eq_divide (text : String) :
    scan text = divide [] (pieces text) ∧
    (∀ parts, scan text = .ok parts ↔
      Faultless [] (pieces text) ∧ parts = (pieces text).map ofPiece) ∧
    (∀ e, scan text = .error e ↔ ∃ before t after, pieces text = before ++ t :: after ∧
      Faultless [] before ∧ fault? before t = some e) ∧
    ∀ parts, scan text = .ok parts → (parts.map key).Nodup ∧ ∀ p ∈ parts,
      p.name.span.Marks text p.name.text ∧ p.value.span.Marks text p.value.text := by
  have hscan := scan_eq_divide_pieces text
  refine ⟨hscan, ?_, ?_, ?_⟩
  · intro parts
    rw [hscan, divide_eq_ok_iff]
  · intro e
    rw [hscan, divide_eq_error_iff]
    rfl
  · intro parts hparts
    refine ⟨List.pairwise_map.2 (scan_eq_ok_iff.1 hparts).2, ?_⟩
    rw [hscan, divide_eq_ok_iff] at hparts
    obtain ⟨-, rfl⟩ := hparts
    intro p hp
    obtain ⟨t, ht, rfl⟩ := List.mem_map.1 hp
    have hlies : t.LiesIn (Slice.ofString text) := liesIn_of_mem_pieces ht
    exact ⟨(t.name_liesIn.trans hlies).marks, (t.value_liesIn.trans hlies).marks⟩

end Recurrence.Part
