import Mathlib.Data.List.Nodup
import Recurrence.Proofs.Rule.Piece
import Recurrence.Proofs.Text.Reading

namespace Recurrence.Part

variable {t : Slice} {p : Part} {parts parts' : List Part} {e : RuleError}

/-- The pieces of the text between semicolons that are not blank, trimmed. -/
def pieces (text : String) : List Slice :=
  (((Slice.ofString text).splitOn ';').map Slice.trim).filter fun t ↦ t.chars ≠ []

theorem liesIn_of_mem_pieces {text : String} (h : t ∈ pieces text) :
    t.LiesIn (Slice.ofString text) := by
  obtain ⟨piece, hpiece, rfl⟩ := List.mem_map.1 (List.mem_of_mem_filter h)
  exact piece.trim_liesIn.trans (Slice.liesIn_of_mem_splitOn hpiece)

def add (parts : List Part) (t : Slice) : Except RuleError (List Part) := do
  let part ← ofSlice t
  if ∃ p ∈ parts, p.key = part.key then throw (.repeatedParam part.key part.name.span)
  else return parts ++ [part]

theorem append_lexemes {s : Slice} (h : ';' ∉ s.chars) (parts : List Part) :
    append parts s.lexemes = if s.trim.chars ≠ [] then add parts s.trim else pure parts := by
  rw [append, ofLexemes?_lexemes h]
  by_cases hnil : s.trim.chars = []
  · rw [if_pos hnil, if_neg (not_not.2 hnil)]
    rfl
  · rw [if_neg hnil, if_pos hnil, add]
    cases ofSlice s.trim with
    | error _ => rfl
    | ok part =>
      have hany : (parts.any fun p ↦ p.key = part.key) = true ↔ ∃ p ∈ parts, p.key = part.key := by
        simp only [List.any_eq_true, decide_eq_true_iff]
      exact if_congr hany rfl rfl

theorem scan_eq_foldlM (text : String) : scan text = (pieces text).foldlM add [] := by
  have hsplit : (Lexeme.scan 0 text.toList).splitOnP (fun l ↦ l.kind = .semicolon) =
      ((Slice.ofString text).splitOn ';').map Slice.lexemes := by
    have hpieces := @Lexeme.splitOnP_scan_intercalate 0 _ (List.splitOn_ne_nil ';' text.toList)
      fun piece ↦ not_mem_of_mem_splitOn
    rwa [List.intercalate_splitOn] at hpieces
  rw [scan, hsplit, pieces, List.foldlM_filter, List.foldlM_map, List.foldlM_map]
  refine foldlM_congr (fun s hs parts ↦ ?_) []
  rw [append_lexemes (Slice.separator_not_mem hs)]
  simp only [decide_eq_true_iff]

theorem add_eq_ok_iff : add parts t = .ok parts' ↔
    ∃ p, ofSlice t = .ok p ∧ (¬ ∃ q ∈ parts, q.key = p.key) ∧ parts' = parts ++ [p] := by
  rw [add, bind_eq_ok_iff]
  refine exists_congr fun p ↦ and_congr_right fun _ ↦ ?_
  split
  next h => exact iff_of_false nofun fun ⟨hne, _⟩ ↦ hne h
  next h =>
    constructor
    · rintro ⟨⟩
      exact ⟨h, rfl⟩
    · rintro ⟨-, rfl⟩
      rfl

theorem add_eq_error_iff : add parts t = .error e ↔ ofSlice t = .error e ∨
    ∃ p, ofSlice t = .ok p ∧ (∃ q ∈ parts, q.key = p.key) ∧
      e = .repeatedParam p.key p.name.span := by
  rw [add, bind_eq_error_iff]
  refine or_congr_right (exists_congr fun p ↦ and_congr_right fun _ ↦ ?_)
  split
  next h =>
    constructor
    · rintro ⟨⟩
      exact ⟨h, rfl⟩
    · rintro ⟨-, rfl⟩
      rfl
  next h => exact iff_of_false nofun fun ⟨hfound, _⟩ ↦ h hfound

def Distinct (parts : List Part) : Prop := parts.Pairwise fun p q ↦ p.key ≠ q.key

theorem foldlM_add_eq_ok_iff {l : List Slice} (h : Distinct parts) :
    l.foldlM add parts = .ok parts' ↔ ∃ added,
      List.Forall₂ (fun t p ↦ ofSlice t = .ok p) l added ∧ parts' = parts ++ added ∧
        Distinct parts' := by
  induction l generalizing parts with
  | nil =>
    constructor
    · rintro ⟨⟩
      exact ⟨[], .nil, (List.append_nil _).symm, h⟩
    · rintro ⟨_, ⟨⟩, rfl, -⟩
      rw [List.append_nil]
      rfl
  | cons t l ih =>
    simp only [List.foldlM_cons, bind_eq_ok_iff, add_eq_ok_iff]
    constructor
    · rintro ⟨_, ⟨p, hp, hne, rfl⟩, hl⟩
      have hdistinct : Distinct (parts ++ [p]) := by
        refine List.pairwise_append.2 ⟨h, List.pairwise_singleton _ _, fun q hq r hr ↦ ?_⟩
        rw [List.mem_singleton.1 hr]
        exact fun hkey ↦ hne ⟨q, hq, hkey⟩
      obtain ⟨added, hadded, rfl, hparts⟩ := (ih hdistinct).1 hl
      exact ⟨p :: added, .cons hp hadded, (List.append_cons ..).symm, hparts⟩
    · rintro ⟨_, hforall, rfl, hparts⟩
      obtain ⟨p, added, hp, hadded, rfl⟩ := List.forall₂_cons_left_iff.1 hforall
      have hne : ¬ ∃ q ∈ parts, q.key = p.key := by
        rintro ⟨q, hq, hkey⟩
        exact (List.pairwise_append.1 hparts).2.2 q hq p List.mem_cons_self hkey
      have hdistinct : Distinct (parts ++ [p]) := by
        rw [List.append_cons] at hparts
        exact (List.pairwise_append.1 hparts).1
      exact ⟨parts ++ [p], ⟨p, hp, hne, rfl⟩,
        (ih hdistinct).2 ⟨added, hadded, List.append_cons .., hparts⟩⟩

theorem scan_eq_ok_iff {text : String} : scan text = .ok parts ↔
    List.Forall₂ (fun t p ↦ ofSlice t = .ok p) (pieces text) parts ∧ Distinct parts := by
  have hnil : Distinct [] := .nil
  rw [scan_eq_foldlM, foldlM_add_eq_ok_iff hnil]
  constructor
  · rintro ⟨_, hforall, rfl, hdistinct⟩
    exact ⟨hforall, hdistinct⟩
  · rintro ⟨hforall, hdistinct⟩
    exact ⟨parts, hforall, rfl, hdistinct⟩

theorem map_key_eq {l : List Slice} (h : List.Forall₂ (fun t p ↦ ofSlice t = .ok p) l parts) :
    parts.map key = l.map fun t ↦ t.name.upper := by
  induction h with
  | nil => rfl
  | cons hp _ ih =>
    obtain ⟨-, -, -, rfl⟩ := ofSlice_eq_ok_iff.1 hp
    rw [List.map_cons, List.map_cons, ih]
    rfl

/-- The first piece at fault is no part, or its name is that of exactly one piece before it. -/
theorem exists_of_scan_eq_error {text : String} (h : scan text = .error e) :
    ∃ before t after, pieces text = before ++ t :: after ∧ (ofSlice t = .error e ∨
      (before.map fun q ↦ q.name.upper).count t.name.upper = 1 ∧
        e = .repeatedParam t.name.upper t.name.span) := by
  rw [scan_eq_foldlM, foldlM_eq_error_iff] at h
  obtain ⟨before, t, after, parts, htext, hbefore, ht⟩ := h
  refine ⟨before, t, after, htext, ?_⟩
  obtain ht | ⟨p, hp, ⟨q, hq, hkey⟩, rfl⟩ := add_eq_error_iff.1 ht
  · exact .inl ht
  · have hnil : Distinct [] := .nil
    obtain ⟨_, hforall, rfl, hdistinct⟩ := (foldlM_add_eq_ok_iff hnil).1 hbefore
    have hnodup : (parts.map key).Nodup := List.pairwise_map.2 hdistinct
    obtain ⟨-, -, -, rfl⟩ := ofSlice_eq_ok_iff.1 hp
    refine .inr ⟨?_, rfl⟩
    rw [← map_key_eq hforall]
    exact List.count_eq_one_of_mem hnodup (List.mem_map.2 ⟨q, hq, hkey⟩)

end Recurrence.Part
