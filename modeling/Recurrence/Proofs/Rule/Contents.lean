import Recurrence.Proofs.Rule.Blame
import Recurrence.Proofs.Rule.Refusal
import Recurrence.Proofs.Rule.RoundTrip
import Recurrence.Proofs.Rule.Verdict

namespace Recurrence

def content (piece : List Char) : List Char := (piece.dropWhile isBlank).rdropWhile isBlank

/-- What stands in the pieces in which there is more than blanks. -/
def contents (pieces : List (List Char)) : List (List Char) :=
  (pieces.map content).filter fun piece ↦ piece ≠ []

theorem map_chars_pieces (text : String) :
    (Part.pieces text).map Slice.chars = contents (text.toList.splitOn ';') := by
  have hchars : ((Slice.ofString text).splitOn ';').map Slice.chars = text.toList.splitOn ';' :=
    Slice.map_chars_splitOn _ _
  rw [Part.pieces, contents, ← hchars, List.map_map, List.filter_map, List.filter_map,
    List.map_map]
  rfl

theorem contents_append (pieces pieces' : List (List Char)) :
    contents (pieces ++ pieces') = contents pieces ++ contents pieces' := by
  simp only [contents, List.map_append, List.filter_append]

theorem Setting.read_eq_ok_iff_start {param : Param} {raw : Slice} {s : Setting} :
    read param raw = .ok s ↔ read param ⟨raw.chars, 0⟩ = .ok s := by
  have hshift : read param raw = (read param ⟨raw.chars, 0⟩).mapError (RuleError.shift raw.start) :=
    read_shift raw.start param ⟨raw.chars, 0⟩
  rw [hshift]
  cases read param ⟨raw.chars, 0⟩ <;> simp [Except.mapError]

/-- The piece is a name in letters of either case and a value that is read as the setting. -/
structure Sets (piece : List Char) (s : Setting) : Prop where
  blank_not_mem : ∀ c ∈ piece, isBlank c = false
  exists_value : ∃ name value, piece = name ++ '=' :: value ∧ '=' ∉ name ∧
    name.map Char.toUpper = s.param.name.toList ∧ Setting.read s.param ⟨value, 0⟩ = .ok s

theorem name_value_chars {t : Slice} {name value : List Char} (h : t.chars = name ++ '=' :: value)
    (hname : '=' ∉ name) : t.name.chars = name ∧ t.value.chars = value := by
  have hne : ∀ c ∈ name, decide (c ≠ '=') = true := by
    intro c hc
    apply decide_eq_true
    rintro rfl
    exact hname hc
  have hhead : ∀ c ∈ ('=' :: value).head?, decide (c ≠ '=') = false := by simp
  obtain ⟨htake, hdrop⟩ := takeWhile_dropWhile_append hne hhead
  refine ⟨?_, ?_⟩
  · rw [Slice.name, Slice.takeWhile, h, htake]
  · rw [Slice.value, Slice.tail, Slice.dropWhile, h, hdrop, List.tail_cons]

theorem exists_ofSlice_iff_sets {t : Slice} {s : Setting} :
    (∃ p, Part.ofSlice t = .ok p ∧ p.setting = .ok s) ↔ Sets t.chars s := by
  constructor
  · rintro ⟨p, hp, hs⟩
    obtain ⟨hblank, hequals, -, rfl⟩ := Part.ofSlice_eq_ok_iff.1 hp
    have hkey := Part.key_eq_of_setting hs
    refine ⟨?_, t.name.chars, t.value.chars, Slice.chars_eq_name_append hequals, ?_, ?_, ?_⟩
    · simpa using hblank
    · intro hmem
      have hne : decide ('=' ≠ '=') = true := List.mem_takeWhile_imp (p := (· ≠ '=')) hmem
      simp at hne
    · rw [← hkey, Part.key, String.toList_ofList]
    · rw [Part.setting, hkey, Param.ofName?_name] at hs
      exact Setting.read_eq_ok_iff_start.1 hs
  · rintro ⟨hblank, name, value, hchars, hname, hletters, hread⟩
    obtain ⟨hn, hv⟩ := name_value_chars hchars hname
    refine ⟨⟨t.name, t.value⟩, Part.ofSlice_eq_ok_iff.2 ⟨?_, ?_, ?_, rfl⟩, ?_⟩
    · simpa using hblank
    · simp [hchars]
    · rintro hnil
      rw [← hn, hnil] at hletters
      exact s.param.name_ne_nil hletters.symm
    · have hkey : Part.key ⟨t.name, t.value⟩ = s.param.name := by
        rw [Part.key, hn, hletters, String.ofList_toList]
      rw [Part.setting, hkey, Param.ofName?_name]
      apply Setting.read_eq_ok_iff_start.2
      rwa [hv]

/-- No two settings of a draft have the same parameter, so no two parts have the same name. -/
theorem Draft.distinct_of_forall₂ {d : Draft} {parts : List Part}
    (h : List.Forall₂ (fun p s ↦ p.setting = .ok s) parts d.settings) : Part.Distinct parts := by
  have hkeys : parts.map Part.key = d.settings.map fun s ↦ s.param.name := by
    rw [← List.forall₂_eq_eq_eq, List.forall₂_map_left_iff, List.forall₂_map_right_iff]
    apply h.imp
    intro p s hs
    exact Part.key_eq_of_setting hs
  apply List.pairwise_map.1
  rw [hkeys]
  apply List.pairwise_map.2
  apply d.distinct.imp
  intro a b hab
  exact Param.name_injective.ne hab

/-- What stands in the pieces are the settings of a draft that makes the rule. -/
def Gives (pieces : List (List Char)) (r : Rule) : Prop :=
  ∃ d : Draft, List.Forall₂ Sets (contents pieces) d.settings ∧ d.build = .ok r

theorem Rule.parse_eq_ok_iff_gives {text : String} {r : Rule} :
    parse text = .ok r ↔ Gives (text.toList.splitOn ';') r := by
  simp only [Gives, parse_eq_ok_iff, Part.scan_eq_ok_iff, Draft.ofParts_eq_ok_iff, ← map_chars_pieces,
    List.forall₂_map_left_iff, ← exists_ofSlice_iff_sets]
  constructor
  · rintro ⟨parts, ⟨hparts, -⟩, d, hd, hbuild⟩
    exact ⟨d, exists_forall₂_comp_iff.1 ⟨parts, hparts, hd⟩, hbuild⟩
  · rintro ⟨d, hd, hbuild⟩
    obtain ⟨parts, hparts, hsettings⟩ := exists_forall₂_comp_iff.2 hd
    exact ⟨parts, ⟨hparts, d.distinct_of_forall₂ hsettings⟩, d, hsettings, hbuild⟩

namespace Draft

variable {d d' : Draft}

theorem setting?_eq_some_iff {p : Param} {s : Setting} :
    d.setting? p = some s ↔ s ∈ d.settings ∧ s.param = p := by
  constructor
  · exact of_setting?_eq_some
  · rintro ⟨hs, rfl⟩
    obtain ⟨t, ht⟩ := Option.ne_none_iff_exists'.1 (setting?_ne_none_iff.2 ⟨s, hs, rfl⟩)
    obtain ⟨hmem, hparam⟩ := of_setting?_eq_some ht
    have hnodup : (d.settings.map Setting.param).Nodup := List.pairwise_map.2 d.distinct
    rw [ht, List.inj_on_of_nodup_map hnodup hmem hs hparam]

theorem build_eq_of_perm (h : d.settings.Perm d'.settings) : d.build = d'.build := by
  apply build_congr
  funext p
  ext s
  rw [setting?_eq_some_iff, setting?_eq_some_iff, h.mem_iff]

end Draft

theorem Gives.of_perm {pieces pieces' : List (List Char)} {r : Rule} (h : pieces.Perm pieces')
    (hgives : Gives pieces' r) : Gives pieces r := by
  have hcontents : (contents pieces).Perm (contents pieces') := (h.map content).filter _
  obtain ⟨d, hsets, hbuild⟩ := hgives
  obtain ⟨settings, hsettings, hperm⟩ := List.perm_comp_forall₂ hcontents hsets
  have hdistinct : settings.Pairwise fun a b ↦ a.param ≠ b.param :=
    (hperm.pairwise_iff fun hab ↦ hab.symm).2 d.distinct
  refine ⟨⟨settings, hdistinct⟩, hsettings, ?_⟩
  rw [← hbuild]
  exact Draft.build_eq_of_perm hperm

end Recurrence
