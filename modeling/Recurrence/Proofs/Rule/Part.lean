import Recurrence.Proofs.Rule.Setting
import Recurrence.Rule.Parser

namespace Recurrence

theorem Param.name_injective : Function.Injective name := by
  intro a b h
  have hname : ofName? a.name = ofName? b.name := congrArg ofName? h
  rwa [ofName?_name, ofName?_name, Option.some.injEq] at hname

theorem Param.name_ne_nil (p : Param) : p.name.toList ≠ [] := by
  cases p <;> decide

theorem Param.map_toUpper_name (p : Param) : p.name.toList.map Char.toUpper = p.name.toList := by
  cases p <;> decide

theorem Param.isWord_of_mem_name {p : Param} {c : Char} (h : c ∈ p.name.toList) :
    LexemeKind.ofChar c = .word := by
  have hletters : p.name.toList.all Char.isAlphanum := by cases p <;> decide
  exact LexemeKind.ofChar_of_isAlphanum (List.all_eq_true.1 hletters c h)

namespace Part

/-- The part has the name of the setting's parameter and is read as the setting. -/
structure Writes (p : Part) (s : Setting) : Prop where
  key_eq : p.key = s.param.name
  setting_eq : p.setting = .ok s

theorem fits_of_setting {p : Part} {s : Setting} (h : p.setting = .ok s) : s.Fits := by
  rw [setting] at h
  split at h
  next => exact (Setting.fits_of_read h).1
  next => cases h

theorem ofLexemes?_scan {name value : List Char} (start : Nat) (hname : name ≠ [])
    (hvalue : value ≠ []) (hnameWord : ∀ c ∈ name, LexemeKind.ofChar c = .word)
    (hvalueWord : ∀ c ∈ value, LexemeKind.ofChar c = .word) :
    ofLexemes? (Lexeme.scan start (name ++ '=' :: value)) =
      .ok (some ⟨⟨name, start⟩, ⟨value, start + utf8Length name + 1⟩⟩) := by
  have hruns : LexemeKind.word.Runs := trivial
  rw [Lexeme.scan_append (by decide), Lexeme.scan_eq_singleton hruns hname hnameWord,
    Lexeme.scan_eq_singleton hruns hvalue hvalueWord]
  let last : Lexeme := ⟨.word, value, start + utf8Length name + '='.utf8Size⟩
  have hlast : Lexeme.chars [last] = value := by
    rw [Lexeme.chars, List.flatMap_singleton]
  calc
    ofLexemes? [⟨.word, name, start⟩, ⟨.equals, ['='], start + utf8Length name⟩, last]
        = .ok (some ⟨⟨name, start⟩, ⟨Lexeme.chars [last], start + utf8Length name + 1⟩⟩) := rfl
    _ = .ok (some ⟨⟨name, start⟩, ⟨value, start + utf8Length name + 1⟩⟩) := by rw [hlast]

theorem exists_ofLexemes?_chars {s : Setting} (h : s.Fits) (start : Nat) :
    ∃ p : Part, ofLexemes? (Lexeme.scan start s.chars) = .ok (some p) ∧ p.Writes s := by
  let p : Part := ⟨⟨s.param.name.toList, start⟩,
    ⟨s.valueChars, start + utf8Length s.param.name.toList + 1⟩⟩
  have hkey : p.key = s.param.name := by
    rw [key, Param.map_toUpper_name, String.ofList_toList]
  refine ⟨p, ofLexemes?_scan start s.param.name_ne_nil (Setting.valueChars_ne_nil h)
    (fun _ ↦ Param.isWord_of_mem_name) (fun _ ↦ Setting.isWord_valueChars), hkey, ?_⟩
  rw [setting, hkey, Param.ofName?_name]
  exact Setting.read_eq_ok h rfl

theorem append_eq_ok {parts : List Part} {p : Part} {lexemes : List Lexeme}
    (hp : ofLexemes? lexemes = .ok (some p)) (h : ∀ q ∈ parts, q.key ≠ p.key) :
    append parts lexemes = .ok (parts ++ [p]) := by
  have hany : ¬ parts.any (fun q ↦ q.key = p.key) := by simpa using h
  rw [append, hp]
  exact if_neg hany

theorem exists_foldlM_append {settings done : List Setting} {parts : List Part} {start : Nat}
    (hfits : ∀ s ∈ settings, s.Fits)
    (hdistinct : (done ++ settings).Pairwise fun a b ↦ a.param ≠ b.param)
    (hparts : List.Forall₂ Writes parts done) :
    ∃ parts', ((Slice.locate 1 start (settings.map Setting.chars)).map
        fun s ↦ Lexeme.scan s.start s.chars).foldlM append parts = .ok parts' ∧
      List.Forall₂ Writes parts' (done ++ settings) := by
  -- `done` are the settings of the parts so far; none of them has the next parameter.
  induction settings generalizing done parts start with
  | nil => exact ⟨parts, rfl, by rwa [List.append_nil]⟩
  | cons s settings ih =>
    obtain ⟨p, hp, hwrites⟩ := exists_ofLexemes?_chars (hfits s List.mem_cons_self) start
    have hkey (q : Part) (hq : q ∈ parts) : q.key ≠ p.key := by
      obtain ⟨t, ht, hqt⟩ := exists_mem_of_forall₂ hparts.flip hq
      have hts : t.param ≠ s.param :=
        (List.pairwise_append.1 hdistinct).2.2 t ht s List.mem_cons_self
      rw [hqt.key_eq, hwrites.key_eq]
      exact Param.name_injective.ne hts
    rw [List.append_cons] at hdistinct ⊢
    rw [List.map_cons, Slice.locate, List.map_cons, List.foldlM_cons, append_eq_ok hp hkey]
    exact ih (fun t ht ↦ hfits t (List.mem_cons_of_mem s ht)) hdistinct
      (List.rel_append hparts (.cons hwrites .nil))

theorem semicolon_not_mem_chars (s : Setting) : ';' ∉ s.chars := by
  intro h
  obtain h | h := List.mem_append.1 h
  · have hword := Param.isWord_of_mem_name h
    contradiction
  · obtain h | h := List.mem_cons.1 h
    · contradiction
    · have hword := Setting.isWord_valueChars h
      contradiction

theorem exists_scan_eq_ok {settings : List Setting} (hne : settings ≠ [])
    (hfits : ∀ s ∈ settings, s.Fits)
    (hdistinct : settings.Pairwise fun a b ↦ a.param ≠ b.param) :
    ∃ parts, Part.scan (String.ofList ([';'].intercalate (settings.map Setting.chars))) =
        .ok parts ∧ List.Forall₂ Writes parts settings := by
  have hsemicolon (piece : List Char) (hpiece : piece ∈ settings.map Setting.chars) :
      ';' ∉ piece := by
    obtain ⟨s, -, rfl⟩ := List.mem_map.1 hpiece
    exact semicolon_not_mem_chars s
  have hmap : settings.map Setting.chars ≠ [] := by rwa [ne_eq, List.map_eq_nil_iff]
  rw [Part.scan, String.toList_ofList, Lexeme.splitOnP_scan_intercalate hmap hsemicolon]
  exact @exists_foldlM_append settings [] [] 0 hfits hdistinct .nil

end Part

end Recurrence
