import Recurrence.Rule.Lexeme

namespace Recurrence

namespace LexemeKind

variable {c : Char}

theorem ofChar_eq_word (h₁ : c ≠ ';') (h₂ : c ≠ '=') (h₃ : c ≠ ' ') (h₄ : c ≠ '\t') (h₅ : c ≠ '\r')
    (h₆ : c ≠ '\n') : ofChar c = word := by
  simp only [ofChar, h₁, h₂, h₃, h₄, h₅, h₆, or_self, if_false]

theorem ofChar_of_isAlphanum (h : c.isAlphanum) : ofChar c = word := by
  apply ofChar_eq_word <;> (rintro rfl; contradiction)

theorem ofChar_eq_semicolon_iff : ofChar c = semicolon ↔ c = ';' := by
  rw [ofChar]
  split
  next h => exact iff_of_true rfl h
  next h =>
    refine iff_of_false ?_ h
    split
    · exact nofun
    · split <;> exact nofun

end LexemeKind

namespace Lexeme

open LexemeKind (ofChar)

variable {c : Char} {start : Nat}

theorem cons_of_not_runs (h : ¬ (ofChar c).Runs) (lexemes : List Lexeme) :
    cons c start lexemes = ⟨ofChar c, [c], start⟩ :: lexemes := by
  cases lexemes with
  | nil => rfl
  | cons first rest =>
    rw [cons, if_neg]
    rintro ⟨hkind, hruns⟩
    exact h (hkind ▸ hruns)

theorem exists_cons_eq (c : Char) (start : Nat) (lexemes : List Lexeme) :
    ∃ first rest, cons c start lexemes = first :: rest ∧ first.kind = ofChar c ∧
      first.slice.start = start := by
  cases lexemes with
  | nil => exact ⟨_, _, rfl, rfl, rfl⟩
  | cons first rest =>
    rw [cons]
    split
    next h => exact ⟨_, _, rfl, h.1, rfl⟩
    next => exact ⟨_, _, rfl, rfl, rfl⟩

theorem cons_append {lexemes : List Lexeme} (h : lexemes ≠ []) (rest : List Lexeme) :
    cons c start (lexemes ++ rest) = cons c start lexemes ++ rest := by
  cases lexemes with
  | nil => exact absurd rfl h
  | cons first lexemes =>
    rw [List.cons_append, cons, cons]
    split <;> rfl

theorem scan_eq_nil_iff {text : List Char} : scan start text = [] ↔ text = [] := by
  cases text with
  | nil => exact iff_of_true rfl rfl
  | cons c text =>
    obtain ⟨first, rest, h, -⟩ := exists_cons_eq c start (scan (start + c.utf8Size) text)
    rw [scan, h]
    exact iff_of_false (List.cons_ne_nil _ _) (List.cons_ne_nil _ _)

theorem map_kind_head?_scan {text : List Char} :
    (scan start text).head?.map kind = text.head?.map ofChar := by
  cases text with
  | nil => rfl
  | cons c text =>
    obtain ⟨first, rest, h, hkind, -⟩ := exists_cons_eq c start (scan (start + c.utf8Size) text)
    rw [scan, h]
    exact congrArg some hkind

theorem map_kind_getLast?_cons {lexemes : List Lexeme} (h : lexemes ≠ []) :
    (cons c start lexemes).getLast?.map kind = lexemes.getLast?.map kind := by
  cases lexemes with
  | nil => exact absurd rfl h
  | cons first rest =>
    rw [cons]
    split
    next => cases rest <;> rfl
    next => rfl

theorem map_kind_getLast?_scan {text : List Char} :
    (scan start text).getLast?.map kind = text.getLast?.map ofChar := by
  induction text generalizing start with
  | nil => rfl
  | cons c text ih =>
    cases text with
    | nil => rfl
    | cons d text =>
      rw [scan, map_kind_getLast?_cons (mt scan_eq_nil_iff.1 (List.cons_ne_nil d text)), ih,
        List.getLast?_cons_cons]

/-- The characters at the boundary of the two texts are in different lexemes. -/
def Parted (text rest : List Char) : Prop :=
  ∀ c ∈ text.getLast?, ∀ d ∈ rest.head?, ofChar c = ofChar d → ¬ (ofChar c).Runs

theorem scan_append_of_parted {text rest : List Char} (h : Parted text rest) :
    scan start (text ++ rest) = scan start text ++ scan (start + utf8Length text) rest := by
  induction text generalizing start with
  | nil => rfl
  | cons c text ih =>
    cases text with
    | nil =>
      cases rest with
      | nil => rfl
      | cons d rest =>
        obtain ⟨first, lexemes, hscan, hkind, -⟩ :=
          exists_cons_eq d (start + c.utf8Size) (scan (start + c.utf8Size + d.utf8Size) rest)
        have hne : ¬ (first.kind = ofChar c ∧ first.kind.Runs) := by
          rintro ⟨hc, hruns⟩
          exact h c rfl d rfl (hc.symm.trans hkind) (hc ▸ hruns)
        change cons c start (scan (start + c.utf8Size) (d :: rest)) =
          [⟨ofChar c, [c], start⟩] ++ scan (start + c.utf8Size) (d :: rest)
        rw [scan, hscan, cons, if_neg hne]
        rfl
    | cons d text =>
      have hne : scan (start + c.utf8Size) (d :: text) ≠ [] :=
        mt scan_eq_nil_iff.1 (List.cons_ne_nil d text)
      rw [List.cons_append, scan, ih h, cons_append hne, ← scan,
        Slice.utf8Length_cons c, Nat.add_assoc]

theorem scan_append (h : ¬ (ofChar c).Runs) (text rest : List Char) :
    scan start (text ++ c :: rest) =
      scan start text ++ ⟨ofChar c, [c], start + utf8Length text⟩ ::
        scan (start + utf8Length text + c.utf8Size) rest := by
  have hparted : Parted text (c :: rest) := by
    rintro b - _ ⟨⟩ hkind
    rwa [hkind]
  rw [scan_append_of_parted hparted, scan, cons_of_not_runs h]

theorem scan_eq_singleton {kind : LexemeKind} (hruns : kind.Runs) {text : List Char}
    (hne : text ≠ []) (h : ∀ c ∈ text, ofChar c = kind) :
    scan start text = [⟨kind, text, start⟩] := by
  induction text generalizing start with
  | nil => exact absurd rfl hne
  | cons c text ih =>
    have hc : ofChar c = kind := h c List.mem_cons_self
    cases text with
    | nil =>
      rw [← hc]
      rfl
    | cons d text =>
      rw [scan, ih (List.cons_ne_nil d text) fun e he ↦ h e (List.mem_cons_of_mem c he), cons,
        if_pos ⟨hc.symm, hruns⟩]

theorem exists_mem_of_mem_cons {l : Lexeme} {lexemes : List Lexeme}
    (h : l ∈ cons c start lexemes) : l.kind = ofChar c ∨ ∃ m ∈ lexemes, m.kind = l.kind := by
  cases lexemes with
  | nil => exact .inl (congrArg kind (List.mem_singleton.1 h))
  | cons first rest =>
    rw [cons] at h
    split at h
    next hfirst =>
      obtain rfl | h := List.mem_cons.1 h
      · exact .inl hfirst.1
      · exact .inr ⟨l, List.mem_cons_of_mem first h, rfl⟩
    next =>
      obtain rfl | h := List.mem_cons.1 h
      · exact .inl rfl
      · exact .inr ⟨l, h, rfl⟩

theorem exists_kind_of_mem_scan {l : Lexeme} {text : List Char} (h : l ∈ scan start text) :
    ∃ c ∈ text, l.kind = ofChar c := by
  induction text generalizing start l with
  | nil => cases h
  | cons c text ih =>
    obtain h | ⟨m, hm, hkind⟩ := exists_mem_of_mem_cons h
    · exact ⟨c, List.mem_cons_self, h⟩
    · obtain ⟨d, hd, hmd⟩ := ih hm
      exact ⟨d, List.mem_cons_of_mem c hd, hkind ▸ hmd⟩

theorem kind_ne_semicolon {l : Lexeme} {text : List Char} (h : ';' ∉ text)
    (hl : l ∈ scan start text) : l.kind ≠ .semicolon := by
  intro hkind
  obtain ⟨c, hc, hlc⟩ := exists_kind_of_mem_scan hl
  rw [hlc, LexemeKind.ofChar_eq_semicolon_iff] at hkind
  exact h (hkind ▸ hc)

theorem splitOnP_scan_intercalate {pieces : List (List Char)} (hne : pieces ≠ [])
    (h : ∀ piece ∈ pieces, ';' ∉ piece) :
    (scan start ([';'].intercalate pieces)).splitOnP (fun l ↦ l.kind = .semicolon) =
      (Slice.locate 1 start pieces).map fun s ↦ scan s.start s.chars := by
  induction pieces generalizing start with
  | nil => exact absurd rfl hne
  | cons piece pieces ih =>
    have hpiece (l : Lexeme) (hl : l ∈ scan start piece) :
        decide (l.kind = .semicolon) = false :=
      decide_eq_false (kind_ne_semicolon (h piece List.mem_cons_self) hl)
    cases pieces with
    | nil =>
      rw [List.intercalate_singleton, List.splitOnP_eq_singleton hpiece]
      rfl
    | cons next pieces =>
      rw [List.intercalate_cons_cons, List.append_assoc, List.singleton_append,
        scan_append (by decide),
        List.splitOnP_append_cons_of_forall_mem hpiece _ rfl,
        ih (List.cons_ne_nil next pieces) fun p hp ↦ h p (List.mem_cons_of_mem piece hp)]
      rfl

end Lexeme

end Recurrence
