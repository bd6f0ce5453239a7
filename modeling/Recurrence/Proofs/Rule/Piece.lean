import Mathlib
import Recurrence.Proofs.Rule.Lexeme
import Recurrence.Proofs.Text.Slice
import Recurrence.Rule.Part

/-!
A part of a text without its lexemes: a piece between semicolons, without the blanks around it,
divided at the first `=`. Lexemes of some kinds at either end of a text are the lexemes of its
characters of these kinds at this end, so that lexemes and characters are trimmed and divided alike.
-/

namespace Recurrence

def isBlank (c : Char) : Bool := c = ' ' ∨ c = '\t' ∨ c = '\r' ∨ c = '\n'

section

variable {α : Type} {p : α → Bool} {l rest : List α}

theorem takeWhile_dropWhile_append (h : ∀ a ∈ l, p a = true)
    (hrest : ∀ a ∈ rest.head?, p a = false) :
    (l ++ rest).takeWhile p = l ∧ (l ++ rest).dropWhile p = rest := by
  rw [List.takeWhile_append_of_pos h, List.dropWhile_append_of_pos h]
  cases rest with
  | nil => exact ⟨List.append_nil l, rfl⟩
  | cons a rest =>
    have ha : ¬ p a = true := by
      rw [hrest a rfl]
      exact Bool.false_ne_true
    rw [List.takeWhile_cons_of_neg ha, List.dropWhile_cons_of_neg ha]
    exact ⟨List.append_nil l, rfl⟩

theorem rdropWhile_append (h : ∀ a ∈ l.getLast?, p a = false) (hrest : ∀ a ∈ rest, p a = true) :
    (l ++ rest).rdropWhile p = l := by
  have hdrop : (rest.reverse ++ l.reverse).dropWhile p = l.reverse := by
    refine (takeWhile_dropWhile_append (fun a ha ↦ hrest a (List.mem_reverse.1 ha)) ?_).2
    rwa [List.head?_reverse]
  rw [List.rdropWhile, List.reverse_append, hdrop, List.reverse_reverse]

variable (p l)

theorem forall_head?_dropWhile : ∀ a ∈ (l.dropWhile p).head?, p a = false := by
  intro a ha
  have hnot := List.head?_dropWhile_not p l
  rwa [Option.mem_def.1 ha] at hnot

theorem forall_getLast?_rdropWhile : ∀ a ∈ (l.rdropWhile p).getLast?, p a = false := by
  intro a ha
  obtain ⟨hne, rfl⟩ := List.mem_getLast?_eq_getLast ha
  exact Bool.eq_false_of_not_eq_true (List.rdropWhile_last_not p l hne)

variable {p l}

theorem exists_dropWhile_eq_cons {a : α} (ha : a ∈ l) (h : p a = false) :
    ∃ b rest, l.dropWhile p = b :: rest ∧ p b = false := by
  cases hdrop : l.dropWhile p with
  | nil =>
    rw [List.dropWhile_eq_nil_iff.1 hdrop a ha] at h
    cases h
  | cons b rest => exact ⟨b, rest, rfl, forall_head?_dropWhile p l b (by rw [hdrop]; rfl)⟩

end

namespace LexemeKind

variable {c : Char}

theorem ofChar_eq_equals_iff : ofChar c = equals ↔ c = '=' := by
  rw [ofChar]
  split
  next h => exact iff_of_false (by decide) (by rw [h]; decide)
  next =>
    split
    next h => exact iff_of_true rfl h
    next h =>
      refine iff_of_false ?_ h
      split <;> decide

theorem ofChar_eq_blank_iff : ofChar c = blank ↔ isBlank c := by
  rw [ofChar, isBlank, decide_eq_true_iff]
  split
  next h => exact iff_of_false (by decide) (by rw [h]; decide)
  next =>
    split
    next h => exact iff_of_false (by decide) (by rw [h]; decide)
    next =>
      split
      next h => exact iff_of_true rfl h
      next h => exact iff_of_false (by decide) h

theorem isBlank_eq : isBlank = fun c ↦ decide (ofChar c = blank) := by
  funext c
  rw [Bool.eq_iff_iff, decide_eq_true_iff, ofChar_eq_blank_iff]

theorem ne_equals_eq : (fun c : Char ↦ decide (c ≠ '=')) = fun c ↦ decide (ofChar c ≠ equals) := by
  funext c
  rw [decide_eq_decide, ne_eq, ne_eq, ofChar_eq_equals_iff]

end LexemeKind

namespace Slice

def trim (s : Slice) : Slice := (s.dropWhile isBlank).rdropWhile isBlank

def blanks (s : Slice) : Slice := (s.dropWhile fun c ↦ !isBlank c).takeWhile isBlank

def name (s : Slice) : Slice := s.takeWhile (· ≠ '=')

def value (s : Slice) : Slice := (s.dropWhile (· ≠ '=')).tail

def upper (s : Slice) : String := String.ofList (s.chars.map Char.toUpper)

theorem trim_liesIn (s : Slice) : s.trim.LiesIn s :=
  (rdropWhile_liesIn isBlank _).trans (dropWhile_liesIn isBlank s)

theorem blanks_liesIn (s : Slice) : s.blanks.LiesIn s :=
  (takeWhile_liesIn isBlank _).trans (dropWhile_liesIn _ s)

theorem name_liesIn (s : Slice) : s.name.LiesIn s := takeWhile_liesIn _ s

theorem value_liesIn (s : Slice) : s.value.LiesIn s :=
  (tail_liesIn _).trans (dropWhile_liesIn _ s)

def lexemes (s : Slice) : List Lexeme := Lexeme.scan s.start s.chars

section

open LexemeKind (ofChar)

variable (f : LexemeKind → Bool) (s : Slice)

theorem forall_kind_of_map_eq {l? : Option Lexeme} {c? : Option Char} {b : Bool}
    (h : l?.map Lexeme.kind = c?.map ofChar) (hc : ∀ c ∈ c?, f (ofChar c) = b) :
    ∀ l ∈ l?, f l.kind = b := by
  rintro l rfl
  obtain ⟨c, rfl, hkind⟩ := Option.map_eq_some_iff.1 h.symm
  rw [← hkind, hc c rfl]

theorem forall_kind_lexemes {s : Slice} {b : Bool} (h : ∀ c ∈ s.chars, f (ofChar c) = b) :
    ∀ l ∈ s.lexemes, f l.kind = b := by
  intro l hl
  obtain ⟨c, hc, hkind⟩ := Lexeme.exists_kind_of_mem_scan hl
  rw [hkind, h c hc]

theorem lexemes_append {start : Nat} {text rest : List Char} {b : Bool}
    (h : ∀ c ∈ text.getLast?, f (ofChar c) = b) (hrest : ∀ d ∈ rest.head?, f (ofChar d) = !b) :
    lexemes ⟨text ++ rest, start⟩ =
      lexemes ⟨text, start⟩ ++ lexemes ⟨rest, start + utf8Length text⟩ := by
  refine Lexeme.scan_append_of_parted fun c hc d hd hkind ↦ ?_
  have hb : b = !b := by rw [← hrest d hd, ← hkind, h c hc]
  cases b <;> cases hb

theorem lexemes_eq_append : s.lexemes =
    (s.takeWhile fun c ↦ f (ofChar c)).lexemes ++ (s.dropWhile fun c ↦ f (ofChar c)).lexemes := by
  let p (c : Char) : Bool := f (ofChar c)
  have hfront (c : Char) (hc : c ∈ (s.chars.takeWhile p).getLast?) : f (ofChar c) = true :=
    List.mem_takeWhile_imp (p := p) (List.mem_of_getLast? hc)
  have happend := @lexemes_append f s.start _ _ true hfront (forall_head?_dropWhile p s.chars)
  rwa [List.takeWhile_append_dropWhile] at happend

theorem takeWhile_dropWhile_lexemes :
    s.lexemes.takeWhile (fun l ↦ f l.kind) = (s.takeWhile fun c ↦ f (ofChar c)).lexemes ∧
      s.lexemes.dropWhile (fun l ↦ f l.kind) = (s.dropWhile fun c ↦ f (ofChar c)).lexemes := by
  let p (c : Char) : Bool := f (ofChar c)
  have hfront : ∀ l ∈ (s.takeWhile p).lexemes, f l.kind = true :=
    forall_kind_lexemes f fun c hc ↦ List.mem_takeWhile_imp (p := p) hc
  have hrest : ∀ l ∈ (s.dropWhile p).lexemes.head?, f l.kind = false :=
    forall_kind_of_map_eq f Lexeme.map_kind_head?_scan (forall_head?_dropWhile p s.chars)
  rw [lexemes_eq_append f]
  exact takeWhile_dropWhile_append hfront hrest

theorem rdropWhile_lexemes :
    s.lexemes.rdropWhile (fun l ↦ f l.kind) = (s.rdropWhile fun c ↦ f (ofChar c)).lexemes := by
  let p (c : Char) : Bool := f (ofChar c)
  have hback (c : Char) (hc : c ∈ s.chars.rtakeWhile p) : f (ofChar c) = true :=
    List.mem_rtakeWhile_imp (p := p) hc
  have hlast := forall_getLast?_rdropWhile p s.chars
  have happend := @lexemes_append f s.start _ _ false hlast fun c hc ↦
    hback c (List.mem_of_head? hc)
  rw [List.rdropWhile_append_rtakeWhile] at happend
  rw [happend]
  exact rdropWhile_append (forall_kind_of_map_eq f Lexeme.map_kind_getLast?_scan hlast)
    (forall_kind_lexemes f hback)

theorem trim_lexemes : Lexeme.trim s.lexemes = s.trim.lexemes := by
  let f (k : LexemeKind) : Bool := k = .blank
  rw [trim, LexemeKind.isBlank_eq, ← rdropWhile_lexemes f, ← (takeWhile_dropWhile_lexemes f s).2]
  rfl

variable {s}

theorem blanks_ne_nil (h : ∃ c ∈ s.chars, isBlank c) : s.blanks.chars ≠ [] := by
  obtain ⟨c, hc, hblank⟩ := h
  obtain ⟨d, rest, hdrop, hd⟩ :=
    exists_dropWhile_eq_cons (p := fun c ↦ !isBlank c) hc (by rw [hblank]; rfl)
  have hd : isBlank d = true := by simpa using hd
  rw [blanks, takeWhile, dropWhile, hdrop, List.takeWhile_cons_of_pos hd]
  exact List.cons_ne_nil d _

theorem find?_blank_lexemes (h : ∃ c ∈ s.chars, isBlank c) :
    s.lexemes.find? (fun l ↦ l.kind = .blank) = some ⟨.blank, s.blanks⟩ := by
  let f (k : LexemeKind) : Bool := k = .blank
  let rest : Slice := s.dropWhile fun c ↦ !f (ofChar c)
  have hblanks : s.blanks = rest.takeWhile fun c ↦ f (ofChar c) := by
    rw [blanks, LexemeKind.isBlank_eq]
  have hkind : ∀ c ∈ s.blanks.chars, ofChar c = .blank :=
    fun c hc ↦ LexemeKind.ofChar_eq_blank_iff.2 (List.mem_takeWhile_imp hc)
  have hruns : LexemeKind.blank.Runs := trivial
  have hrun : s.blanks.lexemes = [⟨.blank, s.blanks⟩] :=
    Lexeme.scan_eq_singleton hruns (blanks_ne_nil h) hkind
  rw [List.find?_eq_head?_dropWhile_not]
  calc
    (s.lexemes.dropWhile fun l ↦ !f l.kind).head? = rest.lexemes.head? :=
      congrArg List.head? (takeWhile_dropWhile_lexemes (fun k ↦ !f k) s).2
    _ = (s.blanks.lexemes ++ _).head? := by rw [lexemes_eq_append f rest, hblanks]
    _ = some ⟨.blank, s.blanks⟩ := by rw [hrun]; rfl

theorem find?_blank_lexemes_eq_none (h : ¬ ∃ c ∈ s.chars, isBlank c) :
    s.lexemes.find? (fun l ↦ l.kind = .blank) = none := by
  let f (k : LexemeKind) : Bool := k = .blank
  have hnone : ∀ l ∈ s.lexemes, f l.kind = false := by
    refine forall_kind_lexemes f fun c hc ↦ decide_eq_false fun hblank ↦ h ⟨c, hc, ?_⟩
    exact LexemeKind.ofChar_eq_blank_iff.1 hblank
  exact List.find?_eq_none.2 fun l hl ↦ Bool.eq_false_iff.1 (hnone l hl)

theorem forall_head?_trim (s : Slice) : ∀ c ∈ s.trim.chars.head?, isBlank c = false := by
  intro c hc
  obtain ⟨after, hafter⟩ := List.rdropWhile_prefix isBlank (s.dropWhile isBlank).chars
  refine forall_head?_dropWhile isBlank s.chars c ?_
  change s.trim.chars ++ after = s.chars.dropWhile isBlank at hafter
  rw [← hafter]
  exact List.mem_head?_append_of_mem_head? hc

theorem exists_lexemes_eq_cons (h : s.chars ≠ []) :
    ∃ first rest, s.lexemes = first :: rest ∧ first.slice.start = s.start := by
  obtain ⟨chars, start⟩ := s
  cases chars with
  | nil => exact absurd rfl h
  | cons c text =>
    obtain ⟨first, rest, hscan, -, hstart⟩ :=
      Lexeme.exists_cons_eq c start (Lexeme.scan (start + c.utf8Size) text)
    exact ⟨first, rest, hscan, hstart⟩

theorem span_lexemes : s.lexemes.span (fun l ↦ l.kind ≠ .equals) =
    (s.name.lexemes, (s.dropWhile (· ≠ '=')).lexemes) := by
  obtain ⟨htake, hdrop⟩ := takeWhile_dropWhile_lexemes (fun k ↦ decide (k ≠ .equals)) s
  rw [List.span_eq_takeWhile_dropWhile, htake, hdrop, ← LexemeKind.ne_equals_eq]
  rfl

theorem dropWhile_equals (h : '=' ∈ s.chars) :
    s.chars.dropWhile (· ≠ '=') = '=' :: s.value.chars := by
  let p (c : Char) : Bool := c ≠ '='
  obtain ⟨c, text, hdrop, hc⟩ := exists_dropWhile_eq_cons (p := p) h rfl
  obtain rfl : c = '=' := not_not.1 (of_decide_eq_false hc)
  change s.chars.dropWhile (· ≠ '=') = _ at hdrop
  rw [value, tail, dropWhile, hdrop, List.tail_cons]

theorem value_start (h : '=' ∈ s.chars) :
    s.value.start = s.start + utf8Length s.name.chars + 1 := by
  rw [value, tail, dropWhile, dropWhile_equals h]
  rfl

theorem chars_eq_name_append (h : '=' ∈ s.chars) :
    s.chars = s.name.chars ++ '=' :: s.value.chars := by
  rw [← dropWhile_equals h]
  exact List.takeWhile_append_dropWhile.symm

/-- The value that is not there would stand at the end. -/
theorem value_eq_of_nil (h : '=' ∈ s.chars) (hnil : s.value.chars = []) :
    s.value = ⟨[], s.stop⟩ := by
  have hstart : s.value.start = s.stop := by
    rw [value_start h, stop, chars_eq_name_append h, hnil, utf8Length_append, ← Nat.add_assoc]
    rfl
  rw [← hnil, ← hstart]

theorem lexemes_from_equals (h : '=' ∈ s.chars) : (s.dropWhile (· ≠ '=')).lexemes =
    ⟨.equals, ['='], s.start + utf8Length s.name.chars⟩ :: s.value.lexemes := by
  rw [lexemes, lexemes, value_start h, dropWhile, dropWhile_equals h]
  exact Lexeme.cons_of_not_runs (by decide) _

theorem lexemes_dropWhile_of_not_mem (h : '=' ∉ s.chars) :
    (s.dropWhile (· ≠ '=')).lexemes = [] := by
  refine Lexeme.scan_eq_nil_iff.2 (List.dropWhile_eq_nil_iff.2 fun c hc ↦ decide_eq_true ?_)
  rintro rfl
  exact h hc

theorem lexemes_name (hsemicolon : ';' ∉ s.chars) (hblank : ¬ ∃ c ∈ s.chars, isBlank c)
    (h : s.name.chars ≠ []) : s.name.lexemes = [⟨.word, s.name⟩] := by
  have hruns : LexemeKind.word.Runs := trivial
  refine Lexeme.scan_eq_singleton hruns h fun c hc ↦ ?_
  have hmem : c ∈ s.chars := (List.takeWhile_prefix _).mem hc
  cases hkind : ofChar c with
  | word => rfl
  | blank => exact absurd ⟨c, hmem, LexemeKind.ofChar_eq_blank_iff.1 hkind⟩ hblank
  | semicolon => exact absurd (LexemeKind.ofChar_eq_semicolon_iff.1 hkind ▸ hmem) hsemicolon
  | equals =>
    have hne : decide (c ≠ '=') = true := List.mem_takeWhile_imp (p := (· ≠ '=')) hc
    exact absurd (LexemeKind.ofChar_eq_equals_iff.1 hkind) (of_decide_eq_true hne)

end

end Slice

namespace Part

def ofSlice (t : Slice) : Except RuleError Part :=
  if ∃ c ∈ t.chars, isBlank c then .error (.innerBlank t.text t.blanks.span)
  else if '=' ∉ t.chars then .error (.missingEquals t.text t.span)
  else if t.name.chars = [] then .error (.missingName t.text t.span)
  else .ok ⟨t.name, t.value⟩

theorem ofSlice_eq_ok_iff {t : Slice} {p : Part} :
    ofSlice t = .ok p ↔ (¬ ∃ c ∈ t.chars, isBlank c) ∧ '=' ∈ t.chars ∧ t.name.chars ≠ [] ∧
      p = ⟨t.name, t.value⟩ := by
  rw [ofSlice]
  split
  next h => exact iff_of_false nofun fun ⟨hblank, _⟩ ↦ hblank h
  next hblank =>
    split
    next h => exact iff_of_false nofun fun ⟨_, hequals, _⟩ ↦ h hequals
    next hequals =>
      split
      next h => exact iff_of_false nofun fun ⟨_, _, hname, _⟩ ↦ hname h
      next hname =>
        constructor
        · rintro ⟨⟩
          exact ⟨hblank, not_not.1 hequals, hname, rfl⟩
        · rintro ⟨-, -, -, rfl⟩
          rfl

theorem ofLexemes?_of_trim {lexemes : List Lexeme} {t : Slice}
    (htrim : Lexeme.trim lexemes = t.lexemes) (hsemicolon : ';' ∉ t.chars)
    (hhead : ∀ c ∈ t.chars.head?, isBlank c = false) :
    ofLexemes? lexemes = if t.chars = [] then .ok none else (ofSlice t).map some := by
  rw [ofLexemes?, htrim]
  by_cases hnil : t.chars = []
  · rw [if_pos hnil, Slice.lexemes, hnil]
    rfl
  · rw [if_neg hnil]
    obtain ⟨first, rest, hlexemes, hstart⟩ := Slice.exists_lexemes_eq_cons hnil
    have hwhole : (⟨Lexeme.chars (first :: rest), first.slice.start⟩ : Slice) = t := by
      rw [← hlexemes, Slice.lexemes, Lexeme.chars_scan, hstart]
    have hfirst : decide (first.kind = .blank) = false :=
      Slice.forall_kind_of_map_eq (fun k ↦ decide (k = .blank)) Lexeme.map_kind_head?_scan
        (LexemeKind.isBlank_eq ▸ hhead) first (by rw [← Slice.lexemes, hlexemes]; rfl)
    have hfind : rest.find? (fun l ↦ l.kind = .blank) =
        t.lexemes.find? fun l ↦ l.kind = .blank := by
      rw [hlexemes, List.find?_cons, hfirst]
    have hspan := @Slice.span_lexemes t
    rw [hlexemes] at hspan ⊢
    simp only [hwhole, hfind, hspan]
    by_cases hblank : ∃ c ∈ t.chars, isBlank c
    · rw [Slice.find?_blank_lexemes hblank, ofSlice, if_pos hblank]
      rfl
    · rw [Slice.find?_blank_lexemes_eq_none hblank, ofSlice, if_neg hblank]
      by_cases hequals : '=' ∈ t.chars
      · rw [if_neg (not_not.2 hequals), Slice.lexemes_from_equals hequals]
        by_cases hname : t.name.chars = []
        · rw [if_pos hname, Slice.lexemes, hname]
          rfl
        · rw [if_neg hname, Slice.lexemes_name hsemicolon hblank hname]
          have hvalue : (⟨Lexeme.chars t.value.lexemes,
              t.start + utf8Length t.name.chars + 1⟩ : Slice) = t.value := by
            rw [Slice.lexemes, Lexeme.chars_scan, ← Slice.value_start hequals]
          exact congrArg (fun value ↦ Except.ok (some (Part.mk t.name value))) hvalue
      · rw [if_pos hequals, Slice.lexemes_dropWhile_of_not_mem hequals]
        rfl

theorem ofLexemes?_lexemes {s : Slice} (h : ';' ∉ s.chars) :
    ofLexemes? s.lexemes =
      if s.trim.chars = [] then .ok none else (ofSlice s.trim).map some := by
  refine ofLexemes?_of_trim s.trim_lexemes (fun hmem ↦ h ?_) s.forall_head?_trim
  obtain ⟨before, after, hchars, -⟩ := s.trim_liesIn
  rw [hchars]
  exact List.mem_append_left after (List.mem_append_right before hmem)

end Part

end Recurrence
