import Mathlib.Data.List.DropRight
import Mathlib.Data.String.Basic
import Recurrence.Text.Slice

namespace Recurrence

/-- What stands in the text between the ends of the span, which lie between characters. -/
structure Span.Marks (span : Span) (text marked : String) : Prop where
  start_le_stop : span.start ≤ span.stop
  stop_le : span.stop ≤ text.utf8ByteSize
  isValid_start : String.Pos.Raw.IsValid text ⟨span.start⟩
  isValid_stop : String.Pos.Raw.IsValid text ⟨span.stop⟩
  extract_eq : String.Pos.Raw.extract text ⟨span.start⟩ ⟨span.stop⟩ = marked

theorem utf8Length_eq_utf8Len (cs : List Char) : utf8Length cs = String.utf8Len cs := by
  induction cs with
  | nil => rfl
  | cons c cs ih => rw [Slice.utf8Length_cons, String.utf8Len_cons, ih, Nat.add_comm]

theorem isValid_utf8Length (before after : List Char) :
    String.Pos.Raw.IsValid (String.ofList (before ++ after)) ⟨utf8Length before⟩ := by
  rw [String.Pos.Raw.isValid_ofList]
  refine ⟨before.length, ?_⟩
  rw [List.take_left, String.utf8ByteSize_ofList, utf8Length_eq_utf8Len]

theorem not_mem_of_mem_splitOn {separator : Char} {cs piece : List Char}
    (h : piece ∈ cs.splitOn separator) : separator ∉ piece := by
  rw [List.splitOn_eq_splitOnP] at h
  induction cs generalizing piece with
  | nil =>
    rw [List.splitOnP_nil, List.mem_singleton] at h
    rw [h]
    exact nofun
  | cons c cs ih =>
    obtain ⟨first, rest, hsplit⟩ :=
      List.exists_cons_of_ne_nil (List.splitOnP_ne_nil (· == separator) cs)
    rw [List.splitOnP_cons_eq_if_modifyHead, hsplit, List.modifyHead_cons] at h
    rw [hsplit] at ih
    split at h
    next =>
      obtain rfl | h := List.mem_cons.1 h
      · exact nofun
      · exact ih h
    next hc =>
      obtain rfl | h := List.mem_cons.1 h
      · rintro (_ | ⟨_, hmem⟩)
        · exact hc (beq_self_eq_true separator)
        · exact ih List.mem_cons_self hmem
      · exact ih (List.mem_cons_of_mem first h)

namespace Slice

def takeWhile (p : Char → Bool) (s : Slice) : Slice := ⟨s.chars.takeWhile p, s.start⟩

def dropWhile (p : Char → Bool) (s : Slice) : Slice :=
  ⟨s.chars.dropWhile p, s.start + utf8Length (s.chars.takeWhile p)⟩

def rdropWhile (p : Char → Bool) (s : Slice) : Slice := ⟨s.chars.rdropWhile p, s.start⟩

def tail (s : Slice) : Slice := ⟨s.chars.tail, s.start + utf8Length (s.chars.take 1)⟩

/-- A run of the characters of the whole, in its place. -/
def LiesIn (s whole : Slice) : Prop :=
  ∃ before after, whole.chars = before ++ s.chars ++ after ∧
    s.start = whole.start + utf8Length before

theorem LiesIn.refl (s : Slice) : s.LiesIn s :=
  ⟨[], [], by rw [List.nil_append, List.append_nil], rfl⟩

theorem LiesIn.trans {s t whole : Slice} (h₁ : s.LiesIn t) (h₂ : t.LiesIn whole) :
    s.LiesIn whole := by
  obtain ⟨before, after, hchars, hstart⟩ := h₁
  obtain ⟨before', after', hchars', hstart'⟩ := h₂
  refine ⟨before' ++ before, after ++ after', ?_, ?_⟩
  · rw [hchars', hchars]
    simp only [List.append_assoc]
  · rw [hstart, hstart', utf8Length_append, Nat.add_assoc]

theorem LiesIn.marks {s : Slice} {text : String} (h : s.LiesIn (ofString text)) :
    s.span.Marks text s.text := by
  obtain ⟨before, after, hchars, hplace⟩ := h
  have htext : text = String.ofList (before ++ s.chars ++ after) := by
    rw [← hchars, ofString, String.ofList_toList]
  have hstart : s.start = utf8Length before := hplace.trans (Nat.zero_add _)
  have hstop : s.stop = utf8Length (before ++ s.chars) := by
    rw [stop, hstart, utf8Length_append]
  clear hplace hchars
  subst htext
  constructor
  case start_le_stop => exact Nat.le_add_right _ _
  case stop_le =>
    rw [span, hstop, String.utf8ByteSize_ofList, ← utf8Length_eq_utf8Len,
      utf8Length_append _ after]
    exact Nat.le_add_right _ _
  case isValid_start =>
    rw [span, hstart, List.append_assoc]
    exact isValid_utf8Length before _
  case isValid_stop =>
    rw [span, hstop]
    exact isValid_utf8Length _ after
  case extract_eq =>
    rw [span, hstop, hstart, utf8Length_append, utf8Length_eq_utf8Len, utf8Length_eq_utf8Len]
    exact String.extract_of_valid before s.chars after

section

variable (p : Char → Bool) (s : Slice)

theorem takeWhile_liesIn : (s.takeWhile p).LiesIn s :=
  ⟨[], s.chars.dropWhile p, List.takeWhile_append_dropWhile.symm, rfl⟩

theorem dropWhile_liesIn : (s.dropWhile p).LiesIn s := by
  refine ⟨s.chars.takeWhile p, [], ?_, rfl⟩
  rw [List.append_nil]
  exact List.takeWhile_append_dropWhile.symm

theorem rdropWhile_liesIn : (s.rdropWhile p).LiesIn s := by
  obtain ⟨after, hafter⟩ := List.rdropWhile_prefix p s.chars
  exact ⟨[], after, hafter.symm, rfl⟩

theorem stop_liesIn : LiesIn ⟨[], s.stop⟩ s :=
  ⟨s.chars, [], by rw [List.append_nil, List.append_nil], rfl⟩

theorem tail_liesIn : s.tail.LiesIn s := by
  refine ⟨s.chars.take 1, [], ?_, rfl⟩
  rw [List.append_nil, tail, ← List.drop_one, List.take_append_drop]

end

theorem map_chars_splitOn (s : Slice) (c : Char) :
    (s.splitOn c).map chars = s.chars.splitOn c :=
  locate_map_chars _ _ _

theorem splitOn_ne_nil (s : Slice) (c : Char) : s.splitOn c ≠ [] := by
  intro h
  have hmap := s.map_chars_splitOn c
  rw [h, List.map_nil] at hmap
  exact List.splitOn_ne_nil c s.chars hmap.symm

theorem exists_of_mem_locate {s : Slice} {c : Char} {start : Nat} {pieces : List (List Char)}
    (h : s ∈ locate c.utf8Size start pieces) :
    ∃ before after, [c].intercalate pieces = before ++ s.chars ++ after ∧
      s.start = start + utf8Length before := by
  induction pieces generalizing start with
  | nil => cases h
  | cons piece pieces ih =>
    cases pieces with
    | nil =>
      obtain rfl := List.mem_singleton.1 h
      exact ⟨[], [], by simp, rfl⟩
    | cons next pieces =>
      rw [List.intercalate_cons_cons]
      obtain rfl | h := List.mem_cons.1 h
      · exact ⟨[], [c] ++ [c].intercalate (next :: pieces), by simp, rfl⟩
      · obtain ⟨before, after, hchars, hstart⟩ := ih h
        refine ⟨piece ++ c :: before, after, by simp [hchars], ?_⟩
        rw [hstart, utf8Length_append, utf8Length_cons]
        omega

theorem liesIn_of_mem_splitOn {s whole : Slice} {c : Char} (h : s ∈ whole.splitOn c) :
    s.LiesIn whole := by
  obtain ⟨before, after, hchars, hstart⟩ := exists_of_mem_locate h
  rw [List.intercalate_splitOn] at hchars
  exact ⟨before, after, hchars, hstart⟩

theorem separator_not_mem {s whole : Slice} {c : Char} (h : s ∈ whole.splitOn c) :
    c ∉ s.chars := by
  apply not_mem_of_mem_splitOn
  rw [← whole.map_chars_splitOn]
  exact List.mem_map_of_mem h

end Slice

end Recurrence
