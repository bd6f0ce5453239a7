import Recurrence.Proofs.Rule.Contents
import Recurrence.Proofs.Rule.ValueGrammar

namespace Recurrence

/-- Two ways to write a part. The value may only differ in a frequency and in weekdays. -/
inductive Alike : List Char → List Char → Prop
  | padding {front piece back : List Char} : (∀ c ∈ front, isBlank c) → (∀ c ∈ back, isBlank c) →
      Alike piece (front ++ (piece ++ back))
  | name {name name' value : List Char} : '=' ∉ name →
      name.map Char.toUpper = name'.map Char.toUpper →
      Alike (name ++ '=' :: value) (name' ++ '=' :: value)
  | value {name value value' : List Char} {param : Param} : '=' ∉ name →
      param = .freq ∨ param = .byDay →
      (name.dropWhile isBlank).map Char.toUpper = param.name.toList →
      value.map Char.toUpper = value'.map Char.toUpper →
      Alike (name ++ '=' :: value) (name ++ '=' :: value')

/-- One change to the pieces of a text. -/
inductive Relayout : List (List Char) → List (List Char) → Prop
  | order {pieces pieces' : List (List Char)} : pieces.Perm pieces' → Relayout pieces pieces'
  | blank {before after : List (List Char)} {piece : List Char} : (∀ c ∈ piece, isBlank c) →
      Relayout (before ++ after) (before ++ piece :: after)
  | part {before after : List (List Char)} {piece piece' : List Char} : Alike piece piece' →
      Relayout (before ++ piece :: after) (before ++ piece' :: after)

/-- The pieces of one text come from those of the other by changes, made or undone. -/
def SameLayout (text text' : String) : Prop :=
  Relation.EqvGen Relayout (text.toList.splitOn ';') (text'.toList.splitOn ';')

section

variable {c : Char} {p : Char → Bool}

theorem isBlank_eq_false_of_isAlpha (h : c.isAlpha) : isBlank c = false := by
  apply decide_eq_false
  rintro (rfl | rfl | rfl | rfl) <;> contradiction

theorem dropWhile_append_cons (hc : p c = false) (cs ds : List Char) :
    (cs ++ c :: ds).dropWhile p = cs.dropWhile p ++ c :: ds := by
  rw [List.dropWhile_append]
  split
  next h => rw [List.isEmpty_iff.1 h, List.dropWhile_cons_of_neg (by simp [hc]), List.nil_append]
  next => rfl

theorem rdropWhile_append_cons (hc : p c = false) (cs ds : List Char) :
    (cs ++ c :: ds).rdropWhile p = cs ++ c :: ds.rdropWhile p := by
  rw [List.rdropWhile, List.reverse_append, List.reverse_cons, List.append_assoc,
    List.singleton_append, dropWhile_append_cons hc]
  simp [List.rdropWhile]

end

section

variable {name name' value value' : List Char} {s : Setting}

theorem content_append_equals (name value : List Char) :
    content (name ++ '=' :: value) =
      name.dropWhile isBlank ++ '=' :: value.rdropWhile isBlank := by
  rw [content, dropWhile_append_cons (by decide), rdropWhile_append_cons (by decide)]

theorem content_padding {front piece back : List Char} (hfront : ∀ c ∈ front, isBlank c)
    (hback : ∀ c ∈ back, isBlank c) : content (front ++ (piece ++ back)) = content piece := by
  rw [content, content, List.dropWhile_append_of_pos hfront, List.dropWhile_append]
  split
  next hpiece => rw [List.isEmpty_iff.1 hpiece, List.dropWhile_eq_nil_iff.2 hback]
  next =>
    have hreverse : ∀ c ∈ back.reverse, isBlank c := by simpa using hback
    rw [List.rdropWhile, List.reverse_append, List.dropWhile_append_of_pos hreverse,
      ← List.rdropWhile]

theorem sets_content_iff (hname : '=' ∉ name) : Sets (content (name ++ '=' :: value)) s ↔
    (∀ c ∈ name.dropWhile isBlank, isBlank c = false) ∧
    (∀ c ∈ value.rdropWhile isBlank, isBlank c = false) ∧
    (name.dropWhile isBlank).map Char.toUpper = s.param.name.toList ∧
      Setting.read s.param ⟨value.rdropWhile isBlank, 0⟩ = .ok s := by
  have hfront : '=' ∉ name.dropWhile isBlank := fun h ↦ hname ((List.dropWhile_suffix _).mem h)
  rw [content_append_equals]
  constructor
  · rintro ⟨hblank, name', value', hchars, hname', hletters, hread⟩
    -- the first `=` divides a text in one way
    let t : Slice := ⟨name.dropWhile isBlank ++ '=' :: value.rdropWhile isBlank, 0⟩
    have hself := name_value_chars (t := t) rfl hfront
    have hother := name_value_chars (t := t) hchars hname'
    rw [← hself.1, ← hself.2, hother.1, hother.2]
    simp only [hchars, List.mem_append, List.mem_cons] at hblank
    exact ⟨fun c hc ↦ hblank c (.inl hc), fun c hc ↦ hblank c (.inr (.inr hc)), hletters, hread⟩
  · rintro ⟨hfrontBlank, hbackBlank, hletters, hread⟩
    refine ⟨?_, _, _, rfl, hfront, hletters, hread⟩
    intro c hc
    rcases List.mem_append.1 hc with hc | hc
    · exact hfrontBlank c hc
    · rcases List.mem_cons.1 hc with rfl | hc
      · rfl
      · exact hbackBlank c hc

theorem sets_content_congr_name (hname : '=' ∉ name)
    (h : name.map Char.toUpper = name'.map Char.toUpper) :
    Sets (content (name ++ '=' :: value)) s ↔ Sets (content (name' ++ '=' :: value)) s := by
  have hname' : '=' ∉ name' := by rwa [← mem_iff_of_map_toUpper_eq h (by decide)]
  have hblank (c : Char) (hc : c.isAlpha) : isBlank c = false := isBlank_eq_false_of_isAlpha hc
  have hletters : (name.dropWhile isBlank).map Char.toUpper =
      (name'.dropWhile isBlank).map Char.toUpper := by
    rw [map_toUpper_dropWhile hblank, map_toUpper_dropWhile hblank, h]
  rw [sets_content_iff hname, sets_content_iff hname', hletters,
    forall_eq_false_iff_of_map_toUpper_eq hblank hletters]

theorem IsDayText.of_map_toUpper_eq {text text' : List Char} {d : WeekdayNum}
    (h : text.map Char.toUpper = text'.map Char.toUpper) (hd : IsDayText text d) :
    IsDayText text' d := by
  cases hd with
  | every hletters => exact .every (h ▸ hletters)
  | @nth numeral letters n w hnumeral hn hletters =>
    rw [List.map_append] at h
    obtain ⟨front, back, rfl, hfront, hback⟩ := List.map_eq_append_iff.1 h.symm
    have hnotAlpha : ∀ c ∈ numeral, c.isAlpha = false := by
      intro c hc
      rcases hnumeral.mem hc with rfl | rfl | hdigit
      · rfl
      · rfl
      · cases halpha : c.isAlpha with
        | false => rfl
        | true =>
          rw [isDigit_eq_false_of_isAlpha halpha] at hdigit
          contradiction
    rw [← eq_of_map_toUpper_eq hfront.symm hnotAlpha]
    exact .nth hnumeral hn (hback.trans hletters)

theorem IsDays.of_map_toUpper_eq {text text' : List Char} {values : List WeekdayNum}
    (h : text.map Char.toUpper = text'.map Char.toUpper) (hdays : IsDays text values) :
    IsDays text' values := by
  have hcomma (text : List Char) (d : WeekdayNum) (hd : IsDayText text d) : ',' ∉ text :=
    hd.comma_not_mem
  obtain ⟨written, hwritten, hvalues⟩ := hdays
  refine ⟨written, ?_, hvalues⟩
  rw [isListText_iff hcomma] at hwritten ⊢
  have hmap : List.Forall₂ Eq ((text'.splitOn ',').map (List.map Char.toUpper))
      ((text.splitOn ',').map (List.map Char.toUpper)) := by
    rw [List.forall₂_eq_eq_eq, map_toUpper_splitOn (by decide), map_toUpper_splitOn (by decide), h]
  have hsplit : List.Forall₂ (fun item item' ↦ item.map Char.toUpper = item'.map Char.toUpper)
      (text'.splitOn ',') (text.splitOn ',') :=
    List.forall₂_map_right_iff.1 (List.forall₂_map_left_iff.1 hmap)
  apply (exists_forall₂_comp_iff.1 ⟨_, hsplit, hwritten⟩).imp
  rintro item d ⟨item', hitem, hd⟩
  exact hd.of_map_toUpper_eq hitem.symm

theorem Setting.read_congr_letters {param : Param} (hparam : param = .freq ∨ param = .byDay)
    (h : value.map Char.toUpper = value'.map Char.toUpper) :
    read param ⟨value, 0⟩ = .ok s ↔ read param ⟨value', 0⟩ = .ok s := by
  rcases hparam with rfl | rfl
  · have hnil : value = [] ↔ value' = [] := by
      rw [← List.map_eq_nil_iff, h, List.map_eq_nil_iff]
    have hsame : SameLetters (String.ofList value) (String.ofList value') := by
      rwa [SameLetters, String.toList_ofList, String.toList_ofList]
    have hname : Frequency.ofName? (String.ofList value) =
        Frequency.ofName? (String.ofList value') := literal?_congr hsame
    simp only [read, Slice.text, hnil, hname]
    split
    next => simp
    next => cases Frequency.ofName? (String.ofList value') <;> simp
  · rw [read_byDay_eq_ok_iff, read_byDay_eq_ok_iff]
    apply exists_congr
    intro values
    apply and_congr_left
    intro _
    exact ⟨IsDays.of_map_toUpper_eq h, IsDays.of_map_toUpper_eq h.symm⟩

theorem sets_content_congr_value {param : Param} (hname : '=' ∉ name)
    (hparam : param = .freq ∨ param = .byDay)
    (hletters : (name.dropWhile isBlank).map Char.toUpper = param.name.toList)
    (h : value.map Char.toUpper = value'.map Char.toUpper) :
    Sets (content (name ++ '=' :: value)) s ↔ Sets (content (name ++ '=' :: value')) s := by
  have hblank (c : Char) (hc : c.isAlpha) : isBlank c = false := isBlank_eq_false_of_isAlpha hc
  have hback : (value.rdropWhile isBlank).map Char.toUpper =
      (value'.rdropWhile isBlank).map Char.toUpper := by
    rw [map_toUpper_rdropWhile hblank, map_toUpper_rdropWhile hblank, h]
  rw [sets_content_iff hname, sets_content_iff hname,
    forall_eq_false_iff_of_map_toUpper_eq hblank hback, hletters]
  refine and_congr_right fun _ ↦ and_congr_right fun _ ↦ and_congr_right fun hsame ↦ ?_
  have hs : s.param = param := Param.name_injective (String.toList_inj.1 hsame.symm)
  exact Setting.read_congr_letters (hs ▸ hparam) hback

end

namespace Alike

variable {piece piece' : List Char}

theorem content_eq_nil_iff (h : Alike piece piece') : content piece = [] ↔ content piece' = [] := by
  cases h with
  | padding hfront hback => rw [content_padding hfront hback]
  | name _ _ | value _ _ _ _ =>
    rw [content_append_equals, content_append_equals]
    exact iff_of_false (by simp) (by simp)

theorem sets_iff (h : Alike piece piece') (s : Setting) :
    Sets (content piece) s ↔ Sets (content piece') s := by
  cases h with
  | padding hfront hback => rw [content_padding hfront hback]
  | name hname h => exact sets_content_congr_name hname h
  | value hname hparam hletters h => exact sets_content_congr_value hname hparam hletters h

theorem forall₂_contents (h : Alike piece piece') :
    List.Forall₂ (fun a b ↦ ∀ s, Sets a s ↔ Sets b s) (contents [piece]) (contents [piece']) := by
  by_cases hnil : content piece = []
  · have hnil' := h.content_eq_nil_iff.1 hnil
    simp [contents, hnil, hnil']
  · have hnil' : content piece' ≠ [] := fun h' ↦ hnil (h.content_eq_nil_iff.2 h')
    simpa [contents, hnil, hnil'] using h.sets_iff

end Alike

theorem forall₂_sets_congr {l l' : List (List Char)} {settings : List Setting}
    (h : List.Forall₂ (fun a b ↦ ∀ s, Sets a s ↔ Sets b s) l l') :
    List.Forall₂ Sets l settings ↔ List.Forall₂ Sets l' settings := by
  induction h generalizing settings with
  | nil => rfl
  | cons hab _ ih => simp only [List.forall₂_cons_left_iff, hab, ih]

theorem Relayout.gives_iff {pieces pieces' : List (List Char)} (h : Relayout pieces pieces')
    (r : Rule) : Gives pieces r ↔ Gives pieces' r := by
  cases h with
  | order hperm => exact ⟨.of_perm hperm.symm, .of_perm hperm⟩
  | @blank before after piece hblank =>
    have hcontent : content piece = [] := by
      rw [content, List.dropWhile_eq_nil_iff.2 hblank]
      rfl
    have hcontents : contents (before ++ piece :: after) = contents (before ++ after) := by
      simp [contents, hcontent]
    rw [Gives, Gives, hcontents]
  | @part before after piece piece' halike =>
    have hself (l : List (List Char)) :
        List.Forall₂ (fun a b ↦ ∀ s, Sets a s ↔ Sets b s) (contents l) (contents l) :=
      List.forall₂_same.2 fun _ _ _ ↦ Iff.rfl
    have hcontents : List.Forall₂ (fun a b ↦ ∀ s, Sets a s ↔ Sets b s)
        (contents (before ++ ([piece] ++ after))) (contents (before ++ ([piece'] ++ after))) := by
      rw [contents_append, contents_append, contents_append, contents_append]
      exact List.rel_append (hself before) (List.rel_append halike.forall₂_contents (hself after))
    apply exists_congr
    intro d
    apply and_congr_left
    intro _
    exact forall₂_sets_congr hcontents

theorem gives_iff_of_eqvGen {pieces pieces' : List (List Char)}
    (h : Relation.EqvGen Relayout pieces pieces') (r : Rule) :
    Gives pieces r ↔ Gives pieces' r := by
  induction h with
  | rel _ _ hstep => exact hstep.gives_iff r
  | refl _ => rfl
  | symm _ _ _ ih => exact ih.symm
  | trans _ _ _ _ _ ih ih' => exact ih.trans ih'

namespace Rule

/-- A text in another layout gives the same rule, or gives none as well. -/
theorem parse_eq_ok_iff_of_sameLayout {text text' : String} (h : SameLayout text text') (r : Rule) :
    parse text = .ok r ↔ parse text' = .ok r := by
  rw [parse_eq_ok_iff_gives, parse_eq_ok_iff_gives]
  exact gives_iff_of_eqvGen h r

theorem parse_of_sameLayout_lastFriday :
    SameLayout "FREQ=MONTHLY;BYDAY=-1FR" " BYDAY=-1fr;;freq=Monthly" ∧
      ∃ r, parse "FREQ=MONTHLY;BYDAY=-1FR" = .ok r ∧
        parse " BYDAY=-1fr;;freq=Monthly" = .ok r := by
  have horder : Relayout ["FREQ=MONTHLY".toList, "BYDAY=-1FR".toList]
      ["BYDAY=-1FR".toList, "FREQ=MONTHLY".toList] := .order (.swap ..)
  have hday : Relayout ["BYDAY=-1FR".toList, "FREQ=MONTHLY".toList]
      ["BYDAY=-1fr".toList, "FREQ=MONTHLY".toList] :=
    @Relayout.part [] _ _ _ (@Alike.value "BYDAY".toList "-1FR".toList "-1fr".toList .byDay
      (by decide) (.inr rfl) (by decide) (by decide))
  have hpadding : Relayout ["BYDAY=-1fr".toList, "FREQ=MONTHLY".toList]
      [" BYDAY=-1fr".toList, "FREQ=MONTHLY".toList] :=
    @Relayout.part [] _ _ _ (@Alike.padding [' '] "BYDAY=-1fr".toList [] (by simp [isBlank])
      (by simp))
  have hname : Relayout [" BYDAY=-1fr".toList, "FREQ=MONTHLY".toList]
      [" BYDAY=-1fr".toList, "freq=MONTHLY".toList] :=
    @Relayout.part [_] [] _ _ (@Alike.name "FREQ".toList "freq".toList "MONTHLY".toList
      (by decide) (by decide))
  have hfreq : Relayout [" BYDAY=-1fr".toList, "freq=MONTHLY".toList]
      [" BYDAY=-1fr".toList, "freq=Monthly".toList] :=
    @Relayout.part [_] [] _ _ (@Alike.value "freq".toList "MONTHLY".toList "Monthly".toList .freq
      (by decide) (.inl rfl) (by decide) (by decide))
  have hblank : Relayout [" BYDAY=-1fr".toList, "freq=Monthly".toList]
      [" BYDAY=-1fr".toList, [], "freq=Monthly".toList] :=
    @Relayout.blank [_] [_] [] (by simp)
  have h : SameLayout "FREQ=MONTHLY;BYDAY=-1FR" " BYDAY=-1fr;;freq=Monthly" :=
    .trans _ _ _ (.rel _ _ horder) <| .trans _ _ _ (.rel _ _ hday) <|
      .trans _ _ _ (.rel _ _ hpadding) <| .trans _ _ _ (.rel _ _ hname) <|
      .trans _ _ _ (.rel _ _ hfreq) (.rel _ _ hblank)
  have hread : ∃ r, parse "FREQ=MONTHLY;BYDAY=-1FR" = .ok r := ⟨_, rfl⟩
  obtain ⟨r, hr⟩ := hread
  exact ⟨h, r, hr, (parse_eq_ok_iff_of_sameLayout h r).1 hr⟩

end Rule

end Recurrence
