import Recurrence.Proofs.Rule.Blame
import Recurrence.Proofs.Rule.Refusal

namespace Recurrence

/-- The errors of a text that have a place, and what each of them names. -/
inductive RuleError.PointsAt (text : String) : RuleError → Slice → Prop
  | missingEquals {t : Slice} : t ∈ Part.pieces text → '=' ∉ t.chars →
      PointsAt text (.missingEquals t.text t.span) t
  | missingName {t : Slice} : t ∈ Part.pieces text → '=' ∈ t.chars → t.name.chars = [] →
      PointsAt text (.missingName t.text t.span) t
  | innerBlank {t : Slice} : t ∈ Part.pieces text → t.blanks.chars ≠ [] →
      PointsAt text (.innerBlank t.text t.blanks.span) t.blanks
  /-- The second of the parts with this name. -/
  | repeatedParam {t : Slice} {before after : List Slice} :
      Part.pieces text = before ++ t :: after →
      (before.map fun q ↦ q.name.upper).count t.name.upper = 1 →
      PointsAt text (.repeatedParam t.name.upper t.name.span) t.name
  | unknownParam {t : Slice} : t ∈ Part.pieces text → Param.ofName? t.name.upper = none →
      PointsAt text (.unknownParam t.name.upper t.name.span) t.name
  /-- Nothing, right after the `=`. -/
  | missingValue {t : Slice} {param : Param} : t ∈ Part.pieces text →
      Param.ofName? t.name.upper = some param → t.chars = t.name.chars ++ ['='] →
      PointsAt text (.missingValue param ⟨t.stop, t.stop⟩) ⟨[], t.stop⟩
  | value {t s : Slice} {param : Param} {e : RuleError} : t ∈ Part.pieces text →
      Param.ofName? t.name.upper = some param → '=' ∈ t.chars →
      Setting.Blames param t.value e s → PointsAt text e s

namespace RuleError.PointsAt

variable {text : String} {e : RuleError} {s : Slice}

theorem span?_eq (h : PointsAt text e s) : e.span? = some s.span := by
  cases h with
  | value _ _ _ h => exact h.span?_eq
  | _ => rfl

theorem liesIn (h : PointsAt text e s) : s.LiesIn (Slice.ofString text) := by
  cases h with
  | missingEquals ht | missingName ht => exact Part.liesIn_of_mem_pieces ht
  | innerBlank ht => exact (Slice.blanks_liesIn _).trans (Part.liesIn_of_mem_pieces ht)
  | repeatedParam ht =>
    exact (Slice.name_liesIn _).trans (Part.liesIn_of_mem_pieces (ht ▸ List.mem_append_cons_self))
  | unknownParam ht => exact (Slice.name_liesIn _).trans (Part.liesIn_of_mem_pieces ht)
  | missingValue ht => exact (Slice.stop_liesIn _).trans (Part.liesIn_of_mem_pieces ht)
  | value ht _ _ h => exact h.liesIn.trans ((Slice.value_liesIn _).trans (Part.liesIn_of_mem_pieces ht))

end RuleError.PointsAt

namespace Rule

open RuleError (PointsAt)

variable {text : String} {e : RuleError}

theorem exists_pointsAt_of_ofSlice {t : Slice} (ht : t ∈ Part.pieces text)
    (h : Part.ofSlice t = .error e) : ∃ s, PointsAt text e s := by
  rw [Part.ofSlice] at h
  split at h
  next hblank =>
    cases h
    exact ⟨t.blanks, .innerBlank ht (Slice.blanks_ne_nil hblank)⟩
  next =>
    split at h
    next hequals =>
      cases h
      exact ⟨t, .missingEquals ht hequals⟩
    next hequals =>
      split at h
      next hname =>
        cases h
        exact ⟨t, .missingName ht (not_not.1 hequals) hname⟩
      next => cases h

theorem exists_pointsAt_of_scan (h : Part.scan text = .error e) : ∃ s, PointsAt text e s := by
  obtain ⟨before, t, after, htext, ht⟩ := Part.exists_of_scan_eq_error h
  obtain ht | ⟨hcount, rfl⟩ := ht
  · exact exists_pointsAt_of_ofSlice (htext ▸ List.mem_append_cons_self) ht
  · exact ⟨t.name, .repeatedParam htext hcount⟩

theorem exists_pointsAt_of_setting {t : Slice} {p : Part} (ht : t ∈ Part.pieces text)
    (hp : Part.ofSlice t = .ok p) (h : p.setting = .error e) : ∃ s, PointsAt text e s := by
  obtain ⟨-, hequals, -, rfl⟩ := Part.ofSlice_eq_ok_iff.1 hp
  rw [Part.setting] at h
  split at h
  next param hparam =>
    obtain ⟨hnil, rfl⟩ | ⟨s, hs⟩ := Setting.exists_blames h
    · refine ⟨⟨[], t.stop⟩, ?_⟩
      have hchars : t.chars = t.name.chars ++ ['='] := by
        rw [← hnil]
        exact Slice.chars_eq_name_append hequals
      change PointsAt text (.missingValue param t.value.span) _
      rw [Slice.value_eq_of_nil hequals hnil]
      exact .missingValue ht hparam hchars
    · exact ⟨s, .value ht hparam hequals hs⟩
  next hparam =>
    cases h
    exact ⟨t.name, .unknownParam ht hparam⟩

theorem exists_pointsAt_of_parse (h : parse text = .error e) :
    (e = .absentParam .freq ∨ e = .lonePositions) ∨ ∃ s, PointsAt text e s := by
  obtain h | ⟨parts, hparts, h⟩ := bind_eq_error_iff.1 h
  · exact .inr (exists_pointsAt_of_scan h)
  · obtain ⟨hpieces, hdistinct⟩ := Part.scan_eq_ok_iff.1 hparts
    obtain h | ⟨d, hd, hbuild⟩ := bind_eq_error_iff.1 h
    · obtain ⟨before, p, after, rfl, -, hp⟩ := Draft.exists_of_ofParts_eq_error hdistinct h
      obtain ⟨t, ht, htp⟩ := exists_mem_of_forall₂ hpieces List.mem_append_cons_self
      exact .inr (exists_pointsAt_of_setting ht htp hp)
    · refine .inl (Draft.build_eq_error (fun s hs ↦ ?_) hbuild)
      obtain ⟨p, -, hp⟩ := exists_mem_of_forall₂ (Draft.ofParts_eq_ok_iff.1 hd) hs
      exact Part.fits_of_setting hp

/-- Unless a parameter is not there, the span of an error leads from one character boundary of the
text to another, and between them stands what the error names. A value elsewhere in a text has the
same errors, as much further on as the value is. -/
theorem parse_error_located :
    (∀ (text : String) (e : RuleError), parse text = .error e →
      (∀ param, e ≠ .absentParam param) → e ≠ .lonePositions →
      ∃ s : Slice, e.span? = some s.span ∧ s.span.Marks text s.text ∧ e.PointsAt text s) ∧
    ∀ (param : Param) (raw : String) (k : Nat),
      Setting.read param ⟨raw.toList, k⟩ =
        (Setting.read param ⟨raw.toList, 0⟩).mapError (RuleError.shift k) := by
  refine ⟨fun text e h hparam hlone ↦ ?_, fun param raw k ↦ ?_⟩
  · obtain (rfl | rfl) | ⟨s, hs⟩ := exists_pointsAt_of_parse h
    · exact absurd rfl (hparam .freq)
    · exact absurd rfl hlone
    · exact ⟨s, hs.span?_eq, hs.liesIn.marks, hs⟩
  · exact Setting.read_shift k param ⟨raw.toList, 0⟩

theorem parse_error_located_twoByteLetters :
    parse "FREQ=DAILY; größe=3" = .error (.unknownParam "GRößE" ⟨12, 19⟩) ∧
      (∃ s : Slice, s.span = ⟨12, 19⟩ ∧ s.span.Marks "FREQ=DAILY; größe=3" s.text ∧
        PointsAt "FREQ=DAILY; größe=3" (.unknownParam "GRößE" ⟨12, 19⟩) s) := by
  have h : parse "FREQ=DAILY; größe=3" = .error (.unknownParam "GRößE" ⟨12, 19⟩) := by rfl
  obtain ⟨s, hspan, hmarks, hpoints⟩ := parse_error_located.1 _ _ h nofun nofun
  exact ⟨h, s, (Option.some.inj hspan).symm, hmarks, hpoints⟩

end Rule

end Recurrence
