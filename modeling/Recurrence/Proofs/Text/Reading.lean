import Mathlib.Data.List.Forall2

namespace Recurrence

variable {ε α β : Type} {l : List α}

theorem bind_eq_ok_iff {x : Except ε α} {f : α → Except ε β} {b : β} :
    (x >>= f) = .ok b ↔ ∃ a, x = .ok a ∧ f a = .ok b := by
  cases x with
  | error e => exact iff_of_false nofun nofun
  | ok a =>
    constructor
    · intro h
      exact ⟨a, rfl, h⟩
    · rintro ⟨_, ⟨⟩, h⟩
      exact h

theorem map_eq_ok_iff {x : Except ε α} {f : α → β} {b : β} :
    x.map f = .ok b ↔ ∃ a, x = .ok a ∧ f a = b := by
  cases x with
  | error e => exact iff_of_false nofun nofun
  | ok a =>
    constructor
    · rintro ⟨⟩
      exact ⟨a, rfl, rfl⟩
    · rintro ⟨_, ⟨⟩, rfl⟩
      rfl

theorem bind_eq_error_iff {x : Except ε α} {f : α → Except ε β} {e : ε} :
    (x >>= f) = .error e ↔ x = .error e ∨ ∃ a, x = .ok a ∧ f a = .error e := by
  cases x with
  | error _ =>
    constructor
    · rintro ⟨⟩
      exact .inl rfl
    · rintro (⟨⟨⟩⟩ | ⟨_, ⟨⟩, -⟩)
      rfl
  | ok a =>
    constructor
    · intro h
      exact .inr ⟨a, rfl, h⟩
    · rintro (⟨⟨⟩⟩ | ⟨_, ⟨⟩, h⟩)
      exact h

theorem map_eq_error_iff {x : Except ε α} {f : α → β} {e : ε} :
    x.map f = .error e ↔ x = .error e := by
  cases x with
  | error _ => exact ⟨fun h ↦ by cases h; rfl, fun h ↦ by cases h; rfl⟩
  | ok _ => exact iff_of_false nofun nofun

theorem ite_eq_ok_iff {p : Prop} [Decidable p] {a b : α} {e : ε} :
    (if p then Except.ok a else .error e) = .ok b ↔ p ∧ a = b := by
  split <;> simp [*]

theorem mapError_map {ε' : Type} (x : Except ε α) (f : ε → ε') (g : α → β) :
    (x.map g).mapError f = (x.mapError f).map g := by
  cases x <;> rfl

theorem exists_mem_of_forall₂ {R : α → β → Prop} {results : List β} {b : β}
    (h : List.Forall₂ R l results) (hb : b ∈ results) : ∃ a ∈ l, R a b := by
  induction h with
  | nil => cases hb
  | cons hab _ ih =>
    obtain rfl | hb := List.mem_cons.1 hb
    · exact ⟨_, List.mem_cons_self, hab⟩
    · obtain ⟨a, ha, hR⟩ := ih hb
      exact ⟨a, List.mem_cons_of_mem _ ha, hR⟩

theorem mapM_eq_ok_iff {f : α → Except ε β} {results : List β} :
    l.mapM f = .ok results ↔ List.Forall₂ (fun a b ↦ f a = .ok b) l results := by
  induction l generalizing results with
  | nil =>
    rw [List.mapM_nil, List.forall₂_nil_left_iff]
    exact ⟨fun h ↦ by cases h; rfl, fun h ↦ by rw [h]; rfl⟩
  | cons a l ih =>
    simp only [List.mapM_cons, bind_eq_ok_iff, List.forall₂_cons_left_iff, ih]
    constructor
    · rintro ⟨b, hb, bs, hbs, ⟨⟩⟩
      exact ⟨b, bs, hb, hbs, rfl⟩
    · rintro ⟨b, bs, hb, hbs, rfl⟩
      exact ⟨b, hb, bs, hbs, rfl⟩

theorem mapM_eq_error_iff {f : α → Except ε β} {e : ε} :
    l.mapM f = .error e ↔ ∃ before a after, l = before ++ a :: after ∧
      (∀ b ∈ before, ∃ result, f b = .ok result) ∧ f a = .error e := by
  constructor
  · intro h
    induction l with
    | nil => cases h
    | cons a l ih =>
      rw [List.mapM_cons, bind_eq_error_iff] at h
      rcases h with h | ⟨result, hresult, h⟩
      · exact ⟨[], a, l, rfl, by simp, h⟩
      · rcases bind_eq_error_iff.1 h with h | ⟨_, -, ⟨⟩⟩
        obtain ⟨before, b, after, rfl, hbefore, hb⟩ := ih h
        refine ⟨a :: before, b, after, rfl, ?_, hb⟩
        intro c hc
        rcases List.mem_cons.1 hc with rfl | hc
        · exact ⟨result, hresult⟩
        · exact hbefore c hc
  · rintro ⟨before, a, after, rfl, hbefore, ha⟩
    induction before with
    | nil =>
      rw [List.nil_append, List.mapM_cons]
      exact bind_eq_error_iff.2 (.inl ha)
    | cons b before ih =>
      obtain ⟨result, hresult⟩ := hbefore b List.mem_cons_self
      have hrest := ih fun c hc ↦ hbefore c (List.mem_cons_of_mem b hc)
      rw [List.cons_append, List.mapM_cons]
      exact bind_eq_error_iff.2 (.inr ⟨result, hresult, bind_eq_error_iff.2 (.inl hrest)⟩)

theorem mapM_mapError {ε' : Type} (f : α → Except ε β) (g : ε → ε') :
    (l.mapM fun a ↦ (f a).mapError g) = (l.mapM f).mapError g := by
  induction l with
  | nil => rfl
  | cons a l ih =>
    rw [List.mapM_cons, List.mapM_cons, ih]
    cases f a with
    | error _ => rfl
    | ok _ => cases l.mapM f <;> rfl

theorem foldlM_congr {f g : β → α → Except ε β} (h : ∀ a ∈ l, ∀ b, f b a = g b a) (b : β) :
    l.foldlM f b = l.foldlM g b := by
  induction l generalizing b with
  | nil => rfl
  | cons a l ih =>
    rw [List.foldlM_cons, List.foldlM_cons, h a List.mem_cons_self]
    exact congrArg _ (funext fun c ↦ ih (fun d hd ↦ h d (List.mem_cons_of_mem a hd)) c)

theorem foldlM_eq_error_iff {f : β → α → Except ε β} {b : β} {e : ε} :
    l.foldlM f b = .error e ↔ ∃ before a after c, l = before ++ a :: after ∧
      before.foldlM f b = .ok c ∧ f c a = .error e := by
  constructor
  · intro h
    induction l generalizing b with
    | nil => cases h
    | cons a l ih =>
      rw [List.foldlM_cons, bind_eq_error_iff] at h
      obtain h | ⟨c, hc, h⟩ := h
      · exact ⟨[], a, l, b, rfl, rfl, h⟩
      · obtain ⟨before, d, after, c', rfl, hbefore, hd⟩ := ih h
        refine ⟨a :: before, d, after, c', rfl, ?_, hd⟩
        rw [List.foldlM_cons]
        exact bind_eq_ok_iff.2 ⟨c, hc, hbefore⟩
  · rintro ⟨before, a, after, c, rfl, hbefore, ha⟩
    rw [List.foldlM_append, bind_eq_error_iff]
    refine .inr ⟨c, hbefore, ?_⟩
    rw [List.foldlM_cons]
    exact bind_eq_error_iff.2 (.inl ha)

theorem mapM_eq_some_iff {f : α → Option β} {results : List β} :
    l.mapM f = some results ↔ List.Forall₂ (fun a b ↦ f a = some b) l results := by
  induction l generalizing results with
  | nil =>
    rw [List.mapM_nil, List.forall₂_nil_left_iff]
    exact ⟨fun h ↦ by cases h; rfl, fun h ↦ by rw [h]; rfl⟩
  | cons a l ih =>
    simp only [List.mapM_cons, Option.bind_eq_bind, Option.bind_eq_some_iff,
      List.forall₂_cons_left_iff, ih]
    constructor
    · rintro ⟨b, hb, bs, hbs, ⟨⟩⟩
      exact ⟨b, bs, hb, hbs, rfl⟩
    · rintro ⟨b, bs, hb, hbs, rfl⟩
      exact ⟨b, hb, bs, hbs, rfl⟩

theorem mapM_eq_none_iff {f : α → Option β} : l.mapM f = none ↔ ∃ a ∈ l, f a = none := by
  induction l with
  | nil => simp
  | cons a l ih =>
    rw [List.mapM_cons]
    cases hfirst : f a with
    | none => simp [hfirst]
    | some b =>
      cases hrest : l.mapM f with
      | none => simpa [hfirst, hrest] using ih.1 hrest
      | some bs =>
        have hnone := ih.not.1 (by simp [hrest])
        simpa [hfirst, hrest] using hnone

theorem eq_append_of_zip_eq_append {r : List β} {before after : List (α × β)} {pair : α × β}
    (hlength : l.length = r.length) (h : l.zip r = before ++ pair :: after) :
    l = before.map Prod.fst ++ pair.1 :: after.map Prod.fst := by
  rw [← List.map_fst_zip (Nat.le_of_eq hlength), h, List.map_append, List.map_cons]

/-- Two readings in a row, the second of what the first one gave, item by item. -/
theorem exists_forall₂_zip_iff {γ : Type} {first : α → γ → Prop} {second : α × γ → β → Prop}
    {results : List β} :
    (∃ between, List.Forall₂ first l between ∧ List.Forall₂ second (l.zip between) results) ↔
      List.Forall₂ (fun a b ↦ ∃ c, first a c ∧ second (a, c) b) l results := by
  induction l generalizing results with
  | nil => simp
  | cons a l ih =>
    rw [List.forall₂_cons_left_iff]
    constructor
    · rintro ⟨between, hfirst, hsecond⟩
      obtain ⟨c, cs, hc, hcs, rfl⟩ := List.forall₂_cons_left_iff.1 hfirst
      obtain ⟨b, bs, hb, hbs, rfl⟩ := List.forall₂_cons_left_iff.1 hsecond
      exact ⟨b, bs, ⟨c, hc, hb⟩, ih.1 ⟨cs, hcs, hbs⟩, rfl⟩
    · rintro ⟨b, bs, ⟨c, hc, hb⟩, hl, rfl⟩
      obtain ⟨cs, hcs, hbs⟩ := ih.2 hl
      exact ⟨c :: cs, .cons hc hcs, .cons hb hbs⟩

theorem exists_forall₂_comp_iff {γ : Type} {first : α → γ → Prop} {second : γ → β → Prop}
    {results : List β} :
    (∃ between, List.Forall₂ first l between ∧ List.Forall₂ second between results) ↔
      List.Forall₂ (fun a b ↦ ∃ c, first a c ∧ second c b) l results := by
  let second' (pair : α × γ) (b : β) : Prop := second pair.2 b
  refine Iff.trans (exists_congr fun between ↦ ?_) (@exists_forall₂_zip_iff _ _ l γ first second' _)
  apply and_congr_right
  intro h
  have hzip : (l.zip between).map Prod.snd = between := List.map_snd_zip (Nat.le_of_eq h.length_eq.symm)
  have hmap : List.Forall₂ second ((l.zip between).map Prod.snd) results ↔
      List.Forall₂ second' (l.zip between) results := List.forall₂_map_left_iff
  rwa [hzip] at hmap

theorem mem_or_of_mem_intercalate {separator : List α} {pieces : List (List α)} {a : α}
    (h : a ∈ separator.intercalate pieces) : a ∈ separator ∨ ∃ piece ∈ pieces, a ∈ piece := by
  induction pieces with
  | nil => cases h
  | cons piece pieces ih =>
    cases pieces with
    | nil =>
      rw [List.intercalate_singleton] at h
      exact .inr ⟨piece, List.mem_cons_self, h⟩
    | cons next pieces =>
      rw [List.intercalate_cons_cons, List.mem_append, List.mem_append] at h
      obtain (h | h) | h := h
      · exact .inr ⟨piece, List.mem_cons_self, h⟩
      · exact .inl h
      · exact (ih h).imp_right fun ⟨p, hp, ha⟩ ↦ ⟨p, List.mem_cons_of_mem piece hp, ha⟩

end Recurrence
