import Recurrence.Proofs.Expansion.Ascent
import Recurrence.Proofs.Expansion.Plan
import Recurrence.Proofs.Zone.DaysApart

/-!
Occurrences in a zone as floating occurrences carried there. Where the clocks skip no whole day, the
instants of the readings at one time of day are in the order of their dates, so that what comes
before the anchor on the clock comes before it in time and only the last readings have no instant.
-/

namespace Recurrence

theorem filter_filterMap_of_iff {α β : Type} {f : α → Option β} {p : β → Bool} {q : α → Bool}
    {xs : List α} (h : ∀ a ∈ xs, ∀ b, f a = some b → p b = q a) :
    (xs.filterMap f).filter p = (xs.filter q).filterMap f := by
  induction xs with
  | nil => rfl
  | cons a xs ih =>
    have ih := ih fun c hc ↦ h c (List.mem_cons_of_mem a hc)
    cases hf : f a with
    | none =>
      rw [List.filterMap_cons_none hf, ih, List.filter_cons]
      split
      · rw [List.filterMap_cons_none hf]
      · rfl
    | some b =>
      have hpq := h a List.mem_cons_self b hf
      rw [List.filterMap_cons_some hf, List.filter_cons, List.filter_cons, hpq]
      split
      · rw [List.filterMap_cons_some hf, ih]
      · exact ih

theorem admitted_filterMap {α β : Type} {f : α → Option β} (bound : Option Nat) (used : Nat)
    {xs : List α} (h : xs.Pairwise fun a b ↦ (f b).isSome → (f a).isSome) :
    admitted bound used (xs.filterMap f) = (admitted bound used xs).filterMap f := by
  induction xs generalizing used with
  | nil => simp
  | cons a xs ih =>
    obtain ⟨ha, hxs⟩ := List.pairwise_cons.1 h
    by_cases hused : bound.any fun n ↦ n ≤ used
    · rw [admitted_eq_nil hused, admitted_eq_nil hused, List.filterMap_nil]
    cases hf : f a with
    | none =>
      have hnone (ys : List α) (hys : ys.Sublist (a :: xs)) : ys.filterMap f = [] := by
        refine List.filterMap_eq_nil_iff.2 fun b hb ↦ ?_
        obtain rfl | hb := List.mem_cons.1 (hys.subset hb)
        · exact hf
        · have hb := mt (ha b hb)
          simpa [hf] using hb
      rw [hnone _ (.refl _), hnone _ (admitted_sublist _ _ _), admitted_nil]
    | some b =>
      rw [List.filterMap_cons_some hf, admitted_cons hused, admitted_cons hused,
        List.filterMap_cons_some hf, ih _ hxs]

theorem map_eq_append_replicate {α β : Type} {f : α → Option β} {xs : List α}
    (h : xs.Pairwise fun a b ↦ (f b).isSome → (f a).isSome) :
    ∃ n, xs.map f = (xs.filterMap f).map some ++ List.replicate n none := by
  induction xs with
  | nil => exact ⟨0, rfl⟩
  | cons a xs ih =>
    obtain ⟨ha, hxs⟩ := List.pairwise_cons.1 h
    obtain ⟨n, hn⟩ := ih hxs
    cases hf : f a with
    | none =>
      have hnone : xs.filterMap f = [] := by
        refine List.filterMap_eq_nil_iff.2 fun b hb ↦ ?_
        have hb := mt (ha b hb)
        simpa [hf] using hb
      refine ⟨n + 1, ?_⟩
      rw [List.map_cons, hf, hn, List.filterMap_cons_none hf, hnone]
      rfl
    | some b =>
      refine ⟨n, ?_⟩
      rw [List.map_cons, hf, hn, List.filterMap_cons_some hf]
      rfl

theorem Search.supply_sublist_readings (s : Search DateTime) (n : Nat) :
    (s.supply n).Sublist (s.readings n) := by
  have hstream : s.stream n = s.readings n := List.filterMap_some ..
  rw [← hstream]
  exact s.supply_sublist_stream n

namespace Occurrences

section Endless

variable {rule : Rule} (hbound : rule.bound = none) (config : Config) (limit : Option Nat)

include hbound

section AnyTime

variable {τ : Type} [LT τ] [DecidableLT τ] [Instant τ] (anchor : τ)

theorem startsTooLate_ofRule (day : Date) :
    (ofRule rule anchor config limit).search.startsTooLate day = false := by
  refine (Option.any_eq_false _ _).2 fun x _ ↦ ?_
  simp [Search.exceedsBound, Search.isPastWindow, ofRule, Search.start, hbound]

theorem toList_ofRule_of_endless :
    Source.toList (ofRule rule anchor config limit) = admitted limit 0 (admitted rule.count 0
      (rising none (((ofRule rule anchor config limit).search.supply 0).filter
        fun x ↦ ¬ x < anchor))) := by
  have hexceeds (x : τ) : (ofRule rule anchor config limit).search.exceedsBound x = false := by
    simp [Search.exceedsBound, ofRule, Search.start, hbound]
  have hrest : Source.toList (ofRule rule anchor config limit) =
      (ofRule rule anchor config limit).search.sieve (.before 0)
        ((ofRule rule anchor config limit).search.supply 0) := toList_eq_rest _ _ (Nat.zero_le _)
  rw [hrest, Search.sieve_before_of_no_window rfl,
    List.takeWhile_eq_self_iff.2 fun x _ ↦ congrArg Bool.not (hexceeds x)]
  rfl

end AnyTime

/-- The search in a zone goes through the same periods as the one in floating time. -/
theorem supply_ofRule_zoned (anchor : Zoned) (n : Nat) :
    (ofRule rule anchor config limit).search.supply n =
      ((ofRule rule anchor.wallClock config limit).search.supply n).filterMap
        (Instant.atWallClock? anchor) := by
  have hplan : (ofRule rule anchor config limit).search.SamePlan
      (ofRule rule anchor.wallClock config limit).search := ⟨rfl, rfl, rfl⟩
  refine Search.supply_of_samePlan hplan
    (startsTooLate_ofRule hbound config limit anchor.wallClock)
    (startsTooLate_ofRule hbound config limit anchor) (fun k ↦ ?_) n
  have hbatch : (ofRule rule anchor.wallClock config limit).search.batch k =
    (ofRule rule anchor config limit).search.candidates k := List.filterMap_some ..
  rw [hbatch]
  rfl

end Endless

def readingsFrom (rule : Rule) (anchor : DateTime) (config : Config) (limit : Option Nat) :
    List DateTime :=
  ((ofRule rule anchor config limit).search.supply 0).filter fun r ↦ ¬ r < anchor

section ReadingsFrom

variable (rule : Rule) (anchor : DateTime) (config : Config) (limit : Option Nat)

theorem pairwise_readingsFrom : (readingsFrom rule anchor config limit).Pairwise (· < ·) := by
  refine ((Search.pairwise_readings 0).imp fun {r r'} h ↦ ?_).sublist
    (List.filter_sublist.trans (Search.supply_sublist_readings _ 0))
  exact DateTime.lt_iff_date_lt_or_time_lt.2 (.inl h)

theorem time_of_mem_supply {r : DateTime}
    (hr : r ∈ (ofRule rule anchor config limit).search.supply 0) : r.time = anchor.time :=
  Search.time_of_mem_readings ((Search.supply_sublist_readings _ 0).subset hr)

theorem toList_ofRule_eq_readingsFrom (hbound : rule.bound = none) :
    Source.toList (ofRule rule anchor config limit) =
      admitted limit 0 (admitted rule.count 0 (readingsFrom rule anchor config limit)) := by
  rw [toList_ofRule_of_endless hbound]
  change admitted limit 0 (admitted rule.count 0
    (rising none (readingsFrom rule anchor config limit))) = _
  rw [rising_eq_self (pairwise_readingsFrom rule anchor config limit) (by simp)]

end ReadingsFrom

section Clock

variable {anchor : Zoned} (hz : anchor.zone.KeepsDaysApart)
  (hanchor : anchor.timestamp.position = anchor.zone.place anchor.wallClock.position)

include hz hanchor

theorem lt_anchor_iff {r : DateTime} {x : Zoned} (htime : r.time = anchor.wallClock.time)
    (hx : Instant.atWallClock? anchor r = some x) : x < anchor ↔ r < anchor.wallClock := by
  rw [← hz.place_lt_iff htime, ← hanchor, ← (Zoned.ofWallClock?_eq_some_iff.1 hx).2]
  exact Iff.rfl

theorem isSome_atWallClock?_of_lt {r r' : DateTime} (htime : r.time = anchor.wallClock.time)
    (htime' : r'.time = anchor.wallClock.time) (hfrom : ¬ r < anchor.wallClock) (hlt : r < r')
    (h : (Instant.atWallClock? anchor r').isSome) : (Instant.atWallClock? anchor r).isSome := by
  have hfrom := (hz.place_lt_iff htime).not.2 hfrom
  have hlt := (hz.place_lt_iff (htime.trans htime'.symm)).2 hlt
  have hfirst := anchor.timestamp.first_lt
  obtain ⟨-, hlast⟩ := Zoned.isSome_ofWallClock?_iff.1 h
  refine Zoned.isSome_ofWallClock?_iff.2 ?_
  omega

variable (rule : Rule) (config : Config) (limit : Option Nat)

theorem pairwise_readingsFrom_isSome :
    (readingsFrom rule anchor.wallClock config limit).Pairwise fun r r' ↦
      (Instant.atWallClock? anchor r').isSome → (Instant.atWallClock? anchor r).isSome := by
  refine (pairwise_readingsFrom rule anchor.wallClock config limit).imp_of_mem
    fun {r r'} hr hr' hlt ↦ ?_
  obtain ⟨hr, hfrom⟩ := List.mem_filter.1 hr
  exact isSome_atWallClock?_of_lt hz hanchor (time_of_mem_supply rule _ config limit hr)
    (time_of_mem_supply rule _ config limit (List.mem_of_mem_filter hr')) (by simpa using hfrom) hlt

omit hanchor in
theorem pairwise_filterMap_readingsFrom :
    ((readingsFrom rule anchor.wallClock config limit).filterMap
      (Instant.atWallClock? anchor)).Pairwise (· < ·) := by
  refine List.pairwise_filterMap.2
    ((pairwise_readingsFrom rule anchor.wallClock config limit).imp_of_mem
      fun {r r'} hr hr' hlt x hx y hy ↦ ?_)
  have htime := time_of_mem_supply rule _ config limit (List.mem_of_mem_filter hr)
  have htime' := time_of_mem_supply rule _ config limit (List.mem_of_mem_filter hr')
  have hplace := (hz.place_lt_iff (htime.trans htime'.symm)).2 hlt
  rw [← (Zoned.ofWallClock?_eq_some_iff.1 hx).2,
    ← (Zoned.ofWallClock?_eq_some_iff.1 hy).2] at hplace
  exact hplace

theorem filter_supply_zoned (hbound : rule.bound = none) :
    ((ofRule rule anchor config limit).search.supply 0).filter (fun x ↦ ¬ x < anchor) =
      (readingsFrom rule anchor.wallClock config limit).filterMap
        (Instant.atWallClock? anchor) := by
  rw [supply_ofRule_zoned hbound]
  refine filter_filterMap_of_iff fun r hr x hx ↦ ?_
  rw [decide_eq_decide]
  exact (lt_anchor_iff hz hanchor (time_of_mem_supply rule _ config limit hr) hx).not

theorem toList_ofRule_eq_filterMap (hbound : rule.bound = none) :
    Source.toList (ofRule rule anchor config limit) =
      (Source.toList (ofRule rule anchor.wallClock config limit)).filterMap
        (Instant.atWallClock? anchor) := by
  have hisSome := pairwise_readingsFrom_isSome hz hanchor rule config limit
  rw [toList_ofRule_of_endless hbound, toList_ofRule_eq_readingsFrom rule _ config limit hbound,
    filter_supply_zoned hz hanchor rule config limit hbound,
    rising_eq_self (pairwise_filterMap_readingsFrom hz rule config limit) (by simp),
    admitted_filterMap _ _ hisSome,
    admitted_filterMap _ _ (hisSome.sublist (admitted_sublist _ _ _))]

end Clock

/-- Occurrences in a zone are the floating occurrences of the anchor's clock, each carried to its
instant, in their order and each by itself. Only the last ones, which lie beyond the time line, are
left out, so that a count counts the same. -/
theorem toList_ofRule_carried (rule : Rule) (hbound : rule.bound = none) {zone : Zone}
    (hnamed : zone.IsNamed) (hzone : zone ≠ Zone.apia) {reading : DateTime} {anchor : Zoned}
    (hanchor : Zoned.ofWallClock? zone reading = some anchor) (config : Config)
    (limit : Option Nat) :
    let floating := Source.toList (ofRule rule anchor.wallClock config limit)
    let zoned := Source.toList (ofRule rule anchor config limit)
    zoned = floating.filterMap (Instant.atWallClock? anchor) ∧ zoned.Pairwise (· < ·) ∧
      ∃ n, floating.map (Instant.atWallClock? anchor) =
        zoned.map some ++ List.replicate n none := by
  intro floating zoned
  have hz := hnamed.keepsDaysApart hzone
  obtain ⟨rfl, -⟩ := Zoned.ofWallClock?_eq_some_iff.1 hanchor
  have hplace := hz.position_eq_place_wallClock hanchor
  have hzoned : zoned = floating.filterMap (Instant.atWallClock? anchor) :=
    toList_ofRule_eq_filterMap hz hplace rule config limit hbound
  refine ⟨hzoned, pairwise_toList_ofRule rule anchor config limit, ?_⟩
  have hlist : floating = admitted limit 0 (admitted rule.count 0
      (readingsFrom rule anchor.wallClock config limit)) :=
    toList_ofRule_eq_readingsFrom rule anchor.wallClock config limit hbound
  have hfloating : floating.Sublist (readingsFrom rule anchor.wallClock config limit) := by
    rw [hlist]
    exact (admitted_sublist _ _ _).trans (admitted_sublist _ _ _)
  rw [hzoned]
  exact map_eq_append_replicate
    ((pairwise_readingsFrom_isSome hz hplace rule config limit).sublist hfloating)

def threeDays : Rule where
  freq := .daily
  count := some 3

/-- From 02:30 on 2025-03-08 in New York, where the clocks skip that time on the next day. -/
theorem toList_ofRule_carried_overGap :
    let reading : DateTime := ⟨⟨739317, by decide, by decide⟩, ⟨9000000000000, by decide⟩⟩
    let anchor : Zoned := ⟨⟨63877015800000000000, by decide, by decide⟩, Zone.newYork⟩
    threeDays.bound = none ∧ Zone.newYork.IsNamed ∧ Zone.newYork ≠ Zone.apia ∧
      Zoned.ofWallClock? Zone.newYork reading = some anchor ∧
      Source.toList (ofRule threeDays anchor {} none) =
        (Source.toList (ofRule threeDays anchor.wallClock {} none)).filterMap
          (Instant.atWallClock? anchor) := by
  intro reading anchor
  have hnamed : Zone.newYork.IsNamed := by decide
  have hzone : Zone.newYork ≠ Zone.apia := by decide
  have hanchor : Zoned.ofWallClock? Zone.newYork reading = some anchor := by decide
  exact ⟨rfl, hnamed, hzone, hanchor,
    (toList_ofRule_carried threeDays rfl hnamed hzone hanchor {} none).1⟩

end Occurrences

end Recurrence
