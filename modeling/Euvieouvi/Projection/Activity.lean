import Euvieouvi.Projection.Members

/-!
# What the loops leave under an entry

The values `foldActivity` leaves under one entry depend on the events and states of its members, and
on the last playback of every item that has a member among its ancestors (`foldActivity_congr`). The
completion count is positive exactly when a member has a completed event or a counted completion
(`completionCount_pos`).
-/

namespace Euvieouvi

variable {ρ : Type}

theorem lookup_addActivity (d : Dict Nat Time) (k i : Nat) (o : Option Time) :
    (addActivity d k o).lookup i = if k = i then latest (d.lookup i) o else d.lookup i := by
  cases o with
  | none => simp [addActivity]
  | some last =>
    by_cases hk : k = i
    · subst hk
      rw [if_pos rfl, addActivity, Dict.lookup_upsert_self]
      cases d.lookup k with
      | none => rfl
      | some known => rw [latest_some_some]; rfl
    · rw [if_neg hk, addActivity, Dict.lookup_upsert_of_ne (Ne.symm hk)]

theorem latestOf_append (l l' : List (Option Time)) : latestOf (l ++ l') = latest (latestOf l)
    (latestOf l') := by
  rw [← foldl_latest, latestOf, List.foldl_append]; rfl

theorem lookup_foldl_addActivity (v : ρ → Option Time) (groups : List (Nat × List ρ))
    (d : Dict Nat Time) (i : Nat) :
    (groups.foldl (fun d g => addActivity d g.1 (latestOf (g.2.map v))) d).lookup i =
      latest (d.lookup i)
      (latestOf (((groups.filter fun g => g.1 = i).flatMap Prod.snd).map v)) := by
  induction groups generalizing d with
  | nil => simp
  | cons g groups ih =>
    rw [List.foldl_cons, ih, lookup_addActivity]
    by_cases hg : g.1 = i
    · rw [if_pos hg, List.filter_cons_of_pos (by simpa using hg), List.flatMap_cons,
        List.map_append,
        latestOf_append, latest_assoc]
    · rw [if_neg hg, List.filter_cons_of_neg (by simpa using hg)]

theorem latestOf_groupBy (key : ρ → Nat) (v : ρ → Option Time) (rows : List ρ) (i : Nat) :
    latestOf ((((groupBy key rows).filter fun g => g.1 = i).flatMap Prod.snd).map v) =
      latestOf ((rows.filter fun r => key r = i).map v) := by
  have hfilter : ((groupBy key rows).filter fun g => g.1 = i) =
      groupBy key (rows.filter fun r => key r = i) :=
    groupBy_filter (fun k => decide (k = i)) rows
  rw [hfilter]
  refine latestOf_congr fun x => ?_
  exact ((flatMap_groupBy_perm key _).map v).mem_iff

theorem lookup_activityByItem (events : List WatchEvent) (states : List WatchState) (i : Nat) :
    (activityByItem events states).lookup i =
      latest
        (latestOf (((events.filter (·.completed)).filter (·.mediaItemId = i)).map fun e =>
          some e.watchedAt))
        (latestOf ((states.filter (·.mediaItemId = i)).map (·.playbackTime))) := by
  unfold activityByItem
  rw [lookup_foldl_addActivity, lookup_foldl_addActivity, Dict.lookup_empty, latest_none_left,
    latestOf_groupBy, latestOf_groupBy]

/-- Restricted to the rows of some items, the loops know the last playback of these items only. -/
theorem lookup_activityByItem_filter (p : Nat → Bool) (events : List WatchEvent)
    (states : List WatchState) (i : Nat) :
    (activityByItem (events.filter fun r => p r.mediaItemId)
      (states.filter fun r => p r.mediaItemId)).lookup i =
      if p i then (activityByItem events states).lookup i else none := by
  have hrows : ∀ {ρ : Type} (item : ρ → Nat) (rows : List ρ),
      (rows.filter fun r => p (item r)).filter (item · = i) =
      if p i then rows.filter (item · = i) else [] := by
    intro ρ item rows
    rw [List.filter_filter]
    cases hp : p i with
    | true =>
      rw [if_pos rfl]
      refine List.filter_congr fun r _ => ?_
      by_cases hr : item r = i <;> simp [hr, hp]
    | false =>
      rw [if_neg Bool.false_ne_true, List.filter_eq_nil_iff]
      rintro r - hr
      obtain ⟨hr, hpr⟩ := Bool.and_eq_true_iff.1 hr
      rw [of_decide_eq_true hr, hp] at hpr; cases hpr
  have hcompleted : ∀ rows : List WatchEvent,
      (rows.filter fun r => p r.mediaItemId).filter (·.completed) =
      (rows.filter (·.completed)).filter fun r => p r.mediaItemId := by
    intro rows
    rw [List.filter_filter, List.filter_filter]
    simp only [Bool.and_comm]
  rw [lookup_activityByItem, lookup_activityByItem, hcompleted, hrows, hrows]
  cases p i <;> rfl

/-! ### The value of an entry -/

section Entry
variable {entryOf entryOf' : Nat → Option Nat} {ancestors ancestors' : Nat → List Nat}
  {events events' : List WatchEvent} {states states' : List WatchState} {e : Nat}

/-- The completed events of the members of an entry. -/
def entryEvents (entryOf : Nat → Option Nat) (events : List WatchEvent) (e : Nat) :
    List WatchEvent :=
  (events.filter (·.completed)).filter fun r => entryOf r.mediaItemId = some e

def entryStates (entryOf : Nat → Option Nat) (states : List WatchState) (e : Nat) :
    List WatchState :=
  states.filter fun r => entryOf r.mediaItemId = some e

/-- The last playbacks that count for an entry, once for each way up to one of its members. -/
def entryPlayed (entryOf : Nat → Option Nat) (ancestors : Nat → List Nat)
    (activity : Dict Nat Time) (e : Nat) :
    List (Option Time) :=
  activity.rows.flatMap fun item =>
    ((ancestors item.1).filter fun i => entryOf i = some e).map fun _ => some item.2

def entryTotals (entryOf : Nat → Option Nat) (events : List WatchEvent)
    (states : List WatchState) (e : Nat) :
    Stats :=
  (groupBy (·.mediaItemId) (entryStates entryOf states e)).foldl (fun s g => s.addStates g.2)
    ((groupBy (·.mediaItemId) (entryEvents entryOf events e)).foldl (fun s g => s.addEvents g.2) {})

/-- The playbacks of a list are added one after the other. -/
def Stats.addLatest (s : Stats) (played : Option Time) : Stats :=
  { s with lastPlayedAt := latest s.lastPlayedAt played }

theorem foldl_played (entryOf : Nat → Option Nat) (ancestors : Nat → List Nat)
    (items : List (Nat × Time)) (stats : Nat → Stats) (e : Nat) :
    items.foldl (fun stats item =>
        (ancestors item.1).foldl
          (fun stats i => modifyAt (entryOf i) (Stats.addPlayed item.2) stats) stats)
      stats e =
    (stats e).addLatest (latestOf (items.flatMap fun item =>
      ((ancestors item.1).filter fun i => entryOf i = some e).map fun _ => some item.2)) := by
  have hassoc : ∀ (s : Stats) (a b : Option Time),
      (s.addLatest a).addLatest b = s.addLatest (latest a b) :=
    fun s a b => by simp only [Stats.addLatest, latest_assoc]
  have hnone : ∀ s : Stats, s.addLatest none = s := fun s => by simp [Stats.addLatest]
  have hplayed : ∀ (l : List Nat) (t : Time) (s : Stats), l.foldl (fun s _ => s.addPlayed t) s =
      s.addLatest (latestOf (l.map fun _ => some t)) := by
    intro l t
    induction l with
    | nil => exact fun s => (hnone s).symm
    | cons i l ih =>
      intro s
      rw [List.foldl_cons, ih, List.map_cons, latestOf_cons, ← hassoc]; rfl
  induction items generalizing stats with
  | nil => exact (hnone _).symm
  | cons item items ih =>
    rw [List.foldl_cons, ih, foldl_modifyAt entryOf (fun _ => Stats.addPlayed item.2), hplayed,
      List.flatMap_cons, latestOf_append, hassoc]

theorem foldActivity_apply :
    foldActivity entryOf ancestors events states e =
      (entryTotals entryOf events states e).addLatest
        (latestOf (entryPlayed entryOf ancestors (activityByItem events states) e)) := by
  have hfilter : ∀ {ρ : Type} (item : ρ → Nat) (rows : List ρ),
      ((groupBy item rows).filter fun g => entryOf g.1 = some e) =
        groupBy item (rows.filter fun r => entryOf (item r) = some e) :=
    fun item rows => groupBy_filter (fun k => decide (entryOf k = some e)) rows
  unfold foldActivity
  rw [foldl_played,
    foldl_modifyAt (fun g : Nat × List WatchState => entryOf g.1) (fun g => Stats.addStates g.2),
      hfilter,
    foldl_modifyAt (fun g : Nat × List WatchEvent => entryOf g.1) (fun g => Stats.addEvents g.2),
      hfilter]
  rfl

theorem mem_entryPlayed {activity : Dict Nat Time} {t : Time} :
    some t ∈ entryPlayed entryOf ancestors activity e ↔
      ∃ i, activity.lookup i = some t ∧ ∃ a ∈ ancestors i, entryOf a = some e := by
  unfold entryPlayed
  constructor
  · intro h
    obtain ⟨⟨i, t'⟩, hi, h⟩ := List.mem_flatMap.1 h
    obtain ⟨a, ha, ht⟩ := List.mem_map.1 h
    obtain ⟨ha, he⟩ := List.mem_filter.1 ha
    cases ht
    exact ⟨i, Dict.mem_rows_iff.1 hi, a, ha, by simpa using he⟩
  · rintro ⟨i, hi, a, ha, he⟩
    exact List.mem_flatMap.2 ⟨(i, t), Dict.mem_rows_iff.2 hi,
      List.mem_map.2 ⟨a, List.mem_filter.2 ⟨ha, by simpa using he⟩, rfl⟩⟩

theorem foldActivity_congr (hev : entryEvents entryOf events e = entryEvents entryOf' events' e)
    (hst : entryStates entryOf states e = entryStates entryOf' states' e)
    (hplayed : ∀ t, (∃ i, (activityByItem events states).lookup i = some t ∧ ∃ a ∈ ancestors i,
      entryOf a = some e) ↔
      ∃ i, (activityByItem events' states').lookup i = some t ∧ ∃ a ∈ ancestors' i,
        entryOf' a = some e) :
    foldActivity entryOf ancestors events states e =
      foldActivity entryOf' ancestors' events' states' e := by
  rw [foldActivity_apply, foldActivity_apply]
  have hlast :=
    latestOf_congr fun t => (mem_entryPlayed.trans (hplayed t)).trans mem_entryPlayed.symm
  rw [hlast]
  unfold entryTotals
  rw [hev, hst]

theorem lt_foldl_max {l : List Nat} {n m : Nat} : n < l.foldl max m ↔ n < m ∨ ∃ x ∈ l, n < x := by
  induction l generalizing m with
  | nil => simp
  | cons x l ih => rw [List.foldl_cons, ih]; simp [or_assoc]

theorem completionCount_foldl_addEvents (gs : List (Nat × List WatchEvent)) (s : Stats) :
    (gs.foldl (fun s g => s.addEvents g.2) s).completionCount =
      s.completionCount + (gs.flatMap Prod.snd).length := by
  induction gs generalizing s with
  | nil => rfl
  | cons g gs ih =>
    rw [List.foldl_cons, ih, List.flatMap_cons, List.length_append, ← Nat.add_assoc]; rfl

theorem completionCount_foldl_addStates (gs : List (Nat × List WatchState)) (s : Stats) :
    0 < (gs.foldl (fun s g => s.addStates g.2) s).completionCount ↔
      0 < s.completionCount ∨ ∃ r ∈ gs.flatMap Prod.snd, 0 < r.completedCount := by
  induction gs generalizing s with
  | nil => simp
  | cons g gs ih =>
    rw [List.foldl_cons, ih]
    have : 0 < (s.addStates g.2).completionCount ↔ 0 < s.completionCount ∨
        ∃ r ∈ g.2, 0 < r.completedCount := by
      show 0 < max s.completionCount (maxOf _) ↔ _
      rw [lt_max_iff, maxOf, lt_foldl_max]; simp
    rw [this]
    simp only [List.flatMap_cons, List.mem_append]
    constructor
    · rintro ((h | ⟨r, hr, h⟩) | ⟨r, hr, h⟩)
      exacts [.inl h, .inr ⟨r, .inl hr, h⟩, .inr ⟨r, .inr hr, h⟩]
    · rintro (h | ⟨r, hr | hr, h⟩)
      exacts [.inl (.inl h), .inl (.inr ⟨r, hr, h⟩), .inr ⟨r, hr, h⟩]

/-- An entry counts as completed when a member has a completed event or a counted completion. -/
theorem completionCount_pos :
    0 < (foldActivity entryOf ancestors events states e).completionCount ↔
      (∃ r ∈ events, r.completed = true ∧ entryOf r.mediaItemId = some e) ∨
        ∃ r ∈ states, entryOf r.mediaItemId = some e ∧ 0 < r.completedCount := by
  rw [foldActivity_apply]
  show 0 < (entryTotals entryOf events states e).completionCount ↔ _
  unfold entryTotals
  rw [completionCount_foldl_addStates, completionCount_foldl_addEvents,
    (flatMap_groupBy_perm _ (entryEvents entryOf events e)).length_eq]
  have hstates : (∃ r ∈ (groupBy (·.mediaItemId) (entryStates entryOf states e)).flatMap Prod.snd,
      0 < r.completedCount) ↔ ∃ r ∈ states, entryOf r.mediaItemId = some e ∧
        0 < r.completedCount := by
    refine exists_congr fun r => ?_
    rw [(flatMap_groupBy_perm _ (entryStates entryOf states e)).mem_iff, entryStates,
      List.mem_filter,
      decide_eq_true_eq, and_assoc]
  rw [hstates]
  refine or_congr ?_ Iff.rfl
  show 0 < 0 + _ ↔ _
  rw [Nat.zero_add, List.length_pos_iff_exists_mem]
  simp only [entryEvents, List.mem_filter, decide_eq_true_eq, and_assoc]

end Entry

end Euvieouvi
