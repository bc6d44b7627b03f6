import Euvieouvi.Projection.Dirty
import Euvieouvi.Projection.Exact

/-!
# What the stored entries know

The completion count and the last completion of an entry depend on the events and states of its
stored members only. `Known` says that both are right in every entry without a dirty member. Changes
of events and states keep it, and so does `ensure_catalog_projection`, whether it refreshes or
rebuilds. It holds in every state of a run in which no request for a rebuild was lost
(`CatalogStep.ensured_counted`).
-/

namespace Euvieouvi

section Totals
variable {entryOf entryOf' : Nat → Option Nat} {ancestors : Nat → List Nat}
  {events events' : List WatchEvent}
  {states states' : List WatchState} {e : Nat}

theorem completionCount_foldActivity :
    (foldActivity entryOf ancestors events states e).completionCount =
      (entryTotals entryOf events states e).completionCount := by
  rw [foldActivity_apply]; rfl

theorem lastCompletedAt_foldActivity :
    (foldActivity entryOf ancestors events states e).lastCompletedAt =
      (entryTotals entryOf events states e).lastCompletedAt := by
  rw [foldActivity_apply]; rfl

theorem entryTotals_congr (hev : entryEvents entryOf events e = entryEvents entryOf' events' e)
    (hst : entryStates entryOf states e = entryStates entryOf' states' e) :
    entryTotals entryOf events states e = entryTotals entryOf' events' states' e := by
  unfold entryTotals
  rw [hev, hst]

theorem lastCompletedAt_foldl_addEvents (gs : List (Nat × List WatchEvent)) (s : Stats) :
    (gs.foldl (fun s g => s.addEvents g.2) s).lastCompletedAt =
      latest s.lastCompletedAt
        (latestOf ((gs.flatMap Prod.snd).map fun r => some r.watchedAt)) := by
  induction gs generalizing s with
  | nil => simp
  | cons g gs ih =>
    rw [List.foldl_cons, ih, List.flatMap_cons, List.map_append, latestOf_append, ← latest_assoc];
      rfl

theorem lastCompletedAt_foldl_addStates (gs : List (Nat × List WatchState)) (s : Stats) :
    (gs.foldl (fun s g => s.addStates g.2) s).lastCompletedAt =
      latest s.lastCompletedAt (latestOf ((gs.flatMap Prod.snd).map (·.completedLast))) := by
  induction gs generalizing s with
  | nil => simp
  | cons g gs ih =>
    rw [List.foldl_cons, ih, List.flatMap_cons, List.map_append, latestOf_append, ← latest_assoc];
      rfl

/-- The last completion of an entry is the latest of its events and completed states. -/
theorem lastCompletedAt_entryTotals : (entryTotals entryOf events states e).lastCompletedAt =
    latest (latestOf ((entryEvents entryOf events e).map fun r => some r.watchedAt))
      (latestOf ((entryStates entryOf states e).map (·.completedLast))) := by
  unfold entryTotals
  rw [lastCompletedAt_foldl_addStates, lastCompletedAt_foldl_addEvents]
  have hevents := latestOf_congr fun t =>
    ((flatMap_groupBy_perm (·.mediaItemId) (entryEvents entryOf events e)).map fun r =>
      some r.watchedAt).mem_iff (a := some t)
  have hstates := latestOf_congr fun t =>
    ((flatMap_groupBy_perm (·.mediaItemId) (entryStates entryOf states e)).map
      (·.completedLast)).mem_iff (a := some t)
  rw [hevents, hstates]
  rfl

end Totals

namespace Database
variable {py : PyLib} {db db' : Database} {e i : Nat} {now : Time}

/-- The totals of the stored members of an entry. -/
def memberTotals (db : Database) (e : Nat) : Stats :=
  entryTotals db.memberEntry db.watchEvents.rows db.watchStates.rows e

/-- The entry has the completions of its stored members. -/
def Counted (db : Database) (e : Nat) (entry : CatalogEntry) : Prop :=
  entry.completionCount = (db.memberTotals e).completionCount ∧
    entry.lastCompletedAt = (db.memberTotals e).lastCompletedAt

/-- Every entry without a dirty member has the completions of its members. -/
structure Known (db : Database) : Prop where
  items : ∀ i e, db.memberEntry i = some e → ∃ m, db.mediaItems.get? i = some m
  entries : ∀ i e, db.memberEntry i = some e → ∃ entry, db.catalogEntries.get? e = some entry
  clean : db.settings.projectionState = some (.clean projectionVersion) → db.dirtyItems.rows = []
  counted : ∀ e entry, db.catalogEntries.get? e = some entry →
    (∀ i, db.memberEntry i = some e → db.dirtyItems.contains i = false) → db.Counted e entry

theorem memberEntry_congr (h : db'.catalogEntryMembers = db.catalogEntryMembers) :
    db'.memberEntry = db.memberEntry := by
  unfold memberEntry; rw [h]

theorem counted_rebuilt {key : Nat × String} {entry : CatalogEntry}
    (hentry : db.rebuiltEntry py now key = entry) :
    (db.rebuildCatalogProjection py now).2.Counted key.1 entry := by
  have hplayback : (db.rebuiltEntry py now key).playback = _ := rebuiltEntry_playback key
  subst hentry
  exact ⟨(congrArg Playback.completionCount hplayback).trans completionCount_foldActivity,
    (congrArg Playback.lastCompletedAt hplayback).trans lastCompletedAt_foldActivity⟩

/-- A rebuild needs nothing from the state before. -/
theorem known_rebuild (py : PyLib) (now : Time) (db : Database) :
    (db.rebuildCatalogProjection py now).2.Known where
  items _ _ h := get?_of_canonicalByItem h
  entries i e h := by
    obtain ⟨key, hkey⟩ := groupKeyOf_of_canonicalByItem h
    exact ⟨_, get?_rebuilt.trans (congrArg _ hkey)⟩
  clean _ := rfl
  counted e entry h _ := by
    rw [get?_rebuilt] at h
    obtain ⟨key, hkey, hentry⟩ := Option.map_eq_some_iff.1 h
    rw [← groupKeyOf_fst hkey]
    exact counted_rebuilt hentry

/-! ### Refresh -/

/-- The entry of a dirty member is impacted. -/
theorem mem_impacted_of_dirty {m : MediaItem} (hm : db.mediaItems.get? i = some m)
    (hi : db.memberEntry i = some e)
    (hdirty : db.dirtyItems.contains i = true) : e ∈ db.impactedEntries := by
  obtain ⟨hrow, rfl⟩ := Table.get?_eq_some.1 hm
  obtain ⟨member, hmember, hid, rfl⟩ := memberEntry_eq_some.1 hi
  unfold impactedEntries
  rw [List.mem_eraseDups]
  refine List.mem_map_of_mem
    (List.mem_filter.2 ⟨hmember, List.any_eq_true.2 ⟨m, ?_, by simp [hid]⟩⟩)
  exact mem_recursiveRows.2 ⟨0, Nat.zero_le _, List.mem_filter.2 ⟨hrow, hdirty⟩⟩

/-- The members of an impacted entry are in the tree. -/
theorem mem_activityTree_of_member {impacted : List Nat} {m : MediaItem}
    (hm : db.mediaItems.get? i = some m)
    (hi : db.memberEntry i = some e) (he : e ∈ impacted) :
    (db.activityTree impacted).contains i = true := by
  obtain ⟨hrow, rfl⟩ := Table.get?_eq_some.1 hm
  rw [List.contains_iff_mem]
  unfold activityTree
  rw [List.mem_eraseDups]
  refine List.mem_map_of_mem (mem_recursiveRows.2 ⟨0, Nat.zero_le _, List.mem_filter.2 ⟨hrow, ?_⟩⟩)
  rw [hi]
  simpa using he

theorem refreshedEntryOf_members {impacted : List Nat} (h : db.Known) (he : e ∈ impacted) :
    (within (db.activityTree impacted).contains db.memberEntry i).filter impacted.contains =
      some e ↔
      db.memberEntry i = some e := by
  rw [Option.filter_eq_some_iff, within_eq_some]
  constructor
  · exact fun hi => hi.1.2
  · intro hi
    obtain ⟨m, hm⟩ := h.items i e hi
    exact ⟨⟨mem_activityTree_of_member hm hi he, hi⟩, List.contains_iff_mem.2 he⟩

/-- The refresh counts the completions of all members of an impacted entry. -/
theorem refreshedTotals (h : db.Known) {impacted : List Nat} (he : e ∈ impacted) :
    (db.refreshedStats impacted (db.activityTree impacted) e).completionCount =
      (db.memberTotals e).completionCount ∧
      (db.refreshedStats impacted (db.activityTree impacted) e).lastCompletedAt =
        (db.memberTotals e).lastCompletedAt := by
  have htree : ∀ {i}, db.memberEntry i = some e → (db.activityTree impacted).contains i = true :=
      fun {i} hi => by
    obtain ⟨m, hm⟩ := h.items i e hi
    exact mem_activityTree_of_member hm hi he
  have htotals : entryTotals (fun i =>
      (within (db.activityTree impacted).contains db.memberEntry i).filter impacted.contains)
      (db.watchEvents.rows.filter fun r => (db.activityTree impacted).contains r.mediaItemId)
      (db.watchStates.rows.filter fun r => (db.activityTree impacted).contains r.mediaItemId) e =
        db.memberTotals e := by
    refine entryTotals_congr ?_ ?_
    · unfold entryEvents
      simp only [List.filter_filter, refreshedEntryOf_members h he]
      refine List.filter_congr fun r _ => ?_
      by_cases hr : db.memberEntry r.mediaItemId = some e
      · rw [htree hr, Bool.and_true]
      · simp [hr]
    · unfold entryStates
      simp only [List.filter_filter, refreshedEntryOf_members h he]
      refine List.filter_congr fun r _ => ?_
      by_cases hr : db.memberEntry r.mediaItemId = some e
      · rw [htree hr, Bool.and_true]
      · simp [hr]
  unfold refreshedStats
  rw [completionCount_foldActivity, lastCompletedAt_foldActivity, htotals]
  exact ⟨rfl, rfl⟩

theorem counted_refreshEntry (h : db.Known) {impacted : List Nat} {entry : CatalogEntry}
    (he : entry.mediaItemId ∈ impacted) :
    db.Counted entry.mediaItemId
      (db.refreshEntry now impacted (db.activityTree impacted) entry) := by
  obtain ⟨hcount, hlast⟩ := refreshedTotals h he
  unfold Counted
  rw [← hcount, ← hlast]
  unfold refreshEntry
  split
  · exact ⟨rfl, rfl⟩
  · exact ⟨rfl, rfl⟩

/-- A refresh recounts the impacted entries, and the others have no dirty member. -/
theorem known_refresh (h : db.Known) (py : PyLib) (now : Time) :
    (db.refreshCatalogActivity py now).2.Known := by
  by_cases hdirty : db.dirtyItems.rows = []
  · have hlen : db.dirtyItems.rows.length = 0 := by simp [hdirty]
    unfold refreshCatalogActivity
    rw [if_pos hlen]
    exact known_rebuild py now db
  have hrefreshed := fun e => @get?_refreshed py db e now hdirty
  have hframe : (db.refreshCatalogActivity py now).2.catalogEntryMembers = db.catalogEntryMembers ∧
      (db.refreshCatalogActivity py now).2.mediaItems = db.mediaItems ∧
      (db.refreshCatalogActivity py now).2.watchEvents = db.watchEvents ∧
      (db.refreshCatalogActivity py now).2.watchStates = db.watchStates ∧
      (db.refreshCatalogActivity py now).2.dirtyItems.rows = [] := by
    have hlen : db.dirtyItems.rows.length ≠ 0 := by simpa using hdirty
    unfold refreshCatalogActivity
    rw [if_neg hlen]
    dsimp only
    split
    · exact ⟨rfl, rfl, rfl, rfl, rfl⟩
    · exact ⟨rfl, rfl, rfl, rfl, rfl⟩
  generalize (db.refreshCatalogActivity py now).2 = db' at hrefreshed hframe
  obtain ⟨hmembers, hitems, hevents, hstates, hclean⟩ := hframe
  have hmember := memberEntry_congr hmembers
  have htotals : ∀ e, db'.memberTotals e = db.memberTotals e := fun e => by
    unfold memberTotals; rw [hmember, hevents, hstates]
  refine ⟨fun i e hi => ?_, fun i e hi => ?_, fun _ => hclean, fun e entry hentry _ => ?_⟩
  · rw [hmember] at hi
    rw [hitems]
    exact h.items i e hi
  · rw [hmember] at hi
    obtain ⟨entry, hentry⟩ := h.entries i e hi
    exact ⟨_, (hrefreshed e).trans (congrArg _ hentry)⟩
  · obtain ⟨stored, hstored, hnew⟩ := Option.map_eq_some_iff.1 ((hrefreshed e).symm.trans hentry)
    have hid : stored.mediaItemId = e := Table.key_of_get? hstored
    unfold Counted
    rw [htotals]
    subst hnew
    split
    next himpacted =>
      have hmem : stored.mediaItemId ∈ db.impactedEntries := List.contains_iff_mem.1 himpacted
      rw [← hid]
      exact counted_refreshEntry h hmem
    next hno =>
      refine h.counted e stored hstored fun i hi => ?_
      rw [Bool.eq_false_iff]
      intro hdirtyItem
      obtain ⟨m, hm⟩ := h.items i e hi
      exact hno (List.contains_iff_mem.2 (hid ▸ mem_impacted_of_dirty hm hi hdirtyItem))

theorem known_ensure (h : db.Known) (py : PyLib) (now : Time) :
    (db.ensureCatalogProjection py now).2.Known := by
  unfold ensureCatalogProjection
  dsimp only
  split
  · exact h
  · split
    · exact known_refresh h py now
    · exact known_rebuild py now db

theorem ensure_of_needsRebuild (h : db.needsRebuild = true) :
    (db.ensureCatalogProjection py now).2 = (db.rebuildCatalogProjection py now).2 := by
  unfold needsRebuild at h
  rw [Bool.and_eq_true, Bool.not_eq_true', Bool.not_eq_true', decide_eq_false_iff_not,
    decide_eq_false_iff_not] at h
  obtain ⟨hstale, hactivity⟩ := h
  unfold ensureCatalogProjection
  dsimp only
  rw [if_neg hstale]
  split
  next hstate =>
    have hlen : db.dirtyItems.rows.length = 0 := by
      by_contra hne
      exact hactivity ⟨hstate.1, hstate.2, hne⟩
    unfold refreshCatalogActivity
    rw [if_pos hlen]
  next => rfl

theorem dirtyItems_ensure (h : db.Known) (py : PyLib) (now : Time) :
    (db.ensureCatalogProjection py now).2.dirtyItems.rows = [] := by
  unfold ensureCatalogProjection
  dsimp only
  split
  next hclean => exact h.clean hclean.1
  next =>
    split
    · unfold refreshCatalogActivity
      dsimp only
      split
      · rfl
      · split
        · rfl
        · rfl
    · rfl

theorem known_activity (h : db.Known) (s : ActivityStatement) : (s.apply db).Known := by
  have hactivity := ActivityOnly.apply s db
  have hmember := memberEntry_congr hactivity.catalogEntryMembers
  have hitems : (s.apply db).mediaItems = db.mediaItems :=
    congrArg IdentityRows.mediaItems hactivity.identityRows
  refine ⟨fun i e hi => ?_, fun i e hi => ?_, fun hstate => ?_, fun e entry hentry hno => ?_⟩
  · rw [hmember] at hi
    rw [hitems]
    exact h.items i e hi
  · rw [hmember] at hi
    rw [hactivity.catalogEntries]
    exact h.entries i e hi
  · obtain ⟨events, states, hs⟩ := s.apply_eq db
    rw [hs] at hstate ⊢
    generalize s.items db = items at hstate ⊢
    rcases items with - | ⟨i, items⟩
    · exact h.clean hstate
    · have hmark : db.settings.projectionState.map ProjectionState.markActivity =
          some (.clean projectionVersion) := hstate
      obtain ⟨state, -, hstate⟩ := Option.map_eq_some_iff.1 hmark
      cases state <;> cases hstate
  · rw [hactivity.catalogEntries] at hentry
    rw [hmember] at hno
    -- no member is dirty, so neither its events nor its states have changed
    set keep : Nat → Bool := fun i => !(s.apply db).dirtyItems.contains i with hkeep
    have hkept : ∀ i, (s.apply db).dirtyItems.contains i = true → keep i = false :=
      fun i hi => by rw [hkeep]; simp [hi]
    have hself : ∀ {i}, db.memberEntry i = some e → keep i = true :=
      fun {i} hi => by rw [hkeep]; simp [hno i hi]
    have hfilter : ∀ {ρ : Type} (item : ρ → Nat) (rows : List ρ),
        rows.filter (fun r => db.memberEntry (item r) = some e) =
        (rows.filter fun r => keep (item r)).filter fun r => db.memberEntry (item r) = some e := by
      intro ρ item rows
      rw [List.filter_filter]
      refine List.filter_congr fun r _ => ?_
      by_cases hr : db.memberEntry (item r) = some e
      · simp [hr, hself hr]
      · simp [hr]
    have htotals : (s.apply db).memberTotals e = db.memberTotals e := by
      unfold memberTotals
      rw [hmember]
      refine entryTotals_congr ?_ ?_
      · unfold entryEvents
        have hcomm : ∀ rows : List WatchEvent,
            (rows.filter (·.completed)).filter (fun r => keep r.mediaItemId) =
            (rows.filter fun r => keep r.mediaItemId).filter (·.completed) := fun rows => by
          rw [List.filter_filter, List.filter_filter]; simp only [Bool.and_comm]
        rw [hfilter WatchEvent.mediaItemId,
          hfilter WatchEvent.mediaItemId (db.watchEvents.rows.filter _), hcomm, hcomm,
          hactivity.events keep hkept]
      · unfold entryStates
        rw [hfilter WatchState.mediaItemId, hfilter WatchState.mediaItemId db.watchStates.rows,
          hactivity.states keep hkept]
    unfold Counted
    rw [htotals]
    refine h.counted e entry hentry fun i hi => ?_
    cases hd : db.dirtyItems.contains i with
    | false => rfl
    | true => exact absurd ((hno i hi).symm.trans (hactivity.dirty i hd)) Bool.false_ne_true

theorem known_empty (settings : Settings) : Known { Database.empty with settings := settings } :=
  ⟨fun _ _ h => (by cases h), fun _ _ h => (by cases h), fun _ => rfl, fun _ _ h => (by cases h)⟩

/-- The tables that neither the projection reads nor a trigger of it watches are replaced. -/
def replaceOthers (db' db : Database) : Database :=
  { db' with
    mediaItems := db.mediaItems
    sourceMediaRefs := db.sourceMediaRefs
    mediaFilePaths := db.mediaFilePaths
    mediaIdentifiers := db.mediaIdentifiers
    watchEvents := db.watchEvents
    watchStates := db.watchStates
    catalogEntries := db.catalogEntries
    catalogEntryMembers := db.catalogEntryMembers
    dirtyItems := db.dirtyItems
    settings := { db'.settings with projectionState := db.settings.projectionState } }

end Database

/-- What happens to the database between two looks at the catalog. -/
inductive CatalogStep
  | projection (e : ProjectionEvent)
  | elsewhere (db : Database)

namespace CatalogStep
variable {py : PyLib} {s : ProjectionRun} {now : Time}

def step (py : PyLib) (s : ProjectionRun) : CatalogStep → ProjectionRun
  | projection e => s.step py e
  | elsewhere db => { s with db := Database.replaceOthers db s.db }

/-- No request for a rebuild is lost in the step. -/
def Allowed (py : PyLib) (s : ProjectionRun) : CatalogStep → Prop
  | projection e => s.Allowed py e
  | elsewhere _ => True

/-- The projection is rebuilt by the next call, or its entries are known. -/
structure Inv (py : PyLib) (s : ProjectionRun) : Prop where
  honoured : s.Honoured py
  known : s.stale = false → s.db.Known

namespace Inv

/-- After the next call all entries are known, and no item is dirty. -/
theorem ensured (h : Inv py s) (now : Time) :
    (s.db.ensureCatalogProjection py now).2.Known ∧
    (s.db.ensureCatalogProjection py now).2.dirtyItems.rows = [] := by
  cases hstale : s.stale with
  | false =>
    exact ⟨Database.known_ensure (h.known hstale) py now,
      Database.dirtyItems_ensure (h.known hstale) py now⟩
  | true =>
    rw [Database.ensure_of_needsRebuild (ProjectionRun.honoured_iff.1 h.honoured hstale)]
    exact ⟨Database.known_rebuild py now s.db, rfl⟩

theorem known_projection (h : Inv py s) : ∀ e : ProjectionEvent, (s.step py e).stale = false →
    (s.step py e).db.Known
  | .markStale, hs => by cases hs
  | .identity i, hs => by
    obtain ⟨hs, hwrites⟩ := Bool.or_eq_false_iff.1 hs
    show (i.apply s.db).Known
    rw [IdentityStatement.apply_of_not_writes hwrites]
    exact h.known hs
  | .activity a, hs => Database.known_activity (h.known hs) a
  | .paths p, hs => by
    obtain ⟨hs, -⟩ := Bool.or_eq_false_iff.1 hs
    obtain ⟨paths, hp⟩ := p.apply_eq py s.db
    have hknown := h.known hs
    show (p.apply py s.db).Known
    rw [hp]
    exact ⟨hknown.items, hknown.entries, hknown.clean, hknown.counted⟩
  | .ensure now, _ => (h.ensured now).1

theorem step {e : CatalogStep} (h : Inv py s) (he : e.Allowed py s) : Inv py (e.step py s) := by
  cases e with
  | elsewhere db =>
    have hneeds : (Database.replaceOthers db s.db).needsRebuild = s.db.needsRebuild := rfl
    refine ⟨ProjectionRun.honoured_iff.2 fun hs =>
      hneeds.trans (ProjectionRun.honoured_iff.1 h.honoured hs), fun hs => ?_⟩
    have hknown := h.known hs
    exact ⟨hknown.items, hknown.entries, hknown.clean, hknown.counted⟩
  | projection e => exact ⟨(ProjectionRun.step_honoured h.honoured e).2 he, h.known_projection e⟩

theorem start (settings : Settings) :
    Inv py ⟨{ Database.empty with settings := settings }, false⟩ :=
  ⟨fun h => (by cases h), fun _ => Database.known_empty settings⟩

end Inv

/-- In a run from an empty database that loses no request for a rebuild, every entry has the
completions of its members after `ensure_catalog_projection`. -/
theorem ensured_counted {settings : Settings} {events : List CatalogStep}
    (h : Along (step py) (Allowed py) ⟨{ Database.empty with settings := settings }, false⟩ events)
    (now : Time)
    {db : Database}
    (hdb : db = (events.foldl (step py) ⟨{ Database.empty with settings := settings }, false⟩).db) :
    (db.ensureCatalogProjection py now).2.Known ∧
    ∀ e entry, (db.ensureCatalogProjection py now).2.catalogEntries.get? e = some entry →
      (db.ensureCatalogProjection py now).2.Counted e entry := by
  subst hdb
  have hinv := h.invariant (fun _ _ hs he => Inv.step hs he) (Inv.start settings)
  obtain ⟨hknown, hclean⟩ := hinv.ensured now
  refine ⟨hknown, fun e entry hentry => hknown.counted e entry hentry fun i _ => ?_⟩
  rw [Bool.eq_false_iff]
  intro hdirty
  obtain ⟨r, hr⟩ := Option.isSome_iff_exists.1 hdirty
  have hmem := Table.mem_of_get? hr
  rw [hclean] at hmem
  cases hmem

end CatalogStep

end Euvieouvi
