import Euvieouvi.WatchSync.Prepare

/-!
# Propagation and the times of collection

`observed_at` stands in for a missing date when `_prepare` (`sync/watch_sync.py`) notes that an item
is completed. It is part of the maxima over a group, but a decision only asks whether there is one,
and a candidate takes its dates from elsewhere. So two databases that differ in these times alone
give the same candidates.
-/

namespace Euvieouvi

/-- The state without the time at which it was collected. -/
def WatchState.unobserved : Assignment WatchState.key where
  apply s := { s with observedAt := 0 }

namespace Database
variable (db : Database)

/-- The database without the times at which its states were collected. -/
def unobserved : Database :=
  { db with watchStates := db.watchStates.update (fun _ => true) WatchState.unobserved }

/-- Nothing but `observed_at` of the states tells the two apart. -/
def SameButObserved (db db' : Database) : Prop := db.unobserved = db'.unobserved

variable {db} (pair : WatchPair) (type : ConnectorType) (item : Nat) (scope : Option (List Nat))
  (group : List Nat)
  (direction : Direction)

theorem get?_unobserved (db : Database) (k : Nat × Nat) :
    db.unobserved.watchStates.get? k = (db.watchStates.get? k).map fun s =>
      { s with observedAt := 0 } := by
  rw [unobserved, Table.get?_update]
  cases db.watchStates.get? k <;> rfl

/-- Whether an item is known to be completed does not depend on the stand-in for its date. -/
theorem isSome_watched_unobserved :
    (db.unobserved.watched pair type item).isSome = (db.watched pair type item).isSome := by
  unfold watched
  rw [get?_unobserved]
  cases db.watchStates.get? (item, pair.id type) with
  | none => rfl
  | some s =>
    dsimp only [Option.map_some]
    split <;> rfl

theorem partialProgress_unobserved :
    db.unobserved.partialProgress pair type item = db.partialProgress pair type item := by
  unfold partialProgress
  rw [get?_unobserved]
  cases db.watchStates.get? (item, pair.id type) <;> rfl

theorem knownDates_unobserved :
    db.unobserved.knownDates pair type item = db.knownDates pair type item := by
  unfold knownDates
  rw [get?_unobserved]
  cases db.watchStates.get? (item, pair.id type) <;> rfl

theorem isSome_latestOf_map {α : Type} {f g : α → Option Time} {l : List α}
    (h : ∀ a ∈ l, (f a).isSome = (g a).isSome) :
    (latestOf (l.map f)).isSome = (latestOf (l.map g)).isSome := by
  have hnone : latestOf (l.map f) = none ↔ latestOf (l.map g) = none := by
    simp only [latestOf_eq_none, List.forall_mem_map]
    refine forall₂_congr fun a ha => ?_
    rw [← Option.isNone_iff_eq_none, ← Option.isNone_iff_eq_none, ← Option.not_isSome,
      ← Option.not_isSome, h a ha]
  rw [Bool.eq_iff_iff, Option.isSome_iff_ne_none, Option.isSome_iff_ne_none]
  exact not_congr hnone

theorem isSome_watchedBySource_unobserved :
    (db.unobserved.watchedBySource pair group type).isSome =
      (db.watchedBySource pair group type).isSome :=
  isSome_latestOf_map fun item _ => isSome_watched_unobserved pair type item

theorem progressBySource_unobserved :
    db.unobserved.progressBySource pair group = db.progressBySource pair group := by
  funext type
  unfold progressBySource
  congr 1
  exact List.map_congr_left fun item _ => partialProgress_unobserved pair type item

/-- A decision asks of a date only whether there is one. -/
theorem propagationDecision_congr {watched watched' : ConnectorType → Option Time}
    {progress : ConnectorType → Nat} (h : ∀ type, (watched type).isSome = (watched' type).isSome) :
    propagationDecision direction watched progress =
      propagationDecision direction watched' progress := by
  have hnone : ∀ type, (watched type).isNone = (watched' type).isNone := fun type => by
    rw [← Option.not_isSome, ← Option.not_isSome, h type]
  unfold propagationDecision
  simp only [h, hnone]

theorem groupDecision_unobserved :
    db.unobserved.groupDecision pair direction group = db.groupDecision pair direction group := by
  unfold groupDecision
  rw [progressBySource_unobserved]
  exact propagationDecision_congr direction fun type =>
    isSome_watchedBySource_unobserved pair type group

/-- A candidate takes its dates from events and from the states' own dates. -/
theorem candidate_unobserved (d : PropagationDecision) :
    db.unobserved.candidate pair scope group d = db.candidate pair scope group d := by
  unfold candidate
  simp only [knownDates_unobserved]
  rfl

theorem scannedGroups_unobserved :
    db.unobserved.scannedGroups pair scope = db.scannedGroups pair scope := by
  unfold scannedGroups
  rw [show db.unobserved.matchingItemGroups _ =
    db.matchingItemGroups _ from matchingItemGroups_congr rfl _]
  rfl

theorem prepareIn_unobserved :
    db.unobserved.prepareIn pair direction scope = db.prepareIn pair direction scope := by
  have hcandidate : db.unobserved.candidate pair scope = db.candidate pair scope :=
    funext fun group => funext fun d => candidate_unobserved pair scope group d
  unfold prepareIn
  simp only [scannedGroups_unobserved, groupDecision_unobserved, hcandidate]

theorem changedItems_unobserved (cutoff : Time) :
    db.unobserved.changedItems pair direction cutoff = db.changedItems pair direction cutoff := by
  have hstates : (db.unobserved.watchStates.rows.filter fun s =>
        (pair.relevantSources direction).contains s.sourceId && decide (cutoff ≤ s.updatedAt)).map
          (·.mediaItemId) =
      (db.watchStates.rows.filter fun s =>
        (pair.relevantSources direction).contains s.sourceId && decide (cutoff ≤ s.updatedAt)).map
          (·.mediaItemId) := by
    unfold unobserved
    rw [Table.rows_update, List.filter_map, List.map_map]
    rfl
  unfold changedItems
  rw [hstates]
  rfl

theorem incrementalScope_unobserved (scanStartedAt : Time) :
    db.unobserved.incrementalScope pair direction scanStartedAt =
      db.incrementalScope pair direction scanStartedAt := by
  unfold incrementalScope
  simp only [changedItems_unobserved]
  rfl

end Database

theorem WatchSyncService.prepare_unobserved (service : WatchSyncService) (db : Database)
    (direction : Direction)
    (scanStartedAt : Time) : service.prepare db.unobserved direction scanStartedAt =
      service.prepare db direction scanStartedAt := by
  have hpair : service.pair? db.unobserved = service.pair? db := rfl
  unfold prepare
  rw [hpair]
  cases service.pair? db with
  | none => rfl
  | some pair =>
    simp only [Database.incrementalScope_unobserved, Database.prepareIn_unobserved]

/-- Two databases that only the times of collection tell apart give the same result: the same scope,
the same numbers of scanned and skipped groups and the same candidates, in every direction and for
every scope. -/
theorem prepare_independent_of_observed_at (service : WatchSyncService) {db db' : Database}
    (h : db.SameButObserved db') (direction : Direction) :
    (∀ scanStartedAt, service.prepare db direction scanStartedAt =
      service.prepare db' direction scanStartedAt) ∧
      ∀ pair scope, db.prepareIn pair direction scope = db'.prepareIn pair direction scope := by
  refine ⟨fun scanStartedAt => ?_, fun pair scope => ?_⟩
  · rw [← service.prepare_unobserved db, ← service.prepare_unobserved db', h]
  · rw [← db.prepareIn_unobserved, ← db'.prepareIn_unobserved, h]

/-- A movie on both servers that Plex has completed at an unknown time. -/
def undatedCompletion (observedAt : Time) : Database :=
  { Database.empty with
    settings := { plexUserId := some "a" }
    sources := (Table.empty.insert { id := 1, connectorType := .plex }).insert
      { id := 2, connectorType := .jellyfin }
    mediaItems := .insert .empty { id := 1, kind := .movie }
    sourceMediaRefs := (Table.empty.insert
      { id := 1, sourceId := 1, libraryId := 1, mediaItemId := 1, externalId := "p" }).insert
      { id := 2, sourceId := 2, libraryId := 2, mediaItemId := 1, externalId := "j" }
    watchStates := .insert .empty { mediaItemId := 1, sourceId := 1, viewCount := 1,
                                    completed := true, observedAt := observedAt } }

def undatedService : WatchSyncService := ⟨.plain, fun _ => some "b"⟩

/-- The time at which the completion was collected does not matter. -/
theorem undated_completion_independent :
    (∀ scanStartedAt, undatedService.prepare (undatedCompletion 1) none scanStartedAt =
        undatedService.prepare (undatedCompletion 7) none scanStartedAt) ∧
      ∀ pair scope, (undatedCompletion 1).prepareIn pair none scope =
        (undatedCompletion 7).prepareIn pair none scope :=
  prepare_independent_of_observed_at undatedService
    (show (undatedCompletion 1).SameButObserved (undatedCompletion 7) from rfl) none

end Euvieouvi
