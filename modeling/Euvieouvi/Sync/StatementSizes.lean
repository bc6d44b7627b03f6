import Euvieouvi.Lib.Batches
import Euvieouvi.Playback.Containers
import Euvieouvi.WatchSync.Prepare

/-!
# How many values a statement lists

The statements that `rebuild_container_watch_states` (`sync/persistence.py`),
`refresh_catalog_activity` (`sync/catalog_projection.py`) and the scans of `WatchSyncService`
(`sync/watch_sync.py`) put to the database, each with the values of its `in_` conditions. Lookups by
key and the rows that a flush writes list none and are left out.

`_batches` keeps a list below the limit of a statement, and what is read batch by batch is what the
whole list would read (`scannedRefs_batches`, `pathRows_batches`, `identifierPairs_batches`). The
rebuild of the containers lists its playable items without it: the limit holds for libraries of at
most 900 of them (`statements_fit_iff`).
-/

namespace Euvieouvi

/-- `_QUERY_BATCH_SIZE`, and the size that `refresh_catalog_activity` gives. -/
def queryBatchSize : Nat := 900

/-- A `SELECT` with the values of its `in_` conditions. -/
structure Statement where
  reads : Database.TableName
  /-- The elements of a set of ids that the program holds. -/
  listed : List Nat := []
  /-- How many values the lists of the program text have, and those of the two servers. -/
  fixed : Nat := 0

namespace Statement

/-- The values listed. -/
def values (s : Statement) : Nat := s.listed.length + s.fixed

/-- A batch at most, apart from a constant. -/
def Fits (constant : Nat) (s : Statement) : Prop :=
  s.listed.length ≤ queryBatchSize ∧ s.fixed ≤ constant

/-- The statements of a loop over `_batches(values)`. -/
def byBatches (reads : Database.TableName) (fixed : Nat) (values : List Nat) : List Statement :=
  (batches queryBatchSize values).map fun batch => { reads, listed := batch, fixed }

end Statement

open Statement

namespace MediaPersistenceService
variable (service : MediaPersistenceService) (db : Database)

/-- `playable_ids`. -/
def playableIds : List Nat := (service.playedChildren db).map (·.id)

/-- `parent_ids`. -/
def parentIds : List Nat := ((service.playedChildren db).filterMap (·.parentId)).dedup

/-- The containers in the order of `_set_derived_watch_state`. -/
def derivedContainers : List Nat :=
  (service.childGroups db).map Prod.fst ++ (groupBy Prod.fst (service.topRows db)).map Prod.fst

/-- Of `rebuild_container_watch_states`. -/
def rebuildStatements : List Statement :=
  { reads := .mediaItems, fixed := [MediaKind.episode, MediaKind.track].length } ::
  if service.playableIds db = [] then []
  else
    [{ reads := .watchStates, listed := service.playableIds db },
      { reads := .watchEvents, listed := service.playableIds db },
      { reads := .mediaItems, listed := service.parentIds db }] ++
    (service.derivedContainers db).map fun _ => { reads := .watchStates }

/-- The available episodes and tracks of the library. -/
def libraryItems : List MediaItem :=
  db.mediaItems.rows.filter fun m => isPlayable m && db.sourceMediaRefs.rows.any fun r =>
    r.mediaItemId == m.id && r.sourceId == service.sourceId &&
      r.libraryId == service.libraryId && r.available

end MediaPersistenceService

/-- Of `rebuild_catalog_projection`. -/
def projectionStatements : List Statement :=
  [{ reads := .mediaItems }, { reads := .sourceMediaRefs }, { reads := .mediaFilePaths },
    { reads := .mediaIdentifiers, fixed := stableProviders.length }, { reads := .sourceMediaRefs },
    { reads := .watchEvents }, { reads := .watchStates }, { reads := .sourceMediaRefs }]

namespace Database
variable (db : Database)

/-- `episode_entry_ids`. -/
def episodeEntryIds (impacted : List Nat) : List Nat :=
  (impacted.flatMap (db.refreshedChildren impacted (db.activityTree impacted))).dedup

/-- Of `refresh_catalog_activity`. -/
def refreshStatements : List Statement :=
  { reads := .dirtyItems } ::
  if db.dirtyItems.rows.length = 0 then projectionStatements
  else { reads := .catalogEntryMembers } ::
    if db.impactedEntries = [] then []
    else
      [{ reads := .mediaItems }, { reads := .catalogEntryMembers }, { reads := .watchEvents },
        { reads := .watchStates },
        { reads := .sourceMediaRefs }] ++
      byBatches .catalogEntries 0 (db.episodeEntryIds db.impactedEntries) ++
        [{ reads := .catalogEntries }]

end Database

/-- Of `_matching_item_groups`. -/
def matchingStatements (items : List Nat) : List Statement :=
  byBatches .sourceMediaRefs 0 items ++ byBatches .mediaIdentifiers identityProviders.length items

namespace WatchPair
variable (pair : WatchPair)

/-- Of `_incremental_scope`. -/
def scopeStatements (db : Database) (direction : Direction) (scanStartedAt : Time) :
    List Statement :=
  match db.settings.lastSuccessAt.lookup direction, db.settings.lastFullAt.lookup direction with
  | some cutoff, some lastFull =>
    if watchScanInterval ≤ scanStartedAt - lastFull then []
    else
      [{ reads := .watchStates, fixed := (pair.relevantSources direction).length },
        { reads := .watchEvents, fixed := (pair.relevantSources direction).length },
        { reads := .sourceMediaRefs, fixed := (pair.relevantSources none).length },
        { reads := .mediaIdentifiers, fixed := identityProviders.length }] ++
      byBatches .mediaIdentifiers identityProviders.length
        (db.changedItems pair direction cutoff).dedup
  | _, _ => []

/-- The references of the scope. -/
def refStatements : Option (List Nat) → List Statement
  | some scope => byBatches .sourceMediaRefs (pair.relevantSources none).length scope.dedup
  | none => [{ reads := .sourceMediaRefs, fixed := (pair.relevantSources none).length }]

/-- What a scan reads about its items. -/
def itemStatements (items : List Nat) : List Statement :=
  byBatches .mediaItems 0 items ++ byBatches .watchStates
    (pair.relevantSources none).length items ++
    [ConnectorType.plex, ConnectorType.jellyfin].flatMap fun _ => byBatches .watchEvents 0 items

end WatchPair

/-- Of `_prepare`. -/
def WatchSyncService.prepareStatements (service : WatchSyncService) (db : Database)
    (direction : Direction) (scanStartedAt : Time) : List Statement :=
  { reads := .sources, fixed := [ConnectorType.plex, ConnectorType.jellyfin].length } ::
  match service.pair? db with
  | some pair =>
    let scope := (db.incrementalScope pair direction scanStartedAt).1
    let items := db.scannedItems pair scope
    pair.scopeStatements db direction scanStartedAt ++ pair.refStatements scope ++
      pair.itemStatements items ++
      matchingStatements items
  | none => []

/-- Of `_record_successes`. -/
def recordStatements (candidates : List WatchSyncCandidate) : List Statement :=
  byBatches .watchStates (candidates.map (·.targetSourceId)).dedup.length
    (candidates.flatMap fun c => c.targets.map (·.mediaItemId)).dedup

/-- A statement of one of the operations. What is recorded are candidates of a scan, perhaps of an
earlier catalog. -/
inductive Issued (persistence : MediaPersistenceService) (watch : WatchSyncService)
    (db : Database) : Statement → Prop
  | rebuild {s} (h : s ∈ persistence.rebuildStatements db) : Issued persistence watch db s
  | refresh {s} (h : s ∈ db.refreshStatements) : Issued persistence watch db s
  | prepare {s} (direction : Direction) (scanStartedAt : Time)
    (h : s ∈ watch.prepareStatements db direction scanStartedAt) :
      Issued persistence watch db s
  | record {s} (before : Database) (direction : Direction)
    (scanStartedAt : Time) {candidates : List WatchSyncCandidate}
      (hcandidates : candidates ⊆ (watch.prepare before direction scanStartedAt).candidates)
      (h : s ∈ recordStatements candidates) : Issued persistence watch db s

/-! ### What a batch lists -/

section Fits
variable {constant : Nat} {reads : Database.TableName} {fixed : Nat} {values : List Nat}
  {s : Statement} {pair : WatchPair}
  {db : Database} {direction : Direction} {items : List Nat} {scanStartedAt : Time}

theorem fits_of_mem_byBatches (hfixed : fixed ≤ constant) (h : s ∈ byBatches reads fixed values) :
    s.Fits constant := by
  obtain ⟨batch, hbatch, rfl⟩ := List.mem_map.1 h
  exact ⟨length_le_of_mem_batches hbatch, hfixed⟩

theorem fits_fixed (hfixed : fixed ≤ constant) : Fits constant { reads := reads, fixed := fixed } :=
  ⟨Nat.zero_le _, hfixed⟩

theorem length_relevantSources : (pair.relevantSources direction).length ≤ 2 := by
  unfold WatchPair.relevantSources
  split <;> simp

theorem fits_matchingStatements (h : s ∈ matchingStatements items) : s.Fits 4 := by
  rcases List.mem_append.1 h with h | h
  · exact fits_of_mem_byBatches (by omega) h
  · exact fits_of_mem_byBatches (by decide) h

theorem fits_scopeStatements (h : s ∈ pair.scopeStatements db direction scanStartedAt) :
    s.Fits 4 := by
  have hsources : ∀ direction, (pair.relevantSources direction).length ≤ 4 :=
    fun direction => length_relevantSources.trans (by omega)
  unfold WatchPair.scopeStatements at h
  split at h
  · split at h
    · cases h
    · rcases List.mem_append.1 h with h | h
      · simp only [List.mem_cons, List.not_mem_nil, or_false] at h
        rcases h with rfl | rfl | rfl | rfl
        · exact fits_fixed (hsources _)
        · exact fits_fixed (hsources _)
        · exact fits_fixed (hsources _)
        · exact fits_fixed (by decide)
      · exact fits_of_mem_byBatches (by decide) h
  · cases h

theorem fits_refStatements {scope : Option (List Nat)} (h : s ∈ pair.refStatements scope) :
    s.Fits 4 := by
  have hsources : (pair.relevantSources none).length ≤ 4 := length_relevantSources.trans (by omega)
  cases scope with
  | some scope => exact fits_of_mem_byBatches hsources h
  | none =>
    obtain rfl := List.mem_singleton.1 h
    exact fits_fixed hsources

theorem fits_itemStatements (h : s ∈ pair.itemStatements items) : s.Fits 4 := by
  rcases List.mem_append.1 h with h | h
  · rcases List.mem_append.1 h with h | h
    · exact fits_of_mem_byBatches (by omega) h
    · exact fits_of_mem_byBatches (length_relevantSources.trans (by omega)) h
  · obtain ⟨-, -, h⟩ := List.mem_flatMap.1 h
    exact fits_of_mem_byBatches (by omega) h

theorem fits_prepareStatements {watch : WatchSyncService}
    (h : s ∈ watch.prepareStatements db direction scanStartedAt) :
    s.Fits 4 := by
  rcases List.mem_cons.1 h with rfl | h
  · exact fits_fixed (by simp)
  · split at h
    · rcases List.mem_append.1 h with h | h
      · rcases List.mem_append.1 h with h | h
        · rcases List.mem_append.1 h with h | h
          · exact fits_scopeStatements h
          · exact fits_refStatements h
        · exact fits_itemStatements h
      · exact fits_matchingStatements h
    · cases h

theorem fits_refreshStatements (h : s ∈ db.refreshStatements) : s.Fits 4 := by
  have hplain : ∀ {reads : Database.TableName}, Fits 4 { reads := reads } :=
    fun {_} => fits_fixed (Nat.zero_le _)
  rcases List.mem_cons.1 h with rfl | h
  · exact hplain
  split at h
  · simp only [projectionStatements, List.mem_cons, List.not_mem_nil, or_false] at h
    rcases h with rfl | rfl | rfl | rfl | rfl | rfl | rfl | rfl
    case inr.inr.inr.inl => exact fits_fixed (by decide)
    all_goals exact hplain
  rcases List.mem_cons.1 h with rfl | h
  · exact hplain
  split at h
  · cases h
  rcases List.mem_append.1 h with h | h
  · rcases List.mem_append.1 h with h | h
    · simp only [List.mem_cons, List.not_mem_nil, or_false] at h
      rcases h with rfl | rfl | rfl | rfl | rfl <;> exact hplain
    · exact fits_of_mem_byBatches (Nat.zero_le _) h
  · obtain rfl := List.mem_singleton.1 h
    exact hplain

/-- The candidates of a scan are for one of its two servers. -/
theorem targetSourceId_of_prepare {watch : WatchSyncService} {c : WatchSyncCandidate}
    (h : c ∈ (watch.prepare db direction scanStartedAt).candidates) :
    ∃ pair, watch.pair? db = some pair ∧ c.targetSourceId ∈ pair.relevantSources none := by
  unfold WatchSyncService.prepare at h
  split at h
  next pair hpair =>
    obtain ⟨group, -, d, -, rfl⟩ := Database.mem_candidates.1 h
    refine ⟨pair, hpair, ?_⟩
    cases hd : d.target <;> simp [Database.candidate, WatchPair.relevantSources, hd]
  next => cases h

theorem fits_recordStatements {watch : WatchSyncService} {candidates : List WatchSyncCandidate}
    (hcandidates : candidates ⊆ (watch.prepare db direction scanStartedAt).candidates)
    (h : s ∈ recordStatements candidates) : s.Fits 4 := by
  refine fits_of_mem_byBatches ?_ h
  cases candidates with
  | nil => simp
  | cons first rest =>
    obtain ⟨pair, hpair, -⟩ := targetSourceId_of_prepare (hcandidates List.mem_cons_self)
    have hsubset : ((first :: rest).map (·.targetSourceId)).dedup ⊆ pair.relevantSources none := by
      intro id hid
      obtain ⟨c, hc, rfl⟩ := List.mem_map.1 (List.mem_dedup.1 hid)
      obtain ⟨pair', hpair', hmem⟩ := targetSourceId_of_prepare (hcandidates hc)
      rw [hpair] at hpair'
      cases hpair'
      exact hmem
    have hlength := (List.subperm_of_subset (List.nodup_dedup _) hsubset).length_le
    exact hlength.trans (length_relevantSources.trans (by omega))

end Fits

namespace Database
variable {db : Database} {pair : WatchPair} {items : List Nat}

/-- The references read scope by scope are those of the scan. -/
theorem scannedRefs_batches (db : Database) (pair : WatchPair) (scope : List Nat) :
    ((batches queryBatchSize scope.dedup).flatMap fun batch =>
      db.scannedRefs pair (some batch)).Perm
      (db.scannedRefs pair (some scope)) := by
  have hscope : ∀ ids : List Nat, db.scannedRefs pair (some ids) =
      (db.scannedRefs pair none).filter fun r => ids.contains r.mediaItemId := by
    intro ids
    unfold scannedRefs
    rw [List.filter_filter]
    refine List.filter_congr fun r _ => ?_
    simp [Bool.and_comm]
  simp only [hscope]
  refine (flatMap_batches_perm SourceMediaRef.mediaItemId _ (by decide) scope.nodup_dedup).trans
    (.of_eq ?_)
  exact List.filter_congr fun r _ => by simp

theorem pathRows_batches (db : Database) (h : items.Nodup) :
    ((batches queryBatchSize items).flatMap db.pathRows).Perm (db.pathRows items) := by
  let rows : List (Nat × String) := db.mediaFilePaths.rows.filterMap fun f =>
    (db.sourceMediaRefs.get? f.referenceId).bind fun r =>
      if r.available then some (r.mediaItemId, f.pathKey) else none
  have hrows : ∀ ids : List Nat, db.pathRows ids = rows.filter fun row => ids.contains row.1 := by
    intro ids
    unfold pathRows
    rw [List.filter_filterMap]
    refine List.filterMap_congr fun f _ => ?_
    cases db.sourceMediaRefs.get? f.referenceId with
    | none => rfl
    | some r =>
      by_cases ha : r.available <;> by_cases hm : r.mediaItemId ∈ ids <;>
        simp [ha, hm, Option.filter_some]
  simp only [show db.pathRows = fun ids => rows.filter fun row =>
    ids.contains row.1 from funext hrows]
  exact flatMap_batches_perm Prod.fst rows (by decide) h

theorem identifierPairs_batches (db : Database) (h : items.Nodup) :
    ((batches queryBatchSize items).flatMap db.identifierPairs).Perm
      (db.identifierPairs items) := by
  have hpairs : db.identifierPairs = fun ids =>
      (db.mediaIdentifiers.rows.filter fun r => identityProviders.contains r.provider).filter
          fun r =>
        ids.contains r.mediaItemId := by
    funext ids
    rw [List.filter_filter]
    rfl
  rw [hpairs]
  exact flatMap_batches_perm MediaIdentifier.mediaItemId _ (by decide) h

end Database

section Library
variable {persistence : MediaPersistenceService} {watch : WatchSyncService} {db : Database}
  {s : Statement}

theorem length_playableIds :
    (persistence.playableIds db).length = (persistence.libraryItems db).length := by
  unfold MediaPersistenceService.playableIds
  rw [MediaPersistenceService.playedChildren_eq, List.length_map, List.length_map]
  rfl

theorem length_parentIds :
    (persistence.parentIds db).length ≤ (persistence.libraryItems db).length := by
  rw [← length_playableIds]
  unfold MediaPersistenceService.playableIds MediaPersistenceService.parentIds
  rw [List.length_map]
  exact (List.dedup_sublist _).length_le.trans (List.length_filterMap_le _ _)

theorem fits_rebuildStatements (hlibrary : (persistence.libraryItems db).length ≤ queryBatchSize)
    (h : s ∈ persistence.rebuildStatements db) : s.Fits 4 := by
  rcases List.mem_cons.1 h with rfl | h
  · exact fits_fixed (by simp)
  split at h
  · cases h
  rcases List.mem_append.1 h with h | h
  · simp only [List.mem_cons, List.not_mem_nil, or_false] at h
    rcases h with rfl | rfl | rfl
    · exact ⟨length_playableIds.trans_le hlibrary, Nat.zero_le _⟩
    · exact ⟨length_playableIds.trans_le hlibrary, Nat.zero_le _⟩
    · exact ⟨length_parentIds.trans hlibrary, Nat.zero_le _⟩
  · obtain ⟨-, -, rfl⟩ := List.mem_map.1 h
    exact fits_fixed (Nat.zero_le _)

/-- A library with playable items has a statement that lists them all. -/
theorem exists_rebuildStatement (hne : persistence.libraryItems db ≠ []) :
    ∃ s ∈ persistence.rebuildStatements db,
      s.listed.length = (persistence.libraryItems db).length := by
  have hids : persistence.playableIds db ≠ [] := by
    rw [← List.length_pos_iff, length_playableIds]
    exact List.length_pos_iff.2 hne
  refine ⟨{ reads := .watchStates, listed := persistence.playableIds db }, ?_, length_playableIds⟩
  unfold MediaPersistenceService.rebuildStatements
  rw [if_neg hids]
  exact List.mem_cons_of_mem _ List.mem_cons_self

/-- Every statement keeps to a batch and a constant exactly where the library has no more playable
items than a batch. -/
theorem statements_fit_iff (persistence : MediaPersistenceService) (watch : WatchSyncService)
    (db : Database) :
    (∀ s, Issued persistence watch db s → s.Fits 4) ↔
    (persistence.libraryItems db).length ≤ queryBatchSize := by
  constructor
  · intro h
    by_cases hne : persistence.libraryItems db = []
    · rw [hne]
      exact Nat.zero_le _
    · obtain ⟨s, hs, hlength⟩ := exists_rebuildStatement hne
      exact hlength ▸ (h s (.rebuild hs)).1
  · intro hlibrary s hs
    cases hs with
    | rebuild hs => exact fits_rebuildStatements hlibrary hs
    | refresh hs => exact fits_refreshStatements hs
    | prepare direction scanStartedAt hs => exact fits_prepareStatements hs
    | record before direction scanStartedAt hcandidates hs =>
      exact fits_recordStatements hcandidates hs

end Library

def longEpisode (i : Nat) : MediaItem :=
  { id := i + 3, kind := .episode, parentId := some 2, seasonNumber := some 1,
    episodeNumber := some (i + 1) }

def longReference (i : Nat) : SourceMediaRef :=
  { id := i, sourceId := 1, libraryId := 1, mediaItemId := i + 3, externalId := toString i }

/-- A season of `n` available episodes. -/
def longSeason (n : Nat) : Database where
  sources := .insert .empty { id := 1, connectorType := .plex }
  libraries := .insert .empty { id := 1, sourceId := 1, externalId := "1", mediaType := .show,
                                enabled := true }
  mediaItems := {
    rows := { id := 1, kind := .show } ::
      { id := 2, kind := .season, parentId := some 1, seasonNumber := some 1 } ::
      (List.range n).map longEpisode
    nodup := by
      rw [List.map_cons, List.map_cons, List.map_map, List.nodup_cons, List.nodup_cons]
      refine ⟨by simp [longEpisode], by simp [longEpisode], List.nodup_range.map fun i j hij => ?_⟩
      exact Nat.add_right_cancel hij }
  sourceMediaRefs := {
    rows := (List.range n).map longReference
    nodup := by
      rw [List.map_map]
      exact List.nodup_range.map fun i j hij => hij }
  mediaFilePaths := .empty
  mediaIdentifiers := .empty
  genres := .empty
  mediaGenres := .empty
  mediaImages := .empty
  enrichmentRecords := .empty
  watchEvents := .empty
  webhookEvents := .empty
  watchStates := .empty
  asyncTasks := .empty
  catalogEntries := .empty
  catalogEntryMembers := .empty
  dirtyItems := .empty
  settings := {}

theorem length_longSeason (n : Nat) :
    ((plainService 1).libraryItems (longSeason n)).length = n := by
  have hepisodes : (plainService 1).libraryItems (longSeason n) =
      (List.range n).map longEpisode := by
    unfold MediaPersistenceService.libraryItems longSeason
    dsimp only
    rw [List.filter_cons_of_neg (by simp [MediaPersistenceService.isPlayable]),
      List.filter_cons_of_neg (by simp [MediaPersistenceService.isPlayable]), List.filter_eq_self]
    intro m hm
    obtain ⟨i, hi, rfl⟩ := List.mem_map.1 hm
    refine Bool.and_eq_true_iff.2
      ⟨rfl, List.any_eq_true.2 ⟨longReference i, List.mem_map_of_mem hi, ?_⟩⟩
    simp [longReference, longEpisode, plainService]
  rw [hepisodes, List.length_map, List.length_range]

/-- No constant is enough for every library. -/
theorem long_season_unbounded :
    ¬ ∃ constant, ∀ persistence watch db s, Issued persistence watch db s →
    s.values ≤ queryBatchSize + constant := by
  rintro ⟨constant, h⟩
  have hlength := length_longSeason (queryBatchSize + constant + 1)
  have hne : (plainService 1).libraryItems (longSeason (queryBatchSize + constant + 1)) ≠ [] := by
    rw [← List.length_pos_iff, hlength]
    omega
  obtain ⟨s, hs, hlisted⟩ := exists_rebuildStatement hne
  have hle := h (plainService 1) ⟨.plain, fun _ => none⟩ _ s (.rebuild hs)
  unfold Statement.values at hle
  omega

end Euvieouvi
