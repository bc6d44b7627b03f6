import Euvieouvi.Lib.Ancestry
import Euvieouvi.Lib.Latest
import Euvieouvi.Projection.Grouping

/-!
# The catalog projection

`rebuild_catalog_projection`, `refresh_catalog_activity` and `ensure_catalog_projection`
(`sync/catalog_projection.py`). The rebuild computes every entry from the rows of the whole
database. The refresh walks up from the dirty items to the entries they can change, walks down again
to every item below those entries, and recomputes just these; for the other entries it trusts what
is stored. The two run the same loops over events and states (`foldActivity`), on different rows.
-/

namespace Euvieouvi

structure Stats where
  completionCount : Nat := 0
  firstPlayedAt : Option Time := none
  lastCompletedAt : Option Time := none
  lastPlayedAt : Option Time := none
  progressMs : Nat := 0
  available : Bool := false
  availablePlex : Bool := false
  availableJellyfin : Bool := false
deriving DecidableEq, Repr

/-- `_state_playback_time`. -/
def WatchState.playbackTime (s : WatchState) : Option Time :=
  let completedAt := if s.completed then s.lastWatchedAt else none
  match s.lastPlayedAt, completedAt with
  | none, _ => completedAt
  | some played, none => some played
  | some played, some completed => if played > completed then some played else some completed

/-- `func.max(case((completed, view_count), else_=0))` for one row. -/
def WatchState.completedCount (s : WatchState) : Nat := if s.completed then s.viewCount else 0

def WatchState.completedLast (s : WatchState) : Option Time :=
  if s.completed then s.lastWatchedAt else none

def WatchState.openProgress (s : WatchState) : Nat := if s.completed then 0 else s.progressMs.getD 0

def maxOf (l : List Nat) : Nat := l.foldl max 0

namespace Stats

/-- The completed events of one item. -/
def addEvents (events : List WatchEvent) (s : Stats) : Stats :=
  { s with
    completionCount := s.completionCount + events.length
    firstPlayedAt := earliest s.firstPlayedAt (earliestOf (events.map fun e => some e.watchedAt))
    lastCompletedAt := latest s.lastCompletedAt (latestOf (events.map fun e => some e.watchedAt)) }

/-- The states of one item. -/
def addStates (states : List WatchState) (s : Stats) : Stats :=
  { s with
    completionCount := max s.completionCount (maxOf (states.map (·.completedCount)))
    lastCompletedAt := latest s.lastCompletedAt (latestOf (states.map (·.completedLast)))
    progressMs := max s.progressMs (maxOf (states.map (·.openProgress))) }

def addPlayed (played : Time) (s : Stats) : Stats :=
  { s with lastPlayedAt := latest s.lastPlayedAt (some played) }

end Stats

def addActivity (activity : Dict Nat Time) (item : Nat) : Option Time → Dict Nat Time
  | some last => activity.upsert item fun known => (latest known (some last)).getD last
  | none => activity

/-- `activity_by_item`. -/
def activityByItem (events : List WatchEvent) (states : List WatchState) : Dict Nat Time :=
  let activity := (groupBy (·.mediaItemId) (events.filter (·.completed))).foldl
    (fun activity group =>
      addActivity activity group.1 (latestOf (group.2.map fun e => some e.watchedAt)))
    .empty
  (groupBy (·.mediaItemId) states).foldl
    (fun activity group =>
      addActivity activity group.1 (latestOf (group.2.map (·.playbackTime)))) activity

/-- `_ancestor_of_kind` over the ids a walk visits. -/
def ancestorOfKind (kind : MediaKind) (kindOf : Nat → Option MediaKind) (visited : List Nat) :
    Option Nat :=
  visited.find? fun i => kindOf i = some kind

/-- The events and states of each item go to its own entry, its last playback to the entries of all
its ancestors. -/
def foldActivity (entryOf : Nat → Option Nat) (ancestorsOf : Nat → List Nat)
    (events : List WatchEvent) (states : List WatchState) : Nat → Stats :=
  let stats := (groupBy (·.mediaItemId) (events.filter (·.completed))).foldl
    (fun stats group => modifyAt (entryOf group.1) (Stats.addEvents group.2) stats) fun _ => {}
  let stats := (groupBy (·.mediaItemId) states).foldl
    (fun stats group => modifyAt (entryOf group.1) (Stats.addStates group.2) stats) stats
  (activityByItem events states).rows.foldl (fun stats item =>
    (ancestorsOf item.1).foldl (fun stats i => modifyAt (entryOf i) (Stats.addPlayed item.2) stats)
      stats) stats

/-- The episode entries below a show entry, each once. -/
def childrenOf (showEntryOf episodeEntryOf : Nat → Option Nat) (episodes : List Nat)
    (entry : Nat) : List Nat :=
  ((episodes.filter fun i => showEntryOf i = some entry).filterMap episodeEntryOf).eraseDups

structure ProjectionResult where
  entries : Nat
  members : Nat
  duplicateGroups : Nat
  mode : String := "full"
deriving DecidableEq, Repr

namespace Database

def markClean (db : Database) : Database :=
  { db with settings := { db.settings with projectionState := some (.clean projectionVersion) } }

/-- More passes than any walk up the parents can take. -/
def walkFuel (db : Database) : Nat := db.mediaItems.rows.length + 4

def ancestorsOf (db : Database) (i : Nat) : List Nat :=
  walkUp db.identityRows.parentOf db.walkFuel [] (some i)

/-- The rows of `catalog_entry_members` a rebuild writes. -/
def projectedMembers (py : PyLib) (db : Database) : Table CatalogEntryMember.mediaItemId :=
  (db.identityRows.members py).foldl Table.insert .empty

def canonicalByItem (py : PyLib) (db : Database) (i : Nat) : Option Nat :=
  ((db.projectedMembers py).get? i).map (·.catalogMediaItemId)

/-- The available references, each with the connector type of its source. -/
def availableReferences (db : Database) : List (Nat × ConnectorType) :=
  (db.sourceMediaRefs.rows.filter (·.available)).filterMap fun r =>
    (db.sources.get? r.sourceId).map fun source => (r.mediaItemId, source.connectorType)

def rebuiltStats (py : PyLib) (db : Database) : Nat → Stats :=
  let entryOf := db.canonicalByItem py
  db.availableReferences.foldl (fun stats row =>
      modifyAt (entryOf row.1) (fun s => { s with
        available := true
        availablePlex := s.availablePlex || row.2 == .plex
        availableJellyfin := s.availableJellyfin || row.2 == .jellyfin }) stats)
    (foldActivity entryOf db.ancestorsOf db.watchEvents.rows db.watchStates.rows)

def rebuiltChildren (py : PyLib) (db : Database) (entry : Nat) : List Nat :=
  let kindOf := db.identityRows.kindOf
  childrenOf
    (fun i => (ancestorOfKind .show kindOf (db.ancestorsOf i)).bind (db.canonicalByItem py))
    (db.canonicalByItem py)
    ((db.availableReferences.map (·.1)).eraseDups.filter fun i => kindOf i = some .episode) entry

def rebuiltEntry (py : PyLib) (now : Time) (db : Database) (key : Nat × String) : CatalogEntry :=
  let stats := db.rebuiltStats py
  let entry := stats key.1
  let children := db.rebuiltChildren py key.1
  { mediaItemId := key.1
    groupKey := key.2
    kind := (db.identityRows.kindOf key.1).getD .movie
    completionCount := entry.completionCount
    firstPlayedAt := entry.firstPlayedAt
    lastCompletedAt := entry.lastCompletedAt
    lastPlayedAt := entry.lastPlayedAt
    progressMs := entry.progressMs
    childCount := children.length
    completedChildCount := children.countP fun i => 0 < (stats i).completionCount
    available := entry.available
    availablePlex := entry.availablePlex
    availableJellyfin := entry.availableJellyfin
    updatedAt := now }

def rebuildCatalogProjection (py : PyLib) (now : Time) (db : Database) :
    ProjectionResult × Database :=
  let groups := db.identityRows.groups py
  let entries := (db.identityRows.groupKeys py).map (db.rebuiltEntry py now)
  let rebuilt := { db with
    catalogEntryMembers := db.projectedMembers py
    catalogEntries := entries.foldl Table.insert .empty
    dirtyItems := .empty }.markClean
  (⟨entries.length, (db.identityRows.members py).length, groups.countP (1 < ·.length), "full"⟩,
    rebuilt)

/-! ### The incremental refresh -/

/-- `catalog_dirty_ancestors`. -/
def dirtyAncestors (db : Database) : List MediaItem :=
  recursiveRows (fun level => level.filterMap fun m => m.parentId.bind db.mediaItems.get?) 4
    (db.mediaItems.rows.filter fun m => db.dirtyItems.contains m.id)

/-- `impacted_catalog_entries`. -/
def impactedEntries (db : Database) : List Nat :=
  ((db.catalogEntryMembers.rows.filter fun member =>
    db.dirtyAncestors.any (·.id == member.mediaItemId)).map (·.catalogMediaItemId)).eraseDups

def memberEntry (db : Database) (i : Nat) : Option Nat :=
  (db.catalogEntryMembers.get? i).map (·.catalogMediaItemId)

/-- `catalog_activity_ids`: the members of the impacted entries and everything below them. -/
def activityTree (db : Database) (impacted : List Nat) : List Nat :=
  ((recursiveRows
      (fun level => level.flatMap fun m => db.mediaItems.rows.filter (·.parentId == some m.id)) 4
      (db.mediaItems.rows.filter fun m => (db.memberEntry m.id).any impacted.contains)).map
        (·.id)).eraseDups

def refreshedStats (db : Database) (impacted tree : List Nat) : Nat → Stats :=
  foldActivity (fun i => (within tree.contains db.memberEntry i).filter impacted.contains)
    (fun i => walkUp (within tree.contains db.identityRows.parentOf) db.walkFuel [] (some i))
    (db.watchEvents.rows.filter fun e => tree.contains e.mediaItemId)
    (db.watchStates.rows.filter fun s => tree.contains s.mediaItemId)

def refreshedChildren (db : Database) (impacted tree : List Nat) (entry : Nat) : List Nat :=
  let showEntryOf (i : Nat) : Option Nat :=
    (ancestorOfKind .show (within tree.contains db.identityRows.kindOf)
      (walkUp (within tree.contains db.identityRows.parentOf) db.walkFuel [] (some i))).bind
        (within tree.contains db.memberEntry)
  childrenOf (fun i => (showEntryOf i).filter impacted.contains)
    (within tree.contains db.memberEntry)
    (((db.sourceMediaRefs.rows.filter fun r => r.available && tree.contains r.mediaItemId &&
      db.identityRows.kindOf r.mediaItemId = some .episode).map (·.mediaItemId)).eraseDups) entry

/-- The assignments to an impacted entry. -/
def refreshEntry (now : Time) (db : Database) (impacted tree : List Nat) (entry : CatalogEntry) :
    CatalogEntry :=
  let stats := db.refreshedStats impacted tree
  let updated := stats entry.mediaItemId
  let children := db.refreshedChildren impacted tree entry.mediaItemId
  let stored (i : Nat) : Nat := ((db.catalogEntries.get? i).map (·.completionCount)).getD 0
  let refreshed := { entry with
    completionCount := updated.completionCount
    firstPlayedAt := updated.firstPlayedAt
    lastCompletedAt := updated.lastCompletedAt
    lastPlayedAt := updated.lastPlayedAt
    progressMs := updated.progressMs
    updatedAt := now }
  if entry.kind = .show then
    { refreshed with
      childCount := children.length
      completedChildCount := children.countP fun i =>
        0 < if impacted.contains i then (stats i).completionCount else stored i }
  else refreshed

theorem refreshEntry_mediaItemId (now : Time) (db : Database) (impacted tree : List Nat)
    (entry : CatalogEntry) :
    (db.refreshEntry now impacted tree entry).mediaItemId = entry.mediaItemId := by
  unfold refreshEntry; split <;> rfl

def refreshCatalogActivity (py : PyLib) (now : Time) (db : Database) :
    ProjectionResult × Database :=
  let dirtyCount := db.dirtyItems.rows.length
  if dirtyCount = 0 then db.rebuildCatalogProjection py now
  else
    let impacted := db.impactedEntries
    if impacted =
      [] then (⟨0, dirtyCount, 0, "activity"⟩, { db with dirtyItems := .empty }.markClean)
    else
      let tree := db.activityTree impacted
      let refreshed := { db with
        catalogEntries := db.catalogEntries.update (impacted.contains ·.mediaItemId)
          ⟨db.refreshEntry now impacted tree, db.refreshEntry_mediaItemId now impacted tree⟩
        dirtyItems := .empty }.markClean
      (⟨impacted.length, dirtyCount, 0, "activity"⟩, refreshed)

/-- `ensure_catalog_projection`; `none` when the stored projection is current. -/
def ensureCatalogProjection (py : PyLib) (now : Time) (db : Database) :
    Option ProjectionResult × Database :=
  let mediaCount := db.mediaItems.rows.countP fun m => isCatalogKind m.kind
  let entryCount := db.catalogEntries.rows.length
  let state := db.settings.projectionState
  if state = some (.clean projectionVersion) ∧ (entryCount > 0 ∨ mediaCount = 0) then (none, db)
  else
    let (result, db) :=
      if state = some .activity ∧ entryCount > 0 then db.refreshCatalogActivity py now
      else db.rebuildCatalogProjection py now
    (some result, db)

end Database

end Euvieouvi
