import Euvieouvi.Lib.Latest
import Euvieouvi.Lib.Table
import Mathlib.Data.Rat.Defs

/-!
# The persistence schema

Rows of the tables of `database/models.py`, the database as one record of tables, and the statements
that write to them. Every statement on a table that carries a dirty trigger (migrations 0024 and
0025) fires it here, so no modelled writer can forget the projection. A flush of an ORM object emits
an `UPDATE` only for a row whose values changed and then also assigns `updated_at`
(`onupdate=utc_now`); a textual statement assigns exactly its own columns.
-/

namespace Euvieouvi

/-- Microseconds since the epoch, UTC. -/
abbrev Time := Int

abbrev Time.minutes (n : Int) : Time := n * 60 * 1000000

inductive ConnectorType | plex | jellyfin
deriving DecidableEq, Repr

def ConnectorType.value : ConnectorType → String
  | .plex => "plex"
  | .jellyfin => "jellyfin"

inductive LibraryMediaType | movie | «show» | artist
deriving DecidableEq, Repr

inductive MediaKind | movie | «show» | season | episode | artist | album | track
deriving DecidableEq, Repr

def MediaKind.value : MediaKind → String
  | .movie => "movie"
  | .show => "show"
  | .season => "season"
  | .episode => "episode"
  | .artist => "artist"
  | .album => "album"
  | .track => "track"

structure Source where
  id : Nat
  connectorType : ConnectorType
  name : String := ""
  secret : String := ""
  enabled : Bool := true
deriving DecidableEq, Repr

structure Library where
  id : Nat
  sourceId : Nat
  externalId : String
  mediaType : LibraryMediaType
  enabled : Bool := false
  available : Bool := true
deriving DecidableEq, Repr

structure MediaItem where
  id : Nat
  kind : MediaKind
  parentId : Option Nat := none
  title : String := ""
  originalTitle : Option String := none
  sortTitle : Option String := none
  manualMatchTmdbId : Option String := none
  year : Option Nat := none
  seasonNumber : Option Nat := none
  episodeNumber : Option Nat := none
  discNumber : Option Nat := none
  trackNumber : Option Nat := none
  durationMs : Option Nat := none
  originallyAvailableOn : Option Int := none
  summary : Option String := none
  tagline : Option String := none
  studio : Option String := none
  contentRating : Option String := none
  audienceRating : Option Rat := none
  sourceAddedAt : Option Time := none
  updatedAt : Time := 0
deriving DecidableEq, Repr

/-- The manual match as the code tests it: an empty text counts as none. -/
def MediaItem.manualMatch (m : MediaItem) : Option String := m.manualMatchTmdbId.filter (· ≠ "")

structure SourceMediaRef where
  id : Nat
  sourceId : Nat
  libraryId : Nat
  mediaItemId : Nat
  externalId : String
  externalKey : Option String := none
  externalUpdatedAt : Option Time := none
  lastSeenAt : Time := 0
  available : Bool := true
  unavailableSince : Option Time := none
  rawHash : Option String := none
  updatedAt : Time := 0
deriving DecidableEq, Repr

structure MediaFilePath where
  id : Nat
  referenceId : Nat
  pathKey : String
  originalPath : String := ""
  canonicalPath : String := ""
deriving DecidableEq, Repr

structure MediaIdentifier where
  id : Nat
  mediaItemId : Nat
  provider : String
  externalId : String
  createdAt : Time := 0
deriving DecidableEq, Repr

structure Genre where
  id : Nat
  name : String
  normalizedName : String
deriving DecidableEq, Repr

structure MediaGenre where
  id : Nat
  mediaItemId : Nat
  genreId : Nat
deriving DecidableEq, Repr

structure MediaImage where
  id : Nat
  mediaItemId : Nat
  sourceId : Option Nat := none
  imageType : String
  provider : String := "plex"
  sourcePath : Option String := none
  sourceUrl : Option String := none
  localFilename : Option String := none
  mimeType : Option String := none
  cacheStatus : String := "pending"
  cachedAt : Option Time := none
  updatedAt : Time := 0
deriving DecidableEq, Repr

structure EnrichmentRecord where
  id : Nat
  mediaItemId : Nat
  provider : String
deriving DecidableEq, Repr

inductive EventOrigin | synchronization | webhook | traktImport
deriving DecidableEq, Repr

structure WatchEvent where
  id : Nat
  mediaItemId : Nat
  sourceId : Nat
  sourceEventId : Option String := none
  dedupKey : String := ""
  watchedAt : Time
  completed : Bool
  progressMs : Option Nat := none
  durationMs : Option Nat := none
  viewNumber : Option Nat := none
  playbackUser : Option String := none
  origin : EventOrigin := .synchronization
  updatedAt : Time := 0
deriving DecidableEq, Repr

structure WebhookEvent where
  id : Nat
  sourceId : Nat
  externalId : String
  occurredAt : Time
  completed : Bool := false
  active : Bool := false
  eventKey : Option String := none
  title : String := ""
  seriesTitle : Option String := none
  playbackUser : Option String := none
  mediaKind : Option String := none
  eventType : String := ""
  progressPercent : Option Int := none
deriving DecidableEq, Repr

structure WatchState where
  mediaItemId : Nat
  sourceId : Nat
  viewCount : Nat := 0
  lastWatchedAt : Option Time := none
  lastPlayedAt : Option Time := none
  completed : Bool
  progressMs : Option Nat := none
  observedAt : Time
  updatedAt : Time := 0
deriving DecidableEq, Repr

/-- `uq_watch_states_item_source`. -/
def WatchState.key (s : WatchState) : Nat × Nat := (s.mediaItemId, s.sourceId)

inductive TaskType | watchUpdate
deriving DecidableEq, Repr

inductive TaskStatus | pending | processing | blocked
deriving DecidableEq, Repr

/-- The JSON object stored in `async_tasks.payload` by `enqueue_watch_update`. -/
structure WatchUpdate where
  sourceId : Nat
  externalId : String
  watchedAt : Time
  progressMs : Option Int
  completed : Bool
  libraryExternalId : Option String
deriving DecidableEq, Repr

structure AsyncTask where
  id : Nat
  taskType : TaskType := .watchUpdate
  dedupKey : String
  payload : WatchUpdate
  pendingPayload : Option WatchUpdate := none
  status : TaskStatus := .pending
  attempts : Nat := 0
  nextAttemptAt : Time
  lastAttemptAt : Option Time := none
  lastError : Option String := none
deriving DecidableEq, Repr

structure CatalogEntry where
  mediaItemId : Nat
  groupKey : String
  kind : MediaKind
  completionCount : Nat := 0
  firstPlayedAt : Option Time := none
  lastCompletedAt : Option Time := none
  lastPlayedAt : Option Time := none
  progressMs : Nat := 0
  childCount : Nat := 0
  completedChildCount : Nat := 0
  available : Bool := false
  availablePlex : Bool := false
  availableJellyfin : Bool := false
  updatedAt : Time := 0
deriving DecidableEq, Repr

structure CatalogEntryMember where
  mediaItemId : Nat
  catalogMediaItemId : Nat
deriving DecidableEq, Repr

/-- The values the setting `catalog.projection.state` takes. -/
inductive ProjectionState | clean (version : Nat) | activity | identity | full
deriving DecidableEq, Repr

/-- The direction a watched-state checkpoint belongs to: one source type, or both. -/
abbrev Direction := Option ConnectorType

structure PathRoot where
  source : String
  canonical : String
deriving DecidableEq, Repr

/-- The keys of the `settings` table that the modelled functions read or write. -/
structure Settings where
  projectionState : Option ProjectionState := none
  plexUserId : Option String := none
  webhookPlexUserFilter : Option String := none
  watchSyncPending : Bool := false
  lastSuccessAt : List (Direction × Time) := []
  lastFullAt : List (Direction × Time) := []
  pathRoots : List (Nat × List PathRoot) := []

structure Database where
  sources : Table Source.id
  libraries : Table Library.id
  mediaItems : Table MediaItem.id
  sourceMediaRefs : Table SourceMediaRef.id
  mediaFilePaths : Table MediaFilePath.id
  mediaIdentifiers : Table MediaIdentifier.id
  genres : Table Genre.id
  mediaGenres : Table MediaGenre.id
  mediaImages : Table MediaImage.id
  enrichmentRecords : Table EnrichmentRecord.id
  watchEvents : Table WatchEvent.id
  webhookEvents : Table WebhookEvent.id
  watchStates : Table WatchState.key
  asyncTasks : Table AsyncTask.id
  catalogEntries : Table CatalogEntry.mediaItemId
  catalogEntryMembers : Table CatalogEntryMember.mediaItemId
  dirtyItems : Table (id : Nat → Nat)
  settings : Settings

def Database.empty : Database where
  sources := .empty
  libraries := .empty
  mediaItems := .empty
  sourceMediaRefs := .empty
  mediaFilePaths := .empty
  mediaIdentifiers := .empty
  genres := .empty
  mediaGenres := .empty
  mediaImages := .empty
  enrichmentRecords := .empty
  watchEvents := .empty
  webhookEvents := .empty
  watchStates := .empty
  asyncTasks := .empty
  catalogEntries := .empty
  catalogEntryMembers := .empty
  dirtyItems := .empty
  settings := {}

/-- `CASE WHEN value='identity' THEN value ELSE 'activity' END`. -/
def ProjectionState.markActivity : ProjectionState → ProjectionState
  | .identity => .identity
  | _ => .activity

namespace Database

def setProjectionState (f : ProjectionState → ProjectionState) (db : Database) : Database :=
  { db with settings := { db.settings with projectionState := db.settings.projectionState.map f } }

/-- `trg_catalog_dirty_{media_items,media_identifiers,source_media_refs}_*`. An absent settings row
stays absent. -/
def identityTrigger (db : Database) : Database := db.setProjectionState fun _ => .identity

/-- `trg_catalog_dirty_{watch_events,watch_states}_*` for the `OLD` and `NEW` items of the written
rows. -/
def activityTrigger (items : List Nat) (db : Database) : Database :=
  match items with
  | [] => db
  | _ :: _ =>
    { db with dirtyItems := items.foldl Table.insert db.dirtyItems }.setProjectionState
      ProjectionState.markActivity

section Frame
variable {db : Database} {items : List Nat}

@[simp] theorem sources_activityTrigger :
    (db.activityTrigger items).sources = db.sources := by cases items <;> rfl
@[simp] theorem libraries_activityTrigger :
    (db.activityTrigger items).libraries = db.libraries := by cases items <;> rfl
@[simp] theorem mediaItems_activityTrigger :
    (db.activityTrigger items).mediaItems = db.mediaItems := by cases items <;> rfl
@[simp] theorem sourceMediaRefs_activityTrigger :
    (db.activityTrigger items).sourceMediaRefs = db.sourceMediaRefs := by cases items <;> rfl
@[simp] theorem mediaFilePaths_activityTrigger :
    (db.activityTrigger items).mediaFilePaths = db.mediaFilePaths := by cases items <;> rfl
@[simp] theorem mediaIdentifiers_activityTrigger :
    (db.activityTrigger items).mediaIdentifiers = db.mediaIdentifiers := by cases items <;> rfl
@[simp] theorem watchEvents_activityTrigger :
    (db.activityTrigger items).watchEvents = db.watchEvents := by cases items <;> rfl
@[simp] theorem watchStates_activityTrigger :
    (db.activityTrigger items).watchStates = db.watchStates := by cases items <;> rfl
@[simp] theorem asyncTasks_activityTrigger :
    (db.activityTrigger items).asyncTasks = db.asyncTasks := by cases items <;> rfl
@[simp] theorem catalogEntries_activityTrigger :
    (db.activityTrigger items).catalogEntries = db.catalogEntries := by cases items <;> rfl
@[simp] theorem catalogEntryMembers_activityTrigger :
    (db.activityTrigger items).catalogEntryMembers = db.catalogEntryMembers := by
    cases items <;> rfl

theorem contains_activityTrigger {i : Nat} :
    (db.activityTrigger items).dirtyItems.contains i = true ↔ db.dirtyItems.contains i = true ∨
    i ∈ items := by
  cases items with
  | nil => simp [activityTrigger]
  | cons j items =>
    refine Table.contains_foldl_insert.trans (or_congr Iff.rfl ?_)
    simp

end Frame

/-! ### Statements on triggered tables -/

def insertMediaItem (m : MediaItem) (db : Database) : Database :=
  if db.mediaItems.contains m.id then db
  else { db with mediaItems := db.mediaItems.insert m }.identityTrigger

def updateMediaItems (p : MediaItem → Bool) (f : Assignment MediaItem.id)
    (db : Database) : Database :=
  if db.mediaItems.rows.any p
    then { db with mediaItems := db.mediaItems.update p f }.identityTrigger else db

/-- Some row that restricts the deletion of the item still points at it. -/
def isReferenced (db : Database) (i : Nat) : Bool :=
  db.mediaItems.rows.any (·.parentId == some i) ||
    db.sourceMediaRefs.rows.any (·.mediaItemId == i) ||
    db.mediaIdentifiers.rows.any (·.mediaItemId == i) ||
      db.watchEvents.rows.any (·.mediaItemId == i) ||
      db.watchStates.rows.any (·.mediaItemId == i)

/-- `DELETE FROM media_items` with its cascades to genres, images, enrichment and the projection. -/
def deleteMediaItem (i : Nat) (db : Database) : Database :=
  if db.mediaItems.contains i && !db.isReferenced i then
    { db with
      mediaItems := db.mediaItems.delete (·.id == i)
      mediaGenres := db.mediaGenres.delete (·.mediaItemId == i)
      mediaImages := db.mediaImages.delete (·.mediaItemId == i)
      enrichmentRecords := db.enrichmentRecords.delete (·.mediaItemId == i)
      catalogEntries := db.catalogEntries.delete (·.mediaItemId == i)
      catalogEntryMembers :=
        db.catalogEntryMembers.delete fun m => m.mediaItemId == i || m.catalogMediaItemId == i
    }.identityTrigger
  else db

def insertSourceMediaRef (r : SourceMediaRef) (db : Database) : Database :=
  if db.sourceMediaRefs.contains r.id then db
  else { db with sourceMediaRefs := db.sourceMediaRefs.insert r }.identityTrigger

def updateSourceMediaRefs (p : SourceMediaRef → Bool) (f : Assignment SourceMediaRef.id)
    (db : Database) :
    Database :=
  if db.sourceMediaRefs.rows.any p then
    { db with sourceMediaRefs := db.sourceMediaRefs.update p f }.identityTrigger
  else db

/-- `DELETE FROM source_media_refs` with its cascade to the file paths. -/
def deleteSourceMediaRefs (p : SourceMediaRef → Bool) (db : Database) : Database :=
  if db.sourceMediaRefs.rows.any p then
    { db with
      sourceMediaRefs := db.sourceMediaRefs.delete p
      mediaFilePaths := db.mediaFilePaths.delete fun path =>
        db.sourceMediaRefs.rows.any fun r => p r && r.id == path.referenceId
    }.identityTrigger
  else db

def insertMediaIdentifier (i : MediaIdentifier) (db : Database) : Database :=
  if db.mediaIdentifiers.contains i.id then db
  else { db with mediaIdentifiers := db.mediaIdentifiers.insert i }.identityTrigger

def updateMediaIdentifiers (p : MediaIdentifier → Bool) (f : Assignment MediaIdentifier.id)
    (db : Database) : Database :=
  if db.mediaIdentifiers.rows.any p then
    { db with mediaIdentifiers := db.mediaIdentifiers.update p f }.identityTrigger
  else db

def deleteMediaIdentifiers (p : MediaIdentifier → Bool) (db : Database) : Database :=
  if db.mediaIdentifiers.rows.any p then
    { db with mediaIdentifiers := db.mediaIdentifiers.delete p }.identityTrigger
  else db

def insertWatchEvent (e : WatchEvent) (db : Database) : Database :=
  if db.watchEvents.contains e.id then db
  else { db with watchEvents := db.watchEvents.insert e }.activityTrigger [e.mediaItemId]

def updateWatchEvents (p : WatchEvent → Bool) (f : Assignment WatchEvent.id)
    (db : Database) : Database :=
  { db with watchEvents := db.watchEvents.update p f }.activityTrigger
    ((db.watchEvents.rows.filter p).flatMap fun (e : WatchEvent) =>
      [e.mediaItemId, (f e).mediaItemId])

def deleteWatchEvents (p : WatchEvent → Bool) (db : Database) : Database :=
  { db with watchEvents := db.watchEvents.delete p }.activityTrigger
    ((db.watchEvents.rows.filter p).map WatchEvent.mediaItemId)

def insertWatchState (s : WatchState) (db : Database) : Database :=
  if db.watchStates.contains s.key then db
  else { db with watchStates := db.watchStates.insert s }.activityTrigger [s.mediaItemId]

def updateWatchStates (p : WatchState → Bool) (f : Assignment WatchState.key)
    (db : Database) : Database :=
  { db with watchStates := db.watchStates.update p f }.activityTrigger
    ((db.watchStates.rows.filter p).map WatchState.mediaItemId)

/-- An `UPDATE` that may assign the key; a conflict with the unique constraint refuses it. -/
def rekeyWatchStates (p : WatchState → Bool) (f : WatchState → WatchState)
    (db : Database) : Database :=
  match db.watchStates.rekey? p f with
  | some watchStates =>
    { db with watchStates := watchStates }.activityTrigger
      ((db.watchStates.rows.filter p).flatMap fun (s : WatchState) =>
        [s.mediaItemId, (f s).mediaItemId])
  | none => db

/-- `UPDATE watch_states SET media_item_id=:winner WHERE media_item_id=:loser`. -/
def repointWatchStates (winner loser : Nat) (db : Database) : Database :=
  db.rekeyWatchStates (·.mediaItemId == loser) fun s => { s with mediaItemId := winner }

def deleteWatchStates (p : WatchState → Bool) (db : Database) : Database :=
  { db with watchStates := db.watchStates.delete p }.activityTrigger
    ((db.watchStates.rows.filter p).map WatchState.mediaItemId)

/-! ### What a statement writes -/

inductive TableName
  | sources | libraries | mediaItems | sourceMediaRefs | mediaFilePaths | mediaIdentifiers | genres
  | mediaGenres | mediaImages | enrichmentRecords | watchEvents | webhookEvents | watchStates
  | asyncTasks | catalogEntries | catalogEntryMembers | dirtyItems | settings
deriving DecidableEq

abbrev TableName.Rows : TableName → Type
  | .sources => Table Source.id
  | .libraries => Table Library.id
  | .mediaItems => Table MediaItem.id
  | .sourceMediaRefs => Table SourceMediaRef.id
  | .mediaFilePaths => Table MediaFilePath.id
  | .mediaIdentifiers => Table MediaIdentifier.id
  | .genres => Table Genre.id
  | .mediaGenres => Table MediaGenre.id
  | .mediaImages => Table MediaImage.id
  | .enrichmentRecords => Table EnrichmentRecord.id
  | .watchEvents => Table WatchEvent.id
  | .webhookEvents => Table WebhookEvent.id
  | .watchStates => Table WatchState.key
  | .asyncTasks => Table AsyncTask.id
  | .catalogEntries => Table CatalogEntry.mediaItemId
  | .catalogEntryMembers => Table CatalogEntryMember.mediaItemId
  | .dirtyItems => Table (id : Nat → Nat)
  | .settings => Settings

/-- The contents of a table; the state of the projection, which the triggers write, is left out. -/
def table (db : Database) : (name : TableName) → name.Rows
  | .sources => db.sources
  | .libraries => db.libraries
  | .mediaItems => db.mediaItems
  | .sourceMediaRefs => db.sourceMediaRefs
  | .mediaFilePaths => db.mediaFilePaths
  | .mediaIdentifiers => db.mediaIdentifiers
  | .genres => db.genres
  | .mediaGenres => db.mediaGenres
  | .mediaImages => db.mediaImages
  | .enrichmentRecords => db.enrichmentRecords
  | .watchEvents => db.watchEvents
  | .webhookEvents => db.webhookEvents
  | .watchStates => db.watchStates
  | .asyncTasks => db.asyncTasks
  | .catalogEntries => db.catalogEntries
  | .catalogEntryMembers => db.catalogEntryMembers
  | .dirtyItems => db.dirtyItems
  | .settings => { db.settings with projectionState := none }

/-- From `db` to `db'` only the written tables changed. -/
def Frame (written : List TableName) (db db' : Database) : Prop :=
  ∀ name, name ∉ written → db'.table name = db.table name

namespace Frame
variable {written written' : List TableName} {db db' db'' : Database}

theorem refl (db : Database) : Frame written db db := fun _ _ => rfl

theorem mono (h : Frame written db db') (hsub : written ⊆ written') : Frame written' db db' :=
  fun name hn => h name fun hw => hn (hsub hw)

theorem trans (h : Frame written db db') (h' : Frame written db' db'') : Frame written db db'' :=
  fun name hn => (h' name hn).trans (h name hn)

theorem append (h : Frame written db db') (h' : Frame written' db' db'') :
    Frame (written ++ written') db db'' :=
  (h.mono (List.subset_append_left ..)).trans (h'.mono (List.subset_append_right ..))

end Frame

section Writes
variable {db : Database}

theorem writeMediaItems_frame (t : Table MediaItem.id) :
    Frame [.mediaItems] db { db with mediaItems := t } :=
  fun name h => by cases name <;> first | rfl | exact absurd List.mem_cons_self h

theorem writeSourceMediaRefs_frame (t : Table SourceMediaRef.id) :
    Frame [.sourceMediaRefs] db { db with sourceMediaRefs := t } :=
  fun name h => by cases name <;> first | rfl | exact absurd List.mem_cons_self h

theorem writeMediaIdentifiers_frame (t : Table MediaIdentifier.id) :
    Frame [.mediaIdentifiers] db { db with mediaIdentifiers := t } :=
  fun name h => by cases name <;> first | rfl | exact absurd List.mem_cons_self h

theorem writeWatchEvents_frame (t : Table WatchEvent.id) :
    Frame [.watchEvents] db { db with watchEvents := t } :=
  fun name h => by cases name <;> first | rfl | exact absurd List.mem_cons_self h

theorem writeWatchStates_frame (t : Table WatchState.key) :
    Frame [.watchStates] db { db with watchStates := t } :=
  fun name h => by cases name <;> first | rfl | exact absurd List.mem_cons_self h

theorem writeMediaFilePaths_frame (t : Table MediaFilePath.id) :
    Frame [.mediaFilePaths] db { db with mediaFilePaths := t } :=
  fun name h => by cases name <;> first | rfl | exact absurd List.mem_cons_self h

theorem writeAsyncTasks_frame (t : Table AsyncTask.id) :
    Frame [.asyncTasks] db { db with asyncTasks := t } :=
  fun name h => by cases name <;> first | rfl | exact absurd List.mem_cons_self h

theorem writeGenres_frame (t : Table Genre.id) : Frame [.genres] db { db with genres := t } :=
  fun name h => by cases name <;> first | rfl | exact absurd List.mem_cons_self h

theorem writeMediaGenres_frame (t : Table MediaGenre.id) :
    Frame [.mediaGenres] db { db with mediaGenres := t } :=
  fun name h => by cases name <;> first | rfl | exact absurd List.mem_cons_self h

theorem writeMediaImages_frame (t : Table MediaImage.id) :
    Frame [.mediaImages] db { db with mediaImages := t } :=
  fun name h => by cases name <;> first | rfl | exact absurd List.mem_cons_self h

theorem writeEnrichmentRecords_frame (t : Table EnrichmentRecord.id) :
    Frame [.enrichmentRecords] db { db with enrichmentRecords := t } :=
  fun name h => by cases name <;> first | rfl | exact absurd List.mem_cons_self h

theorem identityTrigger_frame (db : Database) : Frame [] db db.identityTrigger :=
  fun name _ => by cases name <;> rfl

theorem activityTrigger_frame (db : Database) (items : List Nat) :
    Frame [.dirtyItems] db (db.activityTrigger items) := by
  cases items with
  | nil => exact Frame.refl db
  | cons i items =>
    exact fun name h => by cases name <;> first | rfl | exact absurd List.mem_cons_self h

@[simp] theorem mediaItems_insertMediaItem (m : MediaItem) :
    (db.insertMediaItem m).mediaItems = db.mediaItems.insert m := by
  unfold insertMediaItem
  split
  next h => rw [Table.insert_of_contains h]
  next => rfl

theorem insertMediaItem_frame (m : MediaItem) : Frame [.mediaItems] db (db.insertMediaItem m) := by
  unfold insertMediaItem
  split
  · exact Frame.refl db
  · exact (writeMediaItems_frame _).append (identityTrigger_frame _)

@[simp] theorem mediaItems_updateMediaItems (p : MediaItem → Bool) (f : Assignment MediaItem.id) :
    (db.updateMediaItems p f).mediaItems = db.mediaItems.update p f := by
  unfold updateMediaItems
  split
  next => rfl
  next h => rw [Table.update_of_none (by simpa using h)]

theorem updateMediaItems_frame (p : MediaItem → Bool) (f : Assignment MediaItem.id) :
    Frame [.mediaItems] db (db.updateMediaItems p f) := by
  unfold updateMediaItems
  split
  · exact (writeMediaItems_frame _).append (identityTrigger_frame _)
  · exact Frame.refl db

@[simp] theorem sourceMediaRefs_insertSourceMediaRef (r : SourceMediaRef) :
    (db.insertSourceMediaRef r).sourceMediaRefs = db.sourceMediaRefs.insert r := by
  unfold insertSourceMediaRef
  split
  next h => rw [Table.insert_of_contains h]
  next => rfl

theorem insertSourceMediaRef_frame (r : SourceMediaRef) :
    Frame [.sourceMediaRefs] db (db.insertSourceMediaRef r) := by
  unfold insertSourceMediaRef
  split
  · exact Frame.refl db
  · exact (writeSourceMediaRefs_frame _).append (identityTrigger_frame _)

@[simp] theorem sourceMediaRefs_updateSourceMediaRefs (p : SourceMediaRef → Bool)
    (f : Assignment SourceMediaRef.id) :
    (db.updateSourceMediaRefs p f).sourceMediaRefs = db.sourceMediaRefs.update p f := by
  unfold updateSourceMediaRefs
  split
  next => rfl
  next h => rw [Table.update_of_none (by simpa using h)]

theorem updateSourceMediaRefs_frame (p : SourceMediaRef → Bool) (f : Assignment SourceMediaRef.id) :
    Frame [.sourceMediaRefs] db (db.updateSourceMediaRefs p f) := by
  unfold updateSourceMediaRefs
  split
  · exact (writeSourceMediaRefs_frame _).append (identityTrigger_frame _)
  · exact Frame.refl db

@[simp] theorem mediaIdentifiers_insertMediaIdentifier (i : MediaIdentifier) :
    (db.insertMediaIdentifier i).mediaIdentifiers = db.mediaIdentifiers.insert i := by
  unfold insertMediaIdentifier
  split
  next h => rw [Table.insert_of_contains h]
  next => rfl

theorem insertMediaIdentifier_frame (i : MediaIdentifier) :
    Frame [.mediaIdentifiers] db (db.insertMediaIdentifier i) := by
  unfold insertMediaIdentifier
  split
  · exact Frame.refl db
  · exact (writeMediaIdentifiers_frame _).append (identityTrigger_frame _)

@[simp] theorem mediaIdentifiers_updateMediaIdentifiers (p : MediaIdentifier → Bool)
    (f : Assignment MediaIdentifier.id) :
    (db.updateMediaIdentifiers p f).mediaIdentifiers = db.mediaIdentifiers.update p f := by
  unfold updateMediaIdentifiers
  split
  next => rfl
  next h => rw [Table.update_of_none (by simpa using h)]

theorem updateMediaIdentifiers_frame (p : MediaIdentifier → Bool)
    (f : Assignment MediaIdentifier.id) :
    Frame [.mediaIdentifiers] db (db.updateMediaIdentifiers p f) := by
  unfold updateMediaIdentifiers
  split
  · exact (writeMediaIdentifiers_frame _).append (identityTrigger_frame _)
  · exact Frame.refl db

@[simp] theorem mediaIdentifiers_deleteMediaIdentifiers (p : MediaIdentifier → Bool) :
    (db.deleteMediaIdentifiers p).mediaIdentifiers = db.mediaIdentifiers.delete p := by
  unfold deleteMediaIdentifiers
  split
  next => rfl
  next h => rw [Table.delete_of_none (by simpa using h)]

theorem deleteMediaIdentifiers_frame (p : MediaIdentifier → Bool) :
    Frame [.mediaIdentifiers] db (db.deleteMediaIdentifiers p) := by
  unfold deleteMediaIdentifiers
  split
  · exact (writeMediaIdentifiers_frame _).append (identityTrigger_frame _)
  · exact Frame.refl db

@[simp] theorem watchEvents_insertWatchEvent (e : WatchEvent) :
    (db.insertWatchEvent e).watchEvents = db.watchEvents.insert e := by
  unfold insertWatchEvent
  split
  next h => rw [Table.insert_of_contains h]
  next => simp

theorem insertWatchEvent_frame (e : WatchEvent) :
    Frame [.watchEvents, .dirtyItems] db (db.insertWatchEvent e) := by
  unfold insertWatchEvent
  split
  · exact Frame.refl db
  · exact (writeWatchEvents_frame _).append (activityTrigger_frame _ _)

@[simp] theorem watchEvents_updateWatchEvents (p : WatchEvent → Bool)
    (f : Assignment WatchEvent.id) :
    (db.updateWatchEvents p f).watchEvents = db.watchEvents.update p f := by
  unfold updateWatchEvents; simp

theorem updateWatchEvents_frame (p : WatchEvent → Bool) (f : Assignment WatchEvent.id) :
    Frame [.watchEvents, .dirtyItems] db (db.updateWatchEvents p f) :=
  (writeWatchEvents_frame _).append (activityTrigger_frame _ _)

@[simp] theorem watchStates_insertWatchState (s : WatchState) :
    (db.insertWatchState s).watchStates = db.watchStates.insert s := by
  unfold insertWatchState
  split
  next h => rw [Table.insert_of_contains h]
  next => simp

theorem insertWatchState_frame (s : WatchState) :
    Frame [.watchStates, .dirtyItems] db (db.insertWatchState s) := by
  unfold insertWatchState
  split
  · exact Frame.refl db
  · exact (writeWatchStates_frame _).append (activityTrigger_frame _ _)

@[simp] theorem watchStates_updateWatchStates (p : WatchState → Bool)
    (f : Assignment WatchState.key) :
    (db.updateWatchStates p f).watchStates = db.watchStates.update p f := by
  unfold updateWatchStates; simp

theorem updateWatchStates_frame (p : WatchState → Bool) (f : Assignment WatchState.key) :
    Frame [.watchStates, .dirtyItems] db (db.updateWatchStates p f) :=
  (writeWatchStates_frame _).append (activityTrigger_frame _ _)

@[simp] theorem watchStates_deleteWatchStates (p : WatchState → Bool) :
    (db.deleteWatchStates p).watchStates = db.watchStates.delete p := by
  unfold deleteWatchStates; simp

theorem deleteWatchStates_frame (p : WatchState → Bool) :
    Frame [.watchStates, .dirtyItems] db (db.deleteWatchStates p) :=
  (writeWatchStates_frame _).append (activityTrigger_frame _ _)

theorem watchStates_rekeyWatchStates {p : WatchState → Bool} {f : WatchState → WatchState}
    {t : Table WatchState.key} (h : db.watchStates.rekey? p f = some t) :
    (db.rekeyWatchStates p f).watchStates = t := by
  unfold rekeyWatchStates; rw [h]; simp

theorem rekeyWatchStates_frame (p : WatchState → Bool) (f : WatchState → WatchState) :
    Frame [.watchStates, .dirtyItems] db (db.rekeyWatchStates p f) := by
  unfold rekeyWatchStates
  split
  · exact (writeWatchStates_frame _).append (activityTrigger_frame _ _)
  · exact Frame.refl db

end Writes

/-! ### Flushed ORM objects

The attributes of one loaded row are assigned by `f`; the flush writes the row only when a value
changed and then stamps it with `now`. -/

def saveMediaItem (now : Time) (i : Nat) (f : Assignment MediaItem.id) (db : Database) : Database :=
  db.updateMediaItems (fun m => m.id == i && decide (f m ≠ m)) 
    ⟨fun m => { f m with updatedAt := now }, f.key_apply⟩

def saveSourceMediaRef (now : Time) (i : Nat) (f : Assignment SourceMediaRef.id)
    (db : Database) : Database :=
  db.updateSourceMediaRefs (fun r => r.id == i && decide (f r ≠ r))
    ⟨fun r => { f r with updatedAt := now }, f.key_apply⟩

/-- SQLite gives moments back without a zone, and one that is assigned has a zone and equals none of
them: `dated` says that `watched_at` is assigned, and so that the row is written. -/
def saveWatchEvent (now : Time) (i : Nat) (dated : Bool) (f : Assignment WatchEvent.id)
    (db : Database) : Database :=
  db.updateWatchEvents (fun e => e.id == i && (dated || decide (f e ≠ e)))
    ⟨fun e => { f e with updatedAt := now }, f.key_apply⟩

def saveWatchState (now : Time) (k : Nat × Nat) (f : Assignment WatchState.key)
    (db : Database) : Database :=
  db.updateWatchStates (fun s => decide (s.key = k) && decide (f s ≠ s))
    ⟨fun s => { f s with updatedAt := now }, f.key_apply⟩

/-- `_mark_projection_stale`. -/
def markProjectionStale (db : Database) : Database :=
  { db with settings := { db.settings with projectionState := some .full } }

end Database

end Euvieouvi
