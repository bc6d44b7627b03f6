import Euvieouvi.Connectors.Dtos
import Euvieouvi.Identity.Paths
import Euvieouvi.Lib.Programs
import Euvieouvi.Projection.Grouping

/-!
# The persistence service

`MediaPersistenceService` (`sync/persistence.py`) and the queries of `database/repositories.py` it
asks. A call is a program over the database and over the keys of the caches that outlive it. A call
that raises runs inside the savepoint of its caller, which takes back the rows but not the caches. A
row that was added is written at once here; the next query, or the flush at the end, writes it
there.
-/

namespace Euvieouvi

/-- What `event_dedup_key` hashes. -/
structure EventPayload where
  sourceId : Nat
  sourceEventId : Option String
  mediaExternalId : String
  watchedAt : String
  completed : Bool
  progressMs : Option Nat
  durationMs : Option Nat
  viewNumber : Option Nat
deriving DecidableEq, Repr

structure MediaPersistenceService where
  py : PyLib
  /-- `json.dumps(asdict(item), sort_keys=True, …)`. -/
  dumpsItem : MediaFields → String
  /-- `json.dumps(payload, sort_keys=True, …)`. -/
  dumpsEvent : EventPayload → String
  sourceId : Nat
  libraryId : Nat
  pathRoots : List PathRoot
  /-- `utc_now()` of the flushes. -/
  now : Time

/-- The entries of the sets `_synced_identifier_sets` and `_synced_show_metadata`, and of
`_reconciled_catalog_identities` of the orchestrator. -/
inductive CacheKey
  | identifierSet (mediaItemId : Nat) (identifiers : List ExternalIdentifier)
  | showMetadata (mediaItemId : Nat)
  | catalogIdentity (kind : MediaKind) (identifiers : List ExternalIdentifier)
deriving DecidableEq, Repr

inductive PersistError
  | albumConflict
  | incompatibleShowMetadata
  | ambiguousIdentifiers
  | incompatibleHierarchy
  | historicalConflict
  | hierarchyConflict
  | ambiguousContainer
  | ambiguousHistory
  | missingMedia
  | unknownMedia
  | changedMedia
  | integrity (constraint : String)
deriving DecidableEq, Repr

def PersistError.text : PersistError → String
  | .albumConflict => "External album identity conflicts with existing media."
  | .incompatibleShowMetadata => "Parent show metadata has an incompatible identity."
  | .ambiguousIdentifiers => "External identifiers match more than one catalog item."
  | .incompatibleHierarchy => "Matched episode has an incompatible historical hierarchy."
  | .historicalConflict => "External hierarchy identity conflicts with historical media."
  | .hierarchyConflict => "External hierarchy identity conflicts with existing media."
  | .ambiguousContainer => "Container identifiers match more than one media item."
  | .ambiguousHistory => "Historical hierarchy has more than one matching container."
  | .missingMedia => "External reference points to missing media."
  | .unknownMedia => "History event references unknown media."
  | .changedMedia => "History event identity changed its referenced media."
  | .integrity name => s!"UNIQUE constraint failed: {name}"

abbrev Persist := Program Database CacheKey PersistError

abbrev PersistSession := Session Database CacheKey

structure EpisodeFields where
  showExternalId : String
  showTitle : String
  seasonNumber : Nat
  episodeNumber : Nat

structure TrackFields where
  artistExternalId : String
  artistTitle : String
  albumExternalId : String
  albumTitle : String

namespace MediaFields

def episode? (item : MediaFields) : Option EpisodeFields :=
  if item.kind = .episode then do
    return ⟨← item.showExternalId, ← item.showTitle, ← item.seasonNumber, ← item.episodeNumber⟩
  else none

def track? (item : MediaFields) : Option TrackFields :=
  if item.kind = .track then do
    return ⟨← item.artistExternalId, ← item.artistTitle, ← item.albumExternalId, ← item.albumTitle⟩
  else none

theorem kind_of_episode? {item : MediaFields} {e : EpisodeFields} (h : item.episode? = some e) :
    item.kind = .episode := by
  unfold episode? at h
  split at h
  next hk => exact hk
  next => cases h

theorem kind_of_track? {item : MediaFields} {t : TrackFields} (h : item.track? = some t) :
    item.kind = .track := by
  unfold track? at h
  split at h
  next hk => exact hk
  next => cases h

/-- `item.season_external_id or f"{item.show_external_id}:season:{item.season_number}"`. -/
def seasonReferenceId (item : MediaFields) (e : EpisodeFields) : String :=
  (item.seasonExternalId.filter (· ≠ "")).getD s!"{e.showExternalId}:season:{e.seasonNumber}"

end MediaFields

/-- An episode has its coordinates. -/
theorem ExternalMediaItem.isSome_episode? (item : ExternalMediaItem) :
    item.episode?.isSome = true ↔ item.kind = .episode := by
  constructor
  · intro h
    obtain ⟨e, he⟩ := Option.isSome_iff_exists.1 h
    exact MediaFields.kind_of_episode? he
  · intro hk
    obtain ⟨h₁, h₂, h₃, h₄⟩ := item.complete.1 hk
    obtain ⟨v₁, h₁⟩ := Option.isSome_iff_exists.1 h₁
    obtain ⟨v₂, h₂⟩ := Option.isSome_iff_exists.1 h₂
    obtain ⟨v₃, h₃⟩ := Option.isSome_iff_exists.1 h₃
    obtain ⟨v₄, h₄⟩ := Option.isSome_iff_exists.1 h₄
    simp [MediaFields.episode?, hk, h₁, h₂, h₃, h₄]

theorem ExternalMediaItem.isSome_track? (item : ExternalMediaItem) :
    item.track?.isSome = true ↔ item.kind = .track := by
  constructor
  · intro h
    obtain ⟨e, he⟩ := Option.isSome_iff_exists.1 h
    exact MediaFields.kind_of_track? he
  · intro hk
    obtain ⟨h₁, h₂, h₃, h₄⟩ := item.complete.2 hk
    obtain ⟨v₁, h₁⟩ := Option.isSome_iff_exists.1 h₁
    obtain ⟨v₂, h₂⟩ := Option.isSome_iff_exists.1 h₂
    obtain ⟨v₃, h₃⟩ := Option.isSome_iff_exists.1 h₃
    obtain ⟨v₄, h₄⟩ := Option.isSome_iff_exists.1 h₄
    simp [MediaFields.track?, hk, h₁, h₂, h₃, h₄]

/-! ### Queries -/

namespace Database

/-- `SourceMediaRefRepository.by_external_identity`. -/
def byExternalIdentity (db : Database) (source : Nat) (externalId : String) :
    Option SourceMediaRef :=
  db.sourceMediaRefs.rows.find? fun r => r.sourceId == source && r.externalId == externalId

/-- `MediaIdentifierRepository.media_ids_for_kind`. -/
def mediaIdsForKind (db : Database) (kind : MediaKind)
    (identifiers : List ExternalIdentifier) : List Nat :=
  ((db.mediaIdentifiers.rows.filter fun r =>
    (db.mediaItems.get? r.mediaItemId).any (·.kind == kind) &&
    identifiers.contains ⟨r.provider, r.externalId⟩).map (·.mediaItemId)).eraseDups

/-- `MediaImageRepository.by_item_and_type`. -/
def byItemAndType (db : Database) (item : Nat) (imageType : String) : Option MediaImage :=
  db.mediaImages.rows.find? fun i => i.mediaItemId == item && i.imageType == imageType

/-- `WatchEventRepository.by_source_event_id`. -/
def bySourceEventId (db : Database) (source : Nat) (sourceEventId : String) : Option WatchEvent :=
  db.watchEvents.rows.find? fun e => e.sourceId == source && e.sourceEventId == some sourceEventId

/-- `WatchEventRepository.by_dedup_key`. -/
def byDedupKey (db : Database) (source : Nat) (dedupKey : String) : Option WatchEvent :=
  db.watchEvents.rows.find? fun e => e.sourceId == source && e.dedupKey == dedupKey

/-- `WatchStateRepository.by_item_and_source`. -/
def byItemAndSource (db : Database) (item source : Nat) : Option WatchState :=
  db.watchStates.get? (item, source)

/-- Some reference of the item belongs to a Plex source. -/
def hasPlexReference (db : Database) (item : Nat) : Bool :=
  db.sourceMediaRefs.rows.any fun r => r.mediaItemId == item &&
    (db.sources.get? r.sourceId).any (·.connectorType == .plex)

end Database

namespace MediaPersistenceService
variable (service : MediaPersistenceService)

/-- `_required_media`. -/
def requiredMedia (item : Nat) : Persist MediaItem := do
  match ← Program.read (·.mediaItems.get? item) with
  | some media => return media
  | none => .fail .missingMedia

/-- `_canonical_source_may_update` of an item that has an id. -/
def canonicalSourceMayUpdate (db : Database) (item : Nat) : Bool :=
  if (db.identityRows.manualMatchOf item).isSome then false
  else match db.sources.get? service.sourceId with
    | none => true
    | some source => source.connectorType = .plex || !db.hasPlexReference item

/-- A new reference of the source; the constraint `uq_source_media_refs_identity` may refuse it. -/
def addReference (reference : SourceMediaRef) : Persist Nat := do
  if ← Program.read fun db =>
    (db.byExternalIdentity reference.sourceId reference.externalId).isSome then
    .fail (.integrity "source_media_refs.source_id, source_media_refs.external_id")
  else
    let id ← Program.read (·.sourceMediaRefs.nextId)
    Program.write (·.insertSourceMediaRef { reference with id := id })
    return id

/-- A container that a source shows again. -/
def touchReference (reference : SourceMediaRef) (observedAt : Time) : Persist Unit :=
  Program.write fun db => db.saveSourceMediaRef service.now reference.id
    ⟨fun r => { r with lastSeenAt := observedAt, available := true, unavailableSince := none },
      fun _ => rfl⟩

end MediaPersistenceService

/-- The service of a source with one library, whose signatures are ids. -/
def plainService (source : Nat) : MediaPersistenceService where
  py := .plain
  dumpsItem item := item.externalId
  dumpsEvent event := event.mediaExternalId
  sourceId := source
  libraryId := source
  pathRoots := []
  now := 0

end Euvieouvi
