import Euvieouvi.Persist.Playback

/-!
# Persisting one item

`persist_media` (`sync/persistence.py`): the item is found by its reference, or else matched by its
files or its identifiers; its hierarchy is ensured; the item and its reference are written, and then
what belongs to them.
-/

namespace Euvieouvi

inductive ItemClassification | inserted | updated | unchanged
deriving DecidableEq, Repr

structure PersistResult where
  classification : ItemClassification
  mediaItemId : Nat
  viewCountRegression : Bool := false
  eventInserted : Bool := false
deriving DecidableEq, Repr

namespace MediaPersistenceService
variable (service : MediaPersistenceService)

/-- `media_signature`. -/
def mediaSignature (item : MediaFields) : String := service.py.sha256 (service.dumpsItem item)

/-- `_apply_media`. -/
def applyMedia (item : MediaFields) (parent : Option Nat) (media : MediaItem) : MediaItem :=
  { media with
    kind := item.kind
    parentId := parent
    title := item.title
    originalTitle := item.originalTitle
    year := item.year
    seasonNumber := item.seasonNumber
    episodeNumber := item.episodeNumber
    discNumber := item.discNumber
    trackNumber := item.trackNumber
    durationMs := item.durationMs
    originallyAvailableOn := item.originallyAvailableOn
    summary := item.summary
    tagline := item.tagline
    studio := item.studio
    contentRating := item.contentRating
    audienceRating := item.audienceRating
    sourceAddedAt := item.addedAt }

/-- The flush of `_apply_media` on an item that exists. -/
def updateMedia (item : MediaFields) (parent : Option Nat) (media : Nat)
    (db : Database) : Database :=
  if service.canonicalSourceMayUpdate db media then
    db.saveMediaItem service.now media ⟨applyMedia item parent, fun _ => rfl⟩
  else db

/-- `_match_by_physical_path(item) or _match_by_identifiers(item)`. -/
def matchByAny (item : MediaFields) : Persist (Option MediaItem) := do
  match ← Program.read (service.matchByPhysicalPath · item) with
  | some media => return some media
  | none => service.matchByIdentifiers item

/-- `matched_media` of `persist_media`. -/
def matchMedia (item : MediaFields) (known : Option SourceMediaRef) :
    Persist (Option MediaItem) := do
  if known.isSome then return none
  else
    let matched ← service.matchByAny item
    Program.read fun db => matched.filter fun media =>
      !service.physicalEvidenceDisagrees db item media.id

/-- The reference of an item that is new to the source. -/
def leafReference (item : MediaFields) (media : Nat) (observedAt : Time) : SourceMediaRef where
  id := 0
  sourceId := service.sourceId
  libraryId := service.libraryId
  mediaItemId := media
  externalId := item.externalId
  externalKey := item.externalKey
  externalUpdatedAt := item.updatedAt
  lastSeenAt := observedAt
  available := true
  rawHash := some (service.mediaSignature item)
  updatedAt := service.now

/-- The assignments of `persist_media` to a reference it knows. -/
def observeReference (item : MediaFields) (observedAt : Time) (reference : SourceMediaRef) :
    SourceMediaRef :=
  { reference with
    externalKey := item.externalKey
    externalUpdatedAt := item.updatedAt
    lastSeenAt := observedAt
    available := true
    unavailableSince := none
    rawHash := some (service.mediaSignature item) }

/-- What the rest of `persist_media` needs to know about the item and its reference. -/
structure Persisted where
  classification : ItemClassification
  media : Nat
  reference : Nat

/-- The branch of `persist_media` for an item that is new to the source. -/
def addMedia (item : MediaFields) (observedAt : Time) (matched : Option MediaItem)
    (parent : Option Nat) :
    Persist Persisted := do
  match matched with
  | some media =>
    Program.write (service.updateMedia item parent media.id)
    let reference ← addReference (service.leafReference item media.id observedAt)
    return ⟨.updated, media.id, reference⟩
  | none =>
    let id ← Program.read (·.mediaItems.nextId)
    Program.write (·.insertMediaItem
      (applyMedia item parent { id := id, kind := item.kind, updatedAt := service.now }))
    let reference ← addReference (service.leafReference item id observedAt)
    return ⟨.inserted, id, reference⟩

/-- The branch of `persist_media` for an item the source has shown before. -/
def observeMedia (item : MediaFields) (observedAt : Time) (reference : SourceMediaRef)
    (parent : Option Nat) :
    Persist Persisted := do
  let media ← requiredMedia reference.mediaItemId
  let unchanged := reference.rawHash == some (service.mediaSignature item)
  Program.write fun db => if unchanged then db else service.updateMedia item parent media.id db
  Program.write fun db => db.saveSourceMediaRef service.now reference.id
    ⟨service.observeReference item observedAt, fun _ => rfl⟩
  return ⟨if unchanged then .unchanged else .updated, media.id, reference.id⟩

/-- The files, identifiers, genres and images of an item. -/
def persistDetails (item : MediaFields) (persisted : Persisted) : Persist Unit := do
  Program.write fun db => if item.filePaths = [] then db
    else db.savePaths persisted.reference (pathKeys service.py item.filePaths service.pathRoots)
  service.syncIdentifierValues persisted.media item.identifiers
  Program.write fun db => if service.canonicalSourceMayUpdate db persisted.media then
    service.syncGenres persisted.media item.genres db else db
  Program.write (service.syncImage persisted.media "poster" item.thumbPath)
  Program.write (service.syncImage persisted.media "backdrop" item.artPath)

/-- What the source knows about the playback of an item. -/
def persistPlayback (item : MediaFields) (observedAt : Time) (persisted : Persisted) :
    Persist PersistResult := do
  service.reconcileWebhookEvents item
  let regression ← Program.read (service.viewCountRegression · persisted.media item)
  Program.write (service.syncWatchState persisted.media item observedAt)
  let eventInserted ← service.persistStateEvent item
  return ⟨persisted.classification, persisted.media, regression, eventInserted⟩

/-- The item and its reference. -/
def storeMedia (item : MediaFields) (observedAt : Time) (known : Option SourceMediaRef)
    (matched : Option MediaItem) (parent : Option Nat) : Persist Persisted :=
  match known with
  | none => service.addMedia item observedAt matched parent
  | some reference => service.observeMedia item observedAt reference parent

/-- `persist_media`. -/
def persistMedia (item : ExternalMediaItem) (observedAt : Time) : Persist PersistResult := do
  let known ← Program.read (·.byExternalIdentity service.sourceId item.externalId)
  let matched ← service.matchMedia item.toMediaFields known
  let parent ← service.ensureHierarchy item.toMediaFields observedAt matched
  service.syncShowMetadata item parent
  let persisted ← service.storeMedia item.toMediaFields observedAt known matched parent
  service.persistDetails item.toMediaFields persisted
  service.persistPlayback item.toMediaFields observedAt persisted

end MediaPersistenceService

end Euvieouvi
