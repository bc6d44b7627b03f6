import Euvieouvi.Persist.Service
import Euvieouvi.Reconcile.Merge

/-!
# Identifiers, images, genres and show metadata

What `sync/persistence.py` stores about an item besides the item itself. A manual match closes the
identifiers and images of an item and the genres of a container.
-/

namespace Euvieouvi

namespace MediaPersistenceService
variable (service : MediaPersistenceService)

/-- Rows that `_sync_identifier_values` has added or deleted and no flush has written yet. -/
structure PendingIdentifiers where
  added : List ExternalIdentifier := []
  deleted : List Nat := []

/-- A flush of pending identifiers: `uq_media_identifiers_identity` may refuse it. -/
def flushIdentifiers (item : Nat) (pending : PendingIdentifiers) : Persist PendingIdentifiers := do
  if ← Program.read fun db => !decide pending.added.Nodup || db.mediaIdentifiers.rows.any fun r =>
      r.mediaItemId == item && pending.added.contains ⟨r.provider, r.externalId⟩ then
    .fail (.integrity
      "media_identifiers.media_item_id, media_identifiers.provider, media_identifiers.external_id")
  else
    Program.write fun db => (pending.added.foldl (fun (db : Database) i => db.insertMediaIdentifier
      ⟨db.mediaIdentifiers.nextId, item, i.provider, i.externalId, service.now⟩)
        db).deleteMediaIdentifiers
        fun r => pending.deleted.contains r.id
    return {}

/-- One identifier of `_sync_identifier_values`. The query of `_canonical_source_may_update`, which
a Plex source does not need, flushes what is pending. -/
def syncIdentifier (item : Nat) (existing : List MediaIdentifier) (pending : PendingIdentifiers)
    (identifier : ExternalIdentifier) : Persist PendingIdentifiers := do
  let previous := existing.filter (·.provider == identifier.provider)
  let conflicting := previous.filter (·.externalId != identifier.externalId)
  let stable := !conflicting.isEmpty && stableProviders.contains identifier.provider
  let db ← Program.read id
  let queried := (db.sources.get? service.sourceId).any (·.connectorType != .plex)
  let pending ← (if stable && queried then service.flushIdentifiers item pending else pure pending)
  if stable && !service.canonicalSourceMayUpdate db item then
    return pending
  else
    return {
      added := if previous.any (·.externalId == identifier.externalId) then pending.added
        else pending.added ++ [identifier]
      deleted := if stable then pending.deleted ++ conflicting.map (·.id) else pending.deleted }

/-- `sorted((provider, external_id) for …)`. -/
def sortedIdentifiers (identifiers : List ExternalIdentifier) : List ExternalIdentifier :=
  identifiers.insertionSort fun a b =>
    a.provider < b.provider ∨ a.provider = b.provider ∧
      (a.externalId < b.externalId ∨ a.externalId = b.externalId)

/-- `_sync_identifier_values`. -/
def syncIdentifierValues (item : Nat) (identifiers : List ExternalIdentifier) : Persist Unit := do
  if ← Program.read fun db => (db.identityRows.manualMatchOf item).isSome ||
    identifiers.isEmpty then
    return ()
  else if ← Program.cached (.identifierSet item (sortedIdentifiers identifiers)) then
    return ()
  else
    let existing ← Program.read fun db => db.mediaIdentifiers.rows.filter (·.mediaItemId == item)
    let pending ← identifiers.foldlM (service.syncIdentifier item existing) {}
    Program.enter (.identifierSet item (sortedIdentifiers identifiers))
    let _ ← service.flushIdentifiers item pending
    return ()

def newImage (id item : Nat) (imageType provider path : String) : MediaImage where
  id := id
  mediaItemId := item
  sourceId := some service.sourceId
  imageType := imageType
  provider := provider
  sourcePath := some path
  updatedAt := service.now

def replaceImage (provider path : String) (image : MediaImage) : MediaImage :=
  { image with
    sourceId := some service.sourceId
    provider := provider
    sourcePath := some path
    sourceUrl := none
    localFilename := none
    mimeType := none
    cacheStatus := "pending"
    cachedAt := none
    updatedAt := service.now }

/-- `_sync_image`. -/
def syncImage (item : Nat) (imageType : String) (path : Option String) (db : Database) : Database :=
  if (db.identityRows.manualMatchOf item).isSome then db
  else match path with
    | none => db
    | some path =>
      let provider := ((db.sources.get? service.sourceId).map (·.connectorType.value)).getD "plex"
      match db.byItemAndType item imageType with
      | none =>
        let image := service.newImage db.mediaImages.nextId item imageType provider path
        { db with mediaImages := db.mediaImages.insert image }
      | some image =>
        if image.provider = "plex" ∧ provider ≠ "plex" then db
        else if image.sourcePath ≠ some path ∨ image.provider ≠ provider then
          let replaced : Assignment MediaImage.id :=
            ⟨service.replaceImage provider path, fun _ => rfl⟩
          { db with mediaImages := db.mediaImages.update (·.id == image.id) replaced }
        else db

/-- `" ".join(name.split())`. -/
def displayName (name : String) : String := " ".intercalate (service.py.split name)

/-- The dictionary `normalized` of `_sync_genres`. -/
def normalizedGenres (names : List String) : Dict String String :=
  names.foldl (fun genres name =>
    genres.upsert (service.py.casefold (service.displayName name)) fun _ =>
      service.displayName name) .empty

/-- One name of `_sync_genres` that the item does not have yet. -/
def linkGenre (item : Nat) (db : Database) (entry : String × String) : Database :=
  let (genreId, genres) := match db.genres.rows.find? (·.normalizedName == entry.1) with
    | some genre => (genre.id, db.genres)
    | none => (db.genres.nextId, db.genres.insert ⟨db.genres.nextId, entry.2, entry.1⟩)
  { db with
    genres := genres, mediaGenres := db.mediaGenres.insert ⟨db.mediaGenres.nextId, item, genreId⟩ }

/-- `_sync_genres`. -/
def syncGenres (item : Nat) (names : List String) (db : Database) : Database :=
  let normalized := service.normalizedGenres names
  let links := db.mediaGenres.rows.filter (·.mediaItemId == item)
  let nameOf (link : MediaGenre) : Option String :=
    (db.genres.get? link.genreId).map (·.normalizedName)
  let missing := normalized.rows.filter fun entry => !links.any fun link =>
    nameOf link == some entry.1
  let linked := missing.foldl (linkGenre item) db
  { linked with mediaGenres := linked.mediaGenres.delete fun link =>
      links.contains link && (nameOf link).any fun name => (normalized.lookup name).isNone }

/-- `_merge_genres`; the set of names is taken in the order of its two parts. -/
def mergeGenres (item : Nat) (names : List String) (db : Database) : Database :=
  if (db.identityRows.manualMatchOf item).isSome then db
  else
    let existing := (db.mediaGenres.rows.filter (·.mediaItemId == item)).filterMap fun link =>
      (db.genres.get? link.genreId).map (·.name)
    service.syncGenres item (existing ++ names).eraseDups db

/-- The columns `_sync_show_metadata` sets where the value is known. -/
def applyShowMetadata (metadata : ShowMetadata) (media : MediaItem) : MediaItem :=
  { media with
    title := metadata.title
    originalTitle := metadata.originalTitle.or media.originalTitle
    year := metadata.year.or media.year
    summary := metadata.summary.or media.summary
    tagline := metadata.tagline.or media.tagline
    studio := metadata.studio.or media.studio
    contentRating := metadata.contentRating.or media.contentRating
    audienceRating := metadata.audienceRating.or media.audienceRating
    originallyAvailableOn := metadata.originallyAvailableOn.or media.originallyAvailableOn
    sourceAddedAt := metadata.addedAt.or media.sourceAddedAt }

/-- The writes of `_sync_show_metadata`. -/
def writeShowMetadata (metadata : ShowMetadata) («show» : Nat) (db : Database) : Database :=
  let titled := db.saveMediaItem service.now «show» ⟨applyShowMetadata metadata, fun _ => rfl⟩
  let genred :=
    if metadata.genres = [] then titled else service.syncGenres «show» metadata.genres titled
  service.syncImage «show» "backdrop" metadata.artPath
    (service.syncImage «show» "poster" metadata.thumbPath genred)

/-- `_sync_show_metadata`. -/
def syncShowMetadata (item : ExternalMediaItem) (parent : Option Nat) : Persist Unit :=
  match item.episode?, item.showMetadata, parent with
  | some e, some metadata, some parent =>
    if metadata.kind ≠ .show ∨
      metadata.externalId ≠ e.showExternalId then .fail .incompatibleShowMetadata
    else do
      let season ← requiredMedia parent
      let «show» ← requiredMedia (season.parentId.getD 0)
      if ← Program.cached (.showMetadata «show».id) then
        return ()
      else
        Program.enter (.showMetadata «show».id)
        if ← Program.read (service.canonicalSourceMayUpdate · «show».id) then
          Program.write (service.writeShowMetadata metadata «show».id)
        else
          return ()
  | _, _, _ => pure ()

end MediaPersistenceService

end Euvieouvi
