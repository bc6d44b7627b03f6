import Euvieouvi.Persist.Metadata

/-!
# Matching and the hierarchy of an item

How `sync/persistence.py` finds the catalog item that stands for an incoming one, and how it finds
or makes the show and season of an episode and the artist and album of a track.
-/

namespace Euvieouvi

/-- The only element of a list that has one. -/
def single {α : Type} : List α → Option α
  | [a] => some a
  | _ => none

theorem mem_of_single {α : Type} {l : List α} {a : α} (h : single l = some a) : a ∈ l := by
  unfold single at h
  split at h
  · cases h; exact List.mem_singleton.2 rfl
  · cases h

namespace MediaPersistenceService
variable (service : MediaPersistenceService)

/-- The keys of `path_keys(item.file_paths, self._path_roots)`. -/
def incomingKeys (item : MediaFields) : List String :=
  (pathKeys service.py item.filePaths service.pathRoots).rows.map (·.1)

/-- `_physical_evidence_disagrees`. -/
def physicalEvidenceDisagrees (db : Database) (item : MediaFields) (media : Nat) : Bool :=
  let keys := service.incomingKeys item
  let known :=
      (db.mediaFilePaths.rows.filter fun p => (db.sourceMediaRefs.get? p.referenceId).any fun r =>
    r.mediaItemId == media && r.sourceId != service.sourceId && r.available).map (·.pathKey)
  !keys.isEmpty && !known.isEmpty && !keys.any known.contains

/-- `_episode_hierarchy_is_compatible`. -/
def episodeHierarchyIsCompatible (db : Database) (item : MediaFields) (e : EpisodeFields)
    (episode : MediaItem) : Bool :=
  let season := db.mediaItems.get? (episode.parentId.getD 0)
  let «show» := season.bind fun season => db.mediaItems.get? (season.parentId.getD 0)
  match season, «show» with
  | some season, some «show» =>
    episode.kind == .episode && season.kind == .season && «show».kind == .show &&
      season.seasonNumber == some e.seasonNumber &&
      (db.byExternalIdentity service.sourceId e.showExternalId).all (·.mediaItemId == «show».id) &&
      (db.byExternalIdentity service.sourceId (item.seasonReferenceId e)).all
        (·.mediaItemId == season.id)
  | _, _ => false

/-- An episode may be matched only where its hierarchy fits. -/
def compatible (db : Database) (item : MediaFields) (candidate : MediaItem) : Bool :=
  item.episode?.all fun e => service.episodeHierarchyIsCompatible db item e candidate

/-- `_match_by_physical_path`. -/
def matchByPhysicalPath (db : Database) (item : MediaFields) : Option MediaItem :=
  let keys := service.incomingKeys item
  if keys = [] then none
  else
    let candidates := db.mediaItems.rows.filter fun m => m.kind == item.kind &&
      db.sourceMediaRefs.rows.any fun r => r.mediaItemId == m.id &&
        r.sourceId != service.sourceId && r.available &&
        db.mediaFilePaths.rows.any fun p => p.referenceId == r.id && keys.contains p.pathKey
    (single candidates).filter (service.compatible db item)

/-- `_match_cross_source_episode`. -/
def matchCrossSourceEpisode (db : Database) (e : EpisodeFields) : Option MediaItem :=
  single (db.mediaItems.rows.filter fun m => m.kind == .episode &&
    m.seasonNumber == some e.seasonNumber &&
    m.episodeNumber == some e.episodeNumber &&
    ((m.parentId.bind db.mediaItems.get?).any fun season => season.kind == .season &&
      season.seasonNumber == some e.seasonNumber &&
      ((season.parentId.bind db.mediaItems.get?).any fun «show» => «show».kind == .show &&
        service.py.normalizedTitle «show».title == service.py.normalizedTitle e.showTitle)) &&
    db.sourceMediaRefs.rows.any fun r => r.mediaItemId == m.id && r.sourceId != service.sourceId &&
      r.available)

/-- An episode of a known season with the same coordinates, on another source. -/
def matchSeasonEpisode (db : Database) (e : EpisodeFields) (season : Nat) : Option MediaItem :=
  single (db.mediaItems.rows.filter fun m => m.kind == .episode && m.parentId == some season &&
    m.seasonNumber == some e.seasonNumber && m.episodeNumber == some e.episodeNumber &&
    db.sourceMediaRefs.rows.any fun r => r.mediaItemId == m.id && r.sourceId != service.sourceId)

/-- A movie of the same title and year on another source. `lower()` of SQLite folds ASCII only. -/
def matchMovieTitle (db : Database) (item : MediaFields) : Option MediaItem :=
  single (db.mediaItems.rows.filter fun m => m.kind == .movie &&
    String.ofList (m.title.toList.map Char.toLower) == service.py.casefold item.title &&
      m.year == item.year &&
    db.sourceMediaRefs.rows.any fun r => r.mediaItemId == m.id &&
      (db.sources.get? r.sourceId).any (·.id != service.sourceId))

/-- What `_match_by_identifiers` looks for when no identifier matches. -/
def matchWithoutIdentifiers (db : Database) (item : MediaFields) : Option MediaItem :=
  match item.episode? with
  | some e =>
    match db.byExternalIdentity service.sourceId (item.seasonReferenceId e) with
    | none => service.matchCrossSourceEpisode db e
    | some season => service.matchSeasonEpisode db e season.mediaItemId
  | none => if item.kind = .movie then service.matchMovieTitle db item else none

/-- The ids `_match_by_identifiers` finds; an episode of the same source is not one of them. -/
def identifierMatches (db : Database) (item : MediaFields) : List Nat :=
  let found := db.mediaIdsForKind item.kind item.identifiers
  if item.kind = .episode then
    found.filter fun i => !db.sourceMediaRefs.rows.any fun r => r.sourceId == service.sourceId &&
      r.mediaItemId == i
  else found

/-- `_match_by_identifiers`. -/
def matchByIdentifiers (item : MediaFields) : Persist (Option MediaItem) := do
  match ← Program.read (service.identifierMatches · item) with
  | [] => Program.read (service.matchWithoutIdentifiers · item)
  | [i] =>
    let matched ← requiredMedia i
    let fits ← Program.read (service.compatible · item matched)
    return if fits then some matched else none
  | _ => if item.kind = .episode then return none else .fail .ambiguousIdentifiers

/-! ### Containers -/

structure Container where
  externalId : String
  kind : MediaKind
  title : String
  parentId : Option Nat
  seasonNumber : Option Nat
  imageSourcePath : Option String
  genres : List String
  identifiers : List ExternalIdentifier := []

/-- The reference of a container: it has no key, no date and no hash. -/
def containerReference (media : Nat) (externalId : String) (observedAt : Time) :
    SourceMediaRef where
  id := 0
  sourceId := service.sourceId
  libraryId := service.libraryId
  mediaItemId := media
  externalId := externalId
  lastSeenAt := observedAt
  updatedAt := service.now

/-- The reference `_bind_existing_container` finds or adds. -/
def bindReference (media : Nat) (externalId : String) (observedAt : Time) : Persist Unit := do
  match ← Program.read (·.byExternalIdentity service.sourceId externalId) with
  | some reference =>
    if reference.mediaItemId ≠ media then .fail .historicalConflict
    else service.touchReference reference observedAt
  | none =>
    let _ ← addReference (service.containerReference media externalId observedAt)
    return ()

/-- `_bind_existing_container`. -/
def bindExistingContainer (media : Nat) (externalId : String) (imageSourcePath : Option String)
    (genres : List String) (observedAt : Time) : Persist Unit := do
  service.bindReference media externalId observedAt
  Program.write (service.syncImage media "poster" imageSourcePath)
  Program.write (service.mergeGenres media genres)

/-- `_match_container_by_identifiers`. -/
def matchContainerByIdentifiers (c : Container) : Persist (Option Nat) := do
  let found ← Program.read (·.mediaIdsForKind c.kind c.identifiers)
  let titled ← Program.read fun db => found.filter fun i =>
    (db.mediaItems.get? i).any fun m =>
      service.py.normalizedTitle m.title == service.py.normalizedTitle c.title
  match if 1 < found.length then titled else found with
  | [] => return none
  | [i] => return some i
  | _ => .fail .ambiguousContainer

/-- `_match_historical_container`. -/
def matchHistoricalContainer (c : Container) : Persist (Option Nat) := do
  if c.kind ≠ .show ∧ c.kind ≠ .season then return none
  else
    let candidates ← Program.read fun db => (db.mediaItems.rows.filter fun m =>
      m.kind == c.kind && m.parentId == c.parentId &&
        if c.kind =
          .show then service.py.normalizedTitle m.title == service.py.normalizedTitle c.title
        else m.seasonNumber == c.seasonNumber).map (·.id)
    let owned ← Program.read fun db => candidates.filter fun i =>
      db.sourceMediaRefs.rows.any fun r => r.sourceId == service.sourceId && r.mediaItemId == i
    match candidates, owned with
    | [], _ => return none
    | [i], _ => return some i
    | _, [i] => return some i
    | _, _ => .fail .ambiguousHistory

/-- The container that is in the catalog already: `historical` of `_ensure_container`. -/
def matchContainer (c : Container) : Persist (Option Nat) := do
  match ← service.matchContainerByIdentifiers c with
  | some i => return some i
  | none => service.matchHistoricalContainer c

/-- The branch of `_ensure_container` for a container the source has shown before. -/
def ensureKnownContainer (c : Container) (reference : SourceMediaRef) (observedAt : Time) :
    Persist Nat := do
  service.touchReference reference observedAt
  let media ← requiredMedia reference.mediaItemId
  if media.kind ≠ c.kind ∨ media.parentId ≠ c.parentId then .fail .hierarchyConflict
  else
    Program.write (service.syncImage media.id "poster" c.imageSourcePath)
    Program.write fun db => if c.genres = [] then db else service.mergeGenres media.id c.genres db
    service.syncIdentifierValues media.id c.identifiers
    return media.id

def newContainer (id : Nat) (c : Container) : MediaItem where
  id := id
  kind := c.kind
  parentId := c.parentId
  title := c.title
  seasonNumber := c.seasonNumber
  updatedAt := service.now

/-- A container that is new to the catalog. -/
def createContainer (c : Container) (observedAt : Time) : Persist Nat := do
  let id ← Program.read (·.mediaItems.nextId)
  Program.write (·.insertMediaItem (service.newContainer id c))
  let _ ← addReference (service.containerReference id c.externalId observedAt)
  Program.write (service.syncImage id "poster" c.imageSourcePath)
  Program.write (service.mergeGenres id c.genres)
  service.syncIdentifierValues id c.identifiers
  return id

/-- `_ensure_container`. -/
def ensureContainer (c : Container) (observedAt : Time) : Persist Nat := do
  match ← Program.read (·.byExternalIdentity service.sourceId c.externalId) with
  | some reference => service.ensureKnownContainer c reference observedAt
  | none =>
    match ← service.matchContainer c with
    | some i =>
      service.bindExistingContainer i c.externalId c.imageSourcePath c.genres observedAt
      service.syncIdentifierValues i c.identifiers
      return i
    | none => service.createContainer c observedAt

/-- `_bind_existing_episode_hierarchy`. -/
def bindExistingEpisodeHierarchy (item : MediaFields) (e : EpisodeFields) (episode : MediaItem)
    (observedAt : Time) :
    Persist Nat := do
  let season ← requiredMedia (episode.parentId.getD 0)
  let «show» ← requiredMedia (season.parentId.getD 0)
  if episode.kind ≠ .episode ∨ season.kind ≠ .season ∨ «show».kind ≠ .show ∨
    season.seasonNumber ≠ some e.seasonNumber then
    .fail .incompatibleHierarchy
  else
    Program.write fun db => if service.canonicalSourceMayUpdate db «show».id then
      db.saveMediaItem service.now «show».id ⟨fun m => { m with title := e.showTitle }, fun _ =>
        rfl⟩ else db
    service.bindExistingContainer «show».id e.showExternalId item.artistThumbPath
      item.genres observedAt
    service.bindExistingContainer season.id (item.seasonReferenceId e) item.albumThumbPath
      item.genres observedAt
    return season.id

/-- The branch of `_ensure_hierarchy` for an album that has a reference. -/
def ensureKnownAlbum (item : MediaFields) (t : TrackFields) (reference : SourceMediaRef)
    (observedAt : Time) :
    Persist Nat := do
  service.touchReference reference observedAt
  let album ← requiredMedia reference.mediaItemId
  if album.kind ≠ .album then .fail .albumConflict
  else
    Program.write fun db => db.saveMediaItem service.now album.id
      ⟨fun m => { m with title := t.albumTitle }, fun _ => rfl⟩
    Program.write (service.syncImage album.id "poster" item.albumThumbPath)
    Program.write (service.mergeGenres album.id item.genres)
    return album.id

def artistContainer (item : MediaFields) (t : TrackFields) : Container where
  externalId := t.artistExternalId
  kind := .artist
  title := t.artistTitle
  parentId := none
  seasonNumber := none
  imageSourcePath := item.artistThumbPath
  genres := item.genres

def albumContainer (item : MediaFields) (t : TrackFields) (artist : Nat) : Container where
  externalId := t.albumExternalId
  kind := .album
  title := t.albumTitle
  parentId := some artist
  seasonNumber := none
  imageSourcePath := item.albumThumbPath
  genres := item.genres

def showContainer (item : MediaFields) (e : EpisodeFields) : Container where
  externalId := e.showExternalId
  kind := .show
  title := e.showTitle
  parentId := none
  seasonNumber := none
  imageSourcePath := item.artistThumbPath
  genres := item.genres
  identifiers := item.showIdentifiers

def seasonContainer (item : MediaFields) (e : EpisodeFields) («show» : Nat) : Container where
  externalId := item.seasonReferenceId e
  kind := .season
  title := s!"Season {e.seasonNumber}"
  parentId := some «show»
  seasonNumber := some e.seasonNumber
  imageSourcePath := item.albumThumbPath
  genres := item.genres

/-- The album of a track. -/
def ensureAlbum (item : MediaFields) (t : TrackFields) (observedAt : Time) : Persist Nat := do
  match ← Program.read (·.byExternalIdentity service.sourceId t.albumExternalId) with
  | some reference => service.ensureKnownAlbum item t reference observedAt
  | none =>
    let artist ← service.ensureContainer (artistContainer item t) observedAt
    service.ensureContainer (albumContainer item t artist) observedAt

/-- The season of an episode that matches nothing. -/
def ensureSeason (item : MediaFields) (e : EpisodeFields) (observedAt : Time) : Persist Nat := do
  let «show» ← service.ensureContainer (showContainer item e) observedAt
  service.ensureContainer (seasonContainer item e «show») observedAt

/-- `_ensure_hierarchy`. -/
def ensureHierarchy (item : MediaFields) (observedAt : Time) (matched : Option MediaItem) :
    Persist (Option Nat) :=
  match item.track?, item.episode?, matched with
  | some t, _, _ => do return some (← service.ensureAlbum item t observedAt)
  | none, some e, some episode =>
    do return some (← service.bindExistingEpisodeHierarchy item e episode observedAt)
  | none, some e, none => do return some (← service.ensureSeason item e observedAt)
  | none, none, _ => pure none

end MediaPersistenceService

end Euvieouvi
