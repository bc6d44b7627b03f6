import Euvieouvi.Scripts.Trakt

/-!
# The import of a Trakt export

`import_archive` over the valid events of an export: a first pass matches them to the items of the
catalogue and adds their identifiers, a second one creates what is missing and inserts the history.
Reading the archive, the backup and the progress texts are left out; an import that raises is rolled
back.
-/

namespace Euvieouvi

/-- What `_parse_event` demands of a movie and of an episode. -/
inductive ExportMedia
  | movie (year : Option Nat)
  | episode (seasonNumber episodeNumber : Nat) (showTitle : String) (showYear : Option Nat)
      (showIdentifiers : List ExternalIdentifier)
deriving DecidableEq, Repr

def ExportMedia.kind : ExportMedia → MediaKind
  | movie _ => .movie
  | episode .. => .episode

/-- A `HistoryEvent` as `_parse_event` returns it. -/
structure ExportEvent extends HistoryEvent where
  title : String
  identifiers : List ExternalIdentifier
  media : ExportMedia
  identified : identifiers ≠ [] := by decide

/-- What `MediaIndex.match` says: `None`, an item, or `-1`. -/
inductive IndexMatch | unmatched | item (mediaId : Nat) | ambiguous
deriving DecidableEq, Repr

structure MediaIndex where
  byIdentifier : MediaKind → ExternalIdentifier → List Nat
  preferredMediaIds : List Nat

namespace MediaIndex

/-- One value of `by_identifier` gets the item. -/
def insert (index : MediaIndex) (kind : MediaKind) (x : ExternalIdentifier) (mediaId : Nat) :
    MediaIndex :=
  { index with
    byIdentifier := fun k y =>
      if k = kind ∧ y = x then (index.byIdentifier k y).insert mediaId else index.byIdentifier k y }

/-- The preferred items are those the source has references of. -/
def load (db : Database) (sourceId : Nat) : MediaIndex :=
  db.mediaIdentifiers.rows.foldl (fun index r =>
    match db.mediaItems.get? r.mediaItemId with
    | some m => index.insert m.kind ⟨r.provider, r.externalId⟩ r.mediaItemId
    | none => index)
  { byIdentifier := fun _ _ => []
    preferredMediaIds :=
      (db.sourceMediaRefs.rows.filter fun r => r.sourceId == sourceId).map (·.mediaItemId) }

def add (index : MediaIndex) (kind : MediaKind) (mediaId : Nat)
    (identifiers : List ExternalIdentifier) : MediaIndex :=
  identifiers.foldl (fun index x => index.insert kind x mediaId) index

def score (index : MediaIndex) (kind : MediaKind) (identifiers : List ExternalIdentifier)
    (mediaId : Nat) : Nat :=
  identifiers.countP fun x => (index.byIdentifier kind x).contains mediaId

/-- The keys of `scores`. -/
def candidates (index : MediaIndex) (kind : MediaKind)
    (identifiers : List ExternalIdentifier) : List Nat :=
  (identifiers.flatMap (index.byIdentifier kind)).eraseDups

/-- `MediaIndex.match`. -/
def «match» (index : MediaIndex) (kind : MediaKind) (identifiers : List ExternalIdentifier) :
    IndexMatch :=
  let scored := index.candidates kind identifiers
  if scored.isEmpty then .unmatched
  else
    let bestScore := (scored.map (index.score kind identifiers)).foldl max 0
    let best := scored.filter fun i => index.score kind identifiers i == bestScore
    match best.filter index.preferredMediaIds.contains with
    | [i] => .item i
    | _ =>
      match best with
      | [i] => .item i
      | _ => .ambiguous

end MediaIndex

/-- The counters of an `ImportReport`. -/
structure ImportReport where
  eventsValid : Nat := 0
  eventsInserted : Nat := 0
  eventsAlreadyImported : Nat := 0
  mediaMatched : Nat := 0
  mediaCreated : Nat := 0
  showsCreated : Nat := 0
  seasonsCreated : Nat := 0
  identifiersAdded : Nat := 0
  ambiguousEvents : Nat := 0
deriving DecidableEq, Repr

/-- An import on its way; `touched` are the items that have a new event. -/
structure Importing where
  db : Database
  index : MediaIndex
  report : ImportReport
  touched : List Nat := []

/-- `_show_for_episode`. -/
def Database.showForEpisode (db : Database) (episodeId : Nat) : Option Nat := do
  let episode ← (db.mediaItems.get? episodeId).filter (·.kind == .episode)
  let season ← (episode.parentId.bind db.mediaItems.get?).filter (·.kind == .season)
  let «show» ← (season.parentId.bind db.mediaItems.get?).filter (·.kind == .show)
  return «show».id

namespace TraktImport
variable (trakt : TraktImport)

/-- `INSERT OR IGNORE INTO media_identifiers`; the flag is the count of rows. -/
def insertOrIgnore (mediaId : Nat) (db : Database) (x : ExternalIdentifier) : Database × Nat :=
  if db.mediaIdentifiers.rows.any fun r => r.mediaItemId == mediaId && r.provider == x.provider &&
    r.externalId == x.externalId
  then (db, 0)
  else (db.insertMediaIdentifier ⟨db.mediaIdentifiers.nextId, mediaId, x.provider, x.externalId,
    trakt.now⟩, 1)

/-- The statements of `_add_identifiers` and the sum of their counts. -/
def insertIdentifiers (mediaId : Nat) (identifiers : List ExternalIdentifier) (db : Database) :
    Database × Nat :=
  identifiers.foldl (fun (acc : Database × Nat) x =>
    let (db, rowcount) := trakt.insertOrIgnore mediaId acc.1 x
    (db, acc.2 + rowcount)) (db, 0)

/-- `_add_identifiers`, with the addition to the counter that its callers make. -/
def addIdentifiers (kind : MediaKind) (mediaId : Nat) (identifiers : List ExternalIdentifier)
    (s : Importing) : Importing :=
  let (db, added) := trakt.insertIdentifiers mediaId identifiers s.db
  { s with
    db := db
    index := s.index.add kind mediaId identifiers
    report := { s.report with identifiersAdded := s.report.identifiersAdded + added } }

/-- The show of a matched episode gets its identifiers. -/
def enrichShow (media : ExportMedia) (mediaId : Nat) (s : Importing) : Importing :=
  match media with
  | .movie _ => s
  | .episode _ _ _ _ showIdentifiers =>
    match s.db.showForEpisode mediaId with
    | none => s
    | some showId => trakt.addIdentifiers .show showId showIdentifiers s

/-- An event of the first pass whose item is matched. -/
def enrich (event : ExportEvent) (mediaId : Nat) (s : Importing) : Importing :=
  trakt.enrichShow event.media mediaId
    (trakt.addIdentifiers event.media.kind mediaId event.identifiers
    { s with report := { s.report with mediaMatched := s.report.mediaMatched + 1 } })

/-- The first pass over one event. -/
def associate (s : Importing) (event : ExportEvent) : Importing × IndexMatch :=
  let decision := s.index.match event.media.kind event.identifiers
  match decision with
  | .ambiguous =>
    ({ s with report := { s.report with ambiguousEvents := s.report.ambiguousEvents + 1 } },
      decision)
  | .unmatched => (s, decision)
  | .item mediaId => (trakt.enrich event mediaId s, decision)

/-- The first pass; each event keeps what was decided of it. -/
def associateAll (s : Importing) : List ExportEvent → Importing × List (ExportEvent × IndexMatch)
  | [] => (s, [])
  | event :: events =>
    let (s, decision) := trakt.associate s event
    let (s, decisions) := associateAll s events
    (s, (event, decision) :: decisions)

/-- `_insert_media`. -/
def insertMedia (kind : MediaKind) (title : String)
    (year parentId seasonNumber episodeNumber : Option Nat) (db : Database) : Database × Nat :=
  let id := db.mediaItems.nextId
  (db.insertMediaItem
    { id := id
      kind := kind
      parentId := parentId
      title := String.ofList (title.toList.take 500)
      year := year
      seasonNumber := seasonNumber
      episodeNumber := episodeNumber
      updatedAt := trakt.now }, id)

/-- The show of a new episode: matched, or created with its identifiers. -/
def historicalShow (title : String) (year : Option Nat) (identifiers : List ExternalIdentifier)
    (s : Importing) :
    Option (Importing × Nat) :=
  match s.index.match .show identifiers with
  | .ambiguous => none
  | .item showId => some (s, showId)
  | .unmatched =>
    let (db, showId) := trakt.insertMedia .show title year none none none s.db
    some (trakt.addIdentifiers .show showId identifiers
      { s with db := db, report := { s.report with showsCreated := s.report.showsCreated + 1 } },
        showId)

/-- The season of a new episode. -/
def historicalSeason (showId number : Nat) (s : Importing) : Importing × Nat :=
  match s.db.mediaItems.rows.find? fun m =>
      m.kind == .season && m.parentId == some showId && m.seasonNumber == some number with
  | some season => (s, season.id)
  | none =>
    let (db, seasonId) :=
      trakt.insertMedia .season s!"Season {number}" none (some showId) (some number) none s.db
    ({ s with db := db, report := { s.report with seasonsCreated := s.report.seasonsCreated + 1 } },
      seasonId)

/-- The item itself, with its identifiers. -/
def historicalItem (event : ExportEvent) (year parentId seasonNumber episodeNumber : Option Nat)
    (s : Importing) :
    Importing × Nat :=
  let (db, mediaId) :=
    trakt.insertMedia event.media.kind event.title year parentId seasonNumber episodeNumber s.db
  (trakt.addIdentifiers event.media.kind mediaId event.identifiers
    { s with db := db, report := { s.report with mediaCreated := s.report.mediaCreated + 1 } },
      mediaId)

/-- `_create_historical_media`. -/
def createHistoricalMedia (event : ExportEvent) (s : Importing) : Option (Importing × Nat) :=
  match event.media with
  | .movie year => some (trakt.historicalItem event year none none none s)
  | .episode seasonNumber episodeNumber showTitle showYear showIdentifiers => do
    let (s, showId) ← trakt.historicalShow showTitle showYear showIdentifiers s
    let (s, seasonId) := trakt.historicalSeason showId seasonNumber s
    return trakt.historicalItem event none (some seasonId) (some seasonNumber)
      (some episodeNumber) s

/-- The event of an item is inserted, or was already. -/
def recordEvent (event : ExportEvent) (mediaId : Nat) (s : Importing) : Option Importing := do
  let (db, touched) ← trakt.importEvent (s.db, s.touched) (event.toHistoryEvent, mediaId)
  let report :=
    if (s.db.bySourceEventId trakt.sourceId (sourceEventId event.toHistoryEvent)).isSome then
      { s.report with eventsAlreadyImported := s.report.eventsAlreadyImported + 1 }
    else { s.report with eventsInserted := s.report.eventsInserted + 1 }
  return { s with db := db, report := report, touched := touched }

/-- The second pass over one event. -/
def importDecided (s : Importing) (decided : ExportEvent × IndexMatch) : Option Importing :=
  match decided.2 with
  | .ambiguous => some s
  | .item mediaId => trakt.recordEvent decided.1 mediaId s
  | .unmatched =>
    match s.index.match decided.1.media.kind decided.1.identifiers with
    | .ambiguous =>
      some { s with report := { s.report with ambiguousEvents := s.report.ambiguousEvents + 1 } }
    | .item mediaId => trakt.recordEvent decided.1 mediaId s
    | .unmatched => do
      let (s, mediaId) ← trakt.createHistoricalMedia decided.1 s
      trakt.recordEvent decided.1 mediaId s

/-- The states of the touched items and the setting that asks for a synchronization. -/
def finish (s : Importing) : Database :=
  let refreshed := (s.touched.dedup.mergeSort (· ≤ ·)).foldl trakt.refreshWatchState s.db
  if s.touched.isEmpty then refreshed
  else { refreshed with settings := { refreshed.settings with watchSyncPending := true } }

/-- `import_archive` with `apply=True`; `none` is an import that raises. -/
def importArchive (events : List ExportEvent) (db : Database) : Option (Database × ImportReport) :=
  if events.isEmpty then none
  else do
    let start : Importing :=
      { db := db
        index := .load db trakt.sourceId
        report := { eventsValid := events.length } }
    let (associated, decisions) := trakt.associateAll start events
    let s ← decisions.foldlM trakt.importDecided associated
    return (trakt.finish s, s.report)

end TraktImport

end Euvieouvi
