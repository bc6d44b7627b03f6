import Euvieouvi.Catalog.ManualMatch
import Euvieouvi.Sync.Executor
import Mathlib.Data.List.Sort
import Mathlib.Logic.Function.Basic

/-!
# Metadata from outside

`enrich_catalog` and `recover_missing_artwork` (`enrichment/service.py`): facts and posters that no
media server has told are asked for at TMDB and MusicBrainz, by exact identifiers. What a client
answers enters as it comes (`EnrichmentTurn`), and any exception that the loops do not catch ends
the run: what is not committed yet is lost.
-/

namespace Euvieouvi

/-- `EnrichedMetadata`, all of it. -/
structure ProviderMetadata extends EnrichedMetadata where
  posterProvider : Option String := none
deriving DecidableEq, Repr

/-- How a lookup ends. -/
inductive EnrichmentAnswer
  | found (metadata : ProviderMetadata)
  /-- `EnrichmentNotFoundError`. -/
  | notFound (text : String)
  /-- Another `EnrichmentError`. -/
  | failed (text : String)
  /-- `ValueError`. -/
  | invalid (text : String)
  /-- Any other exception. -/
  | raised
deriving DecidableEq, Repr

inductive EnrichmentStatus | pending | succeeded | failed | notFound
deriving DecidableEq, Repr

/-- The columns of `enrichment_records` that only the enrichment reads and writes. -/
structure EnrichmentColumns where
  status : EnrichmentStatus := .pending
  attempts : Nat := 0
  checkedAt : Option Time := none
  message : Option String := none
deriving DecidableEq, Repr

structure EnrichmentState where
  db : Database
  columns : Nat → EnrichmentColumns
  /-- The setting `metadata.last_summary`. -/
  lastSummary : Option String := none
  /-- The setting `metadata.last_artwork_summary`. -/
  lastArtworkSummary : Option String := none

/-- The language and the clients that the settings configure. -/
structure EnrichmentSettings where
  language : String := "pt-BR"
  tmdb : Bool
  musicbrainz : Bool

inductive EnrichmentProvider | tmdb | musicbrainz
deriving DecidableEq, Repr

/-- What happens around one turn of a loop. -/
structure EnrichmentTurn where
  /-- `cancelled()`. -/
  cancelledBefore : Bool := false
  now : Time
  /-- `tmdb.lookup`: the media type, the identifier and the language. -/
  lookup : String → String → String → EnrichmentAnswer
  /-- `tmdb.lookup_external`: the media type, the provider, the identifier and the language. -/
  lookupExternal : String → String → String → String → EnrichmentAnswer
  lookupRecording : String → EnrichmentAnswer
  lookupReleaseArtwork : String → EnrichmentAnswer
  /-- `progress` raises after the commit: the token is cancelled. -/
  cancelledAfter : Bool := false

structure EnrichmentTurns where
  /-- The first call of `progress` raises. -/
  cancelledFirst : Bool := false
  /-- The first call of `progress` commits the session, which the executor shares with it. -/
  commitsFirst : Bool := false
  /-- The turn for an identifier, or for an item where the loop goes over items. -/
  turn : Nat → EnrichmentTurn

namespace ProviderMetadata

/-- `a or b` of texts: an empty text counts as none. -/
def orText (a b : Option String) : Option String := (a.filter (· ≠ "")).or b

/-- `_needs_language_fallback`. -/
def needsLanguageFallback (metadata : ProviderMetadata) : Bool :=
  metadata.summary.isNone || metadata.tagline.isNone

/-- `_merge_metadata`. -/
def merge (primary fallback : ProviderMetadata) : ProviderMetadata where
  summary := orText primary.summary fallback.summary
  tagline := orText primary.tagline fallback.tagline
  studio := orText primary.studio fallback.studio
  audienceRating := primary.audienceRating.or fallback.audienceRating
  genres := if primary.genres = [] then fallback.genres else primary.genres
  posterUrl := orText primary.posterUrl fallback.posterUrl
  posterProvider := orText primary.posterProvider fallback.posterProvider

/-- `setattr` where the item has no value. -/
def fill (metadata : ProviderMetadata) (m : MediaItem) : MediaItem :=
  { m with
    summary := m.summary.or metadata.summary
    tagline := m.tagline.or metadata.tagline
    studio := m.studio.or metadata.studio
    audienceRating := m.audienceRating.or metadata.audienceRating }

/-- A genre of `_apply`: found or stored under its normalized name, and linked unless it is. -/
def linkGenre (py : PyLib) (item : Nat) (s : Database × Bool) (name : String) : Database × Bool :=
  let display := " ".intercalate (py.split name)
  let normalized := py.casefold display
  let (genreId, genres) := match s.1.genres.rows.find? (·.normalizedName == normalized) with
    | some genre => (genre.id, s.1.genres)
    | none => (s.1.genres.nextId, s.1.genres.insert ⟨s.1.genres.nextId, display, normalized⟩)
  if s.1.mediaGenres.rows.any fun l => l.mediaItemId == item &&
    l.genreId == genreId then ({ s.1 with genres := genres }, s.2)
  else ({ s.1 with
    genres := genres, mediaGenres := s.1.mediaGenres.insert ⟨s.1.mediaGenres.nextId, item,
      genreId⟩ }, true)

end ProviderMetadata

namespace Database

/-- `db.session.add(MediaImage(…, source_id=None, image_type="poster", …))`. -/
def addPoster (now : Time) (item : Nat) (provider url : String) (db : Database) : Database :=
  { db with
    mediaImages := db.mediaImages.insert
      { id := db.mediaImages.nextId
        mediaItemId := item
        imageType := "poster"
        provider := provider
        sourceUrl := some url
        updatedAt := now } }

/-- The record of an item and a provider: `uq_enrichment_records_item_provider` allows one. -/
def enrichmentRecord (db : Database) (item : Nat) (provider : String) : Option EnrichmentRecord :=
  db.enrichmentRecords.rows.find? fun r => r.mediaItemId == item && r.provider == provider

def hasPoster (db : Database) (item : Nat) : Bool := (db.byItemAndType item "poster").isSome

end Database

/-- `_apply`: the database and whether anything changed. -/
def ProviderMetadata.apply (py : PyLib) (now : Time) (item : MediaItem)
    (metadata : ProviderMetadata) (db : Database) :
    Database × Bool :=
  let filled := db.saveMediaItem now item.id ⟨metadata.fill, fun _ => rfl⟩
  let (genred, changed) := metadata.genres.foldl (ProviderMetadata.linkGenre py item.id)
    (filled, decide (metadata.fill item ≠ item))
  match metadata.posterUrl.filter (· ≠ ""), metadata.posterProvider.filter (· ≠ "") with
  | some url, some provider =>
    if genred.hasPoster item.id then (genred, changed)
      else (genred.addPoster now item.id provider url, true)
  | _, _ => (genred, changed)

/-- `str(error)[:500]`. -/
def enrichmentMessage (text : String) : String := String.ofList (text.toList.take 500)

/-- The first statement of `enrich_catalog`. -/
def EnrichmentColumns.migrate (c : EnrichmentColumns) : EnrichmentColumns :=
  if c.status = .failed ∧
    c.message ∈ [some "MusicBrainz recording was not found", some "TMDB item was not found"] then
    { c with status := .notFound }
  else c

namespace EnrichmentState
variable (st : EnrichmentState)

def migrate : EnrichmentState := { st with columns := fun id => (st.columns id).migrate }

/-- The record of an item and a provider, or a new one. -/
def openRecord (item : Nat) (provider : String) : Nat × EnrichmentState :=
  match st.db.enrichmentRecord item provider with
  | some r => (r.id, st)
  | none => (st.db.enrichmentRecords.nextId, { st with
      db := { st.db with
        enrichmentRecords := st.db.enrichmentRecords.insert
          ⟨st.db.enrichmentRecords.nextId, item, provider⟩ }
      columns := Function.update st.columns st.db.enrichmentRecords.nextId {} })

/-- One more attempt, and how it ended. -/
def settle (record : Nat) (now : Time) (status : EnrichmentStatus) (message : Option String) :
    EnrichmentState :=
  { st with
    columns := Function.update st.columns record {
      status := status
      attempts := (st.columns record).attempts + 1
      checkedAt := some now
      message := message } }

/-- The status of the record of an item and a provider. -/
def statusOf (item : Nat) (provider : String) : Option EnrichmentStatus :=
  (st.db.enrichmentRecord item provider).map fun r => (st.columns r.id).status

end EnrichmentState

/-! ### Facts -/

structure EnrichmentRun where
  state : EnrichmentState
  /-- What the last commit has stored. -/
  committed : EnrichmentState
  counters : EnrichmentCounters := {}
  /-- The counters and the percentages that `progress` is called with. -/
  reports : List (EnrichmentCounters × Nat) := []

namespace EnrichmentSettings
variable (settings : EnrichmentSettings)

/-- The client for an identifier of this provider, of an item of this kind. -/
def provider (provider : String) (kind : MediaKind) : Option EnrichmentProvider :=
  if provider = "tmdb" ∧ settings.tmdb = true ∧ (kind = .movie ∨ kind = .show) then some .tmdb
  else if provider = "mbid" ∧ settings.musicbrainz = true ∧ kind = .track then some .musicbrainz
  else none

/-- `or_(*eligible_candidates)`. -/
def eligible (db : Database) (i : MediaIdentifier) : Bool :=
  (db.mediaItems.get? i.mediaItemId).any fun m =>
    match settings.provider i.provider m.kind with
    | some .tmdb =>
      m.summary.isNone || m.tagline.isNone || m.studio.isNone || m.audienceRating.isNone ||
        !db.hasPoster m.id
    | some .musicbrainz => !db.hasPoster m.id
    | none => false

end EnrichmentSettings

/-- The order of the candidates: those that were never asked for, then by the time of the last
attempt. -/
def EnrichmentState.candidateOrder (st : EnrichmentState) (a b : MediaIdentifier) : Ordering :=
  let record (i : MediaIdentifier) := st.db.enrichmentRecord i.mediaItemId i.provider
  let checkedAt (i : MediaIdentifier) := (record i).bind fun r => (st.columns r.id).checkedAt
  (compare (record a).isSome.toNat (record b).isSome.toNat).then <| (compare (checkedAt a)
    (checkedAt b)).then <|
    (compare a.mediaItemId b.mediaItemId).then (compare a.id b.id)

/-- `candidate_query`, without its limit. -/
def EnrichmentState.candidates (settings : EnrichmentSettings) (st : EnrichmentState) :
    List MediaIdentifier :=
  (st.db.mediaIdentifiers.rows.filter fun i => settings.eligible st.db i &&
    (st.statusOf i.mediaItemId i.provider).all fun status => status != .succeeded &&
      status != .notFound).insertionSort
      fun a b => (st.candidateOrder a b).isLE = true

/-- The lookups for one identifier of an item. -/
def EnrichmentTurn.metadata (call : EnrichmentTurn) (settings : EnrichmentSettings)
    (provider : EnrichmentProvider) (kind : MediaKind) (externalId : String) : EnrichmentAnswer :=
  match provider with
  | .tmdb =>
    let mediaType := if kind = .movie then "movie" else "tv"
    match call.lookup mediaType externalId settings.language with
    | .found metadata =>
      if settings.language = "pt-BR" ∧ metadata.needsLanguageFallback = true then
        match call.lookup mediaType externalId "en-US" with
        | .found fallback => .found (metadata.merge fallback)
        | .notFound _ | .failed _ => .found metadata
        | answer => answer
      else .found metadata
    | answer => answer
  | .musicbrainz => call.lookupRecording externalId

namespace EnrichmentRun
variable (run : EnrichmentRun)

/-- The run before its first candidate. -/
def start (calls : EnrichmentTurns) (st : EnrichmentState) (total : Nat) : EnrichmentRun where
  state := st.migrate
  committed := if calls.commitsFirst && !calls.cancelledFirst then st.migrate else st
  reports := [({}, if total = 0 then 100 else 0)]

/-- The end of a turn: the counters, the commit and the report. -/
def commit (total : Nat) (state : EnrichmentState) (counters : EnrichmentCounters) :
    EnrichmentRun where
  state := state
  committed := state
  counters := counters
  reports := run.reports ++ [(counters, counters.percent total)]

/-- One identifier whose item and client are known; `none` when an exception ends the run. -/
def ask (py : PyLib) (settings : EnrichmentSettings) (total : Nat) (call : EnrichmentTurn)
    (provider : EnrichmentProvider)
    (identifier : MediaIdentifier) (item : MediaItem) : Option EnrichmentRun :=
  let record := (run.state.openRecord item.id identifier.provider).1
  let opened := (run.state.openRecord item.id identifier.provider).2
  match call.metadata settings provider item.kind identifier.externalId with
  | .found metadata =>
    let applied := metadata.apply py call.now item opened.db
    some (run.commit total ({ opened with db := applied.1 }.settle record call.now .succeeded none)
      (run.counters.looked applied.2))
  | .notFound text =>
    some (run.commit total (opened.settle record call.now .notFound (some (enrichmentMessage text)))
      run.counters.lookedInVain)
  | .failed text | .invalid text =>
    some (run.commit total (opened.settle record call.now .failed (some (enrichmentMessage text)))
      run.counters.lookedInVain)
  | .raised => none

/-- The run when a lookup raises: its item is counted, and nothing of it is stored. -/
def begun : EnrichmentRun :=
  { run with counters := { run.counters with processed := run.counters.processed + 1 } }

/-- `_save_summary` and the last commit. -/
def saveSummary : EnrichmentRun :=
  let saved : EnrichmentState :=
    { run.state with
      lastSummary := some
        (s!"processed={run.counters.processed},updated={run.counters.updated}," ++
          s!"failed={run.counters.failed}") }
  { run with state := saved, committed := saved }

end EnrichmentRun

/-- What the body of the loop does. -/
inductive EnrichmentStep
  | skipped
  | asked (run : EnrichmentRun)
  | raised

def EnrichmentStep.ofAsk : Option EnrichmentRun → EnrichmentStep
  | some run => asked run
  | none => raised

/-- The body of the loop for one candidate. -/
def EnrichmentRun.turn (run : EnrichmentRun) (py : PyLib) (settings : EnrichmentSettings)
    (total : Nat) (call : EnrichmentTurn) (id : Nat) : EnrichmentStep :=
  match run.state.db.mediaIdentifiers.get? id with
  | none => .skipped
  | some identifier => match run.state.db.mediaItems.get? identifier.mediaItemId with
    | none => .skipped
    | some item => match settings.provider identifier.provider item.kind with
      | none => .skipped
      | some provider =>
        if run.state.statusOf item.id identifier.provider = some .succeeded then .skipped
        else .ofAsk (run.ask py settings total call provider identifier item)

/-- How a run ends; after an exception the session holds what was committed. -/
inductive EnrichmentEnd
  | finished (run : EnrichmentRun)
  | raised (e : Raised) (run : EnrichmentRun)

namespace EnrichmentEnd

def run : EnrichmentEnd → EnrichmentRun
  | finished run | raised _ run => run

def state : EnrichmentEnd → EnrichmentState
  | finished run => run.state
  | raised _ run => run.committed

/-- What follows the loop, unless an exception has ended it. -/
def close : EnrichmentEnd → EnrichmentEnd
  | finished run => finished run.saveSummary
  | raised e run => raised e run

end EnrichmentEnd

/-- The loop over the candidates. -/
def EnrichmentRun.loop (py : PyLib) (settings : EnrichmentSettings) (limit : Option Nat)
    (total : Nat) (turns : Nat → EnrichmentTurn) :
    EnrichmentRun → List Nat → EnrichmentEnd
  | run, [] => .finished run
  | run, id :: ids =>
    if (turns id).cancelledBefore = true ∨
      limit.any (· ≤ run.counters.processed) = true then .finished run
    else match run.turn py settings total (turns id) id with
      | .skipped => loop py settings limit total turns run ids
      | .raised => .raised (.fault .other) run.begun
      | .asked run' =>
        if (turns id).cancelledAfter then .raised .cancelled run' else loop py settings limit total
          turns run' ids

namespace EnrichmentState
variable (py : PyLib) (settings : EnrichmentSettings) (limit : Option Nat) (calls : EnrichmentTurns)
  (st : EnrichmentState)

/-- `candidate_query` with its limit. -/
def limitedCandidates : List MediaIdentifier :=
  match limit with
  | some n => (st.candidates settings).take n
  | none => st.candidates settings

/-- `enrich_catalog`. -/
def enrichCatalog : EnrichmentEnd :=
  if settings.tmdb = false ∧ settings.musicbrainz = false then
    let run : EnrichmentRun := { state := st.migrate, committed := st, reports := [({}, 100)] }
    if calls.cancelledFirst then .raised .cancelled run else .finished run.saveSummary
  else
    let candidates := st.migrate.limitedCandidates settings limit
    if calls.cancelledFirst then .raised .cancelled (.start calls st candidates.length)
    else (EnrichmentRun.loop py settings limit candidates.length calls.turn
      (.start calls st candidates.length)
      (candidates.map (·.id))).close

end EnrichmentState

/-! ### Posters -/

structure ArtworkCounters where
  processed : Nat := 0
  updated : Nat := 0
  failed : Nat := 0
  notFound : Nat := 0
deriving DecidableEq, Repr

/-- `f"{_ARTWORK_RECORD_PREFIX}{provider}"`. -/
def artworkRecordProvider (provider : String) : String := "artwork:" ++ provider

namespace EnrichmentSettings
variable (settings : EnrichmentSettings)

/-- `or_(*candidate_conditions)`. -/
def artworkIdentifier (provider : String) (kind : MediaKind) : Bool :=
  settings.tmdb && (kind == .movie || kind == .show) &&
      (provider == "tmdb" || provider == "imdb" || kind == .show && provider == "tvdb") ||
    settings.musicbrainz &&
      (kind == .album && provider == "mbid-release" || kind == .track && provider == "mbid")

end EnrichmentSettings

/-- The exact identifiers before those that only lead to them. -/
def artworkRank (provider : String) : Nat :=
  if provider = "tmdb" ∨ provider = "mbid-release" then 0 else if provider = "imdb" ∨
    provider = "mbid" then 1 else 2

/-- `_lookup_artwork`. -/
def EnrichmentTurn.artwork (call : EnrichmentTurn) (settings : EnrichmentSettings)
    (kind : MediaKind) (identifier : MediaIdentifier) : EnrichmentAnswer :=
  if kind = .movie ∨ kind = .show then
    if settings.tmdb then
      let mediaType := if kind = .movie then "movie" else "tv"
      let ask (language : String) :=
        if identifier.provider = "tmdb" then call.lookup mediaType identifier.externalId language
        else call.lookupExternal mediaType identifier.provider identifier.externalId language
      match ask settings.language with
      | .found metadata =>
        if metadata.posterUrl = none ∧
          settings.language ≠ "en-US" then ask "en-US" else .found metadata
      | answer => answer
    else .invalid "TMDB artwork recovery is disabled"
  else if settings.musicbrainz then
    if kind = .album ∧
      identifier.provider = "mbid-release" then call.lookupReleaseArtwork identifier.externalId
    else if kind = .track ∧
      identifier.provider = "mbid" then call.lookupRecording identifier.externalId
    else .invalid "Unsupported exact artwork identifier"
  else .invalid "MusicBrainz artwork recovery is disabled"

/-- What became of an item: it has got a poster, it had one, a client failed, or no client knew
any. -/
inductive ArtworkResult | updated | present | failed | notFound
deriving DecidableEq, Repr

namespace EnrichmentState
variable (settings : EnrichmentSettings)

/-- `rows`. -/
def artworkRows (st : EnrichmentState) : List MediaIdentifier :=
  (st.db.mediaIdentifiers.rows.filter fun i => (st.db.mediaItems.get? i.mediaItemId).any fun m =>
    settings.artworkIdentifier i.provider m.kind && !st.db.hasPoster m.id).insertionSort fun a b =>
      ((compare a.mediaItemId b.mediaItemId).then <|
        (compare (artworkRank a.provider) (artworkRank b.provider)).then (compare a.id b.id)).isLE =
          true

/-- One row of the loop that collects the candidates, with `seen_providers`. -/
def collectArtwork (st : EnrichmentState) (s : List (Nat × String) × Dict Nat (List Nat))
    (i : MediaIdentifier) :
    List (Nat × String) × Dict Nat (List Nat) :=
  if s.1.contains (i.mediaItemId, i.provider) ||
      st.statusOf i.mediaItemId (artworkRecordProvider i.provider) == some .notFound then s
  else ((i.mediaItemId, i.provider) :: s.1, s.2.upsert i.mediaItemId fun ids =>
    ids.getD [] ++ [i.id])

/-- `candidates.items()`. -/
def artworkCandidates (st : EnrichmentState) : List (Nat × List Nat) :=
  ((st.artworkRows settings).foldl st.collectArtwork ([], .empty)).2.rows

/-- The identifiers of one item, until one of them ends the search; `none` when an exception ends
the run. -/
def recoverItem (call : EnrichmentTurn) (item : MediaItem) :
    List Nat → EnrichmentState → Option (EnrichmentState × ArtworkResult)
  | [], st => some (st, .notFound)
  | id :: ids, st => match st.db.mediaIdentifiers.get? id with
    | none => recoverItem call item ids st
    | some identifier =>
      let record := (st.openRecord item.id (artworkRecordProvider identifier.provider)).1
      let opened := (st.openRecord item.id (artworkRecordProvider identifier.provider)).2
      match call.artwork settings item.kind identifier with
      | .found metadata => match metadata.posterUrl, metadata.posterProvider with
        | some url, some provider =>
          if opened.db.hasPoster item.id then some
            (opened.settle record call.now .succeeded none, .present)
          else some ({ opened with db := opened.db.addPoster call.now item.id provider url }.settle
            record call.now .succeeded none, .updated)
        | _, _ =>
          recoverItem call item ids
            (opened.settle record call.now .notFound (some "External artwork was not found"))
      | .notFound text | .invalid text =>
        recoverItem call item ids
          (opened.settle record call.now .notFound (some (enrichmentMessage text)))
      | .failed text =>
        some (opened.settle record call.now .failed (some (enrichmentMessage text)), .failed)
      | .raised => none

end EnrichmentState

def ArtworkCounters.count (c : ArtworkCounters) : ArtworkResult → ArtworkCounters
  | .updated => { c with processed := c.processed + 1, updated := c.updated + 1 }
  | .present => { c with processed := c.processed + 1 }
  | .failed => { c with processed := c.processed + 1, failed := c.failed + 1 }
  | .notFound => { c with processed := c.processed + 1, notFound := c.notFound + 1 }

structure ArtworkRun where
  state : EnrichmentState
  counters : ArtworkCounters := {}
  reports : List (ArtworkCounters × Nat) := []

/-- `_report_artwork_progress`. -/
def ArtworkCounters.report (c : ArtworkCounters) (total : Nat) : ArtworkCounters × Nat :=
  (c, if total = 0 then 100 else min 100 (c.processed * 100 / total))

/-- The loop over the items; an exception leaves what was committed after the last item. -/
def ArtworkRun.loop (settings : EnrichmentSettings) (total : Nat) (turns : Nat → EnrichmentTurn) :
    ArtworkRun → List (Nat × List Nat) → ArtworkRun × Bool
  | run, [] => (run, false)
  | run, (item, identifiers) :: rest =>
    if (turns item).cancelledBefore then (run, false)
    else match run.state.db.mediaItems.get? item with
      | none => loop settings total turns run rest
      | some m => match run.state.recoverItem settings (turns item) m identifiers with
        | none => (run, true)
        | some (state, result) =>
          let counters := run.counters.count result
          let run' : ArtworkRun := { state := state, counters := counters,
                                     reports := run.reports ++ [counters.report total] }
          if (turns item).cancelledAfter then (run', true) else loop settings total turns run' rest

/-- The setting of the summary and the last commit, unless an exception has ended the loop. -/
def ArtworkRun.close (ended : ArtworkRun × Bool) : ArtworkRun × Bool :=
  if ended.2 then ended
  else
    let c := ended.1.counters
    let summary :=
      s!"processed={c.processed},updated={c.updated},failed={c.failed},not_found={c.notFound}"
    ({ ended.1 with state := { ended.1.state with lastArtworkSummary := some summary } }, false)

/-- `recover_missing_artwork`, and whether an exception has ended it. -/
def EnrichmentState.recoverMissingArtwork (settings : EnrichmentSettings) (calls : EnrichmentTurns)
    (st : EnrichmentState) :
    ArtworkRun × Bool :=
  if settings.tmdb = false ∧ settings.musicbrainz = false then
    ({ state := st, reports := [({} : ArtworkCounters).report 0] }, calls.cancelledFirst)
  else
    let candidates := st.artworkCandidates settings
    let run : ArtworkRun :=
      { state := st, reports := [({} : ArtworkCounters).report candidates.length] }
    if calls.cancelledFirst then (run, true)
    else ArtworkRun.close (ArtworkRun.loop settings candidates.length calls.turn run candidates)

end Euvieouvi
