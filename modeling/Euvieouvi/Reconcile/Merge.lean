import Euvieouvi.Projection.Grouping

/-!
# Merging two catalog items

`_safe_sources`, `_canonical`, `_merge_hierarchy`, `_merge_season` and `_merge_item`
(`sync/catalog_reconcile.py`). A merge moves what belongs to the loser to the winner, table by
table, deleting first what the winner has already, and ends by deleting the loser. The seasons and
episodes of a lost show are merged or moved before the show itself.

A merge that runs is recorded in a log, together with the database it found. The log is no part of
the program.
-/

namespace Euvieouvi

namespace Database

/-- `manual_ids` holds more than one id. -/
def manualConflict (db : Database) (items : List Nat) : Bool :=
  1 < (items.filterMap db.identityRows.manualMatchOf).eraseDups.length

/-- No two of the items with files have disjoint files. -/
def pathsAgree (db : Database) (items : List Nat) : Bool :=
  decide (((items.map db.identityRows.pathsOf).filter (· ≠ [])).Pairwise fun left right =>
    ∃ key ∈ left, key ∈ right)

/-- The seasons of `show`, and the available references of their episodes on `source`. -/
def episodeReferences (db : Database) («show» source : Nat) : List SourceMediaRef :=
  db.sourceMediaRefs.rows.filter fun r =>
    r.available && r.sourceId == source && db.mediaItems.rows.any fun episode =>
      episode.id == r.mediaItemId && episode.kind == .episode &&
        db.mediaItems.rows.any fun season => some season.id == episode.parentId &&
          season.parentId == some «show»

def referencePaths (db : Database) (reference : Nat) : List String :=
  (db.mediaFilePaths.rows.filter (·.referenceId == reference)).map (·.pathKey)

/-- Every file of the show on the source is known, and there is one: then the keys of the files. -/
def mappedPaths (db : Database) («show» source : Nat) : Option (List String) :=
  let references := db.episodeReferences «show» source
  if references ≠ [] ∧ references.all fun r => db.referencePaths r.id ≠ [] then
    some (references.flatMap fun r => db.referencePaths r.id)
  else none

/-- `_split_show_has_file_anchor`. -/
def splitShowHasFileAnchor (db : Database) (items : List Nat) (source : Nat) : Bool :=
  match items with
  | [first, second] =>
    match db.mappedPaths first source, db.mappedPaths second source with
    | some firstPaths, some secondPaths =>
      let others := (db.sourceMediaRefs.rows.map (·.sourceId)).filter (· != source)
      others.any fun other =>
        let owners := [first, second].filter fun i => db.episodeReferences i other ≠ []
        match owners with
        | [anchor] =>
          (db.mappedPaths anchor other).any fun paths =>
            (firstPaths ++ secondPaths).all paths.contains
        | _ => false
    | _, _ => false
  | _ => false

/-- The items whose files `_safe_sources` compares: those of a group led by a movie or a track. -/
def comparesFiles (db : Database) (items : List Nat) : Bool :=
  let firstKind := items.head?.bind db.identityRows.kindOf
  firstKind = some .movie ∨ firstKind = some .track

/-- `_safe_sources`. -/
def safeSources (db : Database) (items : List Nat) (physical : Bool := false) : Bool :=
  let firstKind := items.head?.bind db.identityRows.kindOf
  let owned := (items.flatMap db.identityRows.sourceIdsOf).eraseDups
  if db.manualConflict items then false
  else if db.comparesFiles items ∧ !db.pathsAgree items then false
  else if owned = [] then false
  else owned.all fun source =>
    items.countP (fun i => (db.identityRows.availableSourcesOf i).contains source) ≤ 1 ||
      (physical && firstKind = some .show && db.splitShowHasFileAnchor items source)

/-- The triple `_canonical` takes the minimum by. -/
def preferred (db : Database) (a b : Nat) : Bool :=
  let manual (i : Nat) : Bool := (db.identityRows.manualMatchOf i).isSome
  let plex (i : Nat) (active : Bool) : Bool := db.sourceMediaRefs.rows.any fun r =>
    r.mediaItemId == i && (r.available || !active) &&
      (db.sources.get? r.sourceId).any (·.connectorType == .plex)
  if manual a != manual b then manual a
  else if plex a true != plex b true then plex a true
  else if plex a false != plex b false then plex a false
  else a ≤ b

/-- `_canonical`. -/
def canonical (db : Database) : List Nat → Nat
  | [] => 0
  | first :: rest => rest.foldl (fun best i => if db.preferred best i then best else i) first

end Database

/-! ### One merge -/

/-- `_fill_missing`. -/
def MediaItem.fillMissing (winner loser : MediaItem) : MediaItem :=
  { winner with
    originalTitle := winner.originalTitle.or loser.originalTitle
    sortTitle := winner.sortTitle.or loser.sortTitle
    year := winner.year.or loser.year
    durationMs := winner.durationMs.or loser.durationMs
    originallyAvailableOn := winner.originallyAvailableOn.or loser.originallyAvailableOn
    summary := winner.summary.or loser.summary
    tagline := winner.tagline.or loser.tagline
    studio := winner.studio.or loser.studio
    contentRating := winner.contentRating.or loser.contentRating
    audienceRating := winner.audienceRating.or loser.audienceRating
    sourceAddedAt := winner.sourceAddedAt.or loser.sourceAddedAt }

/-- The `SET` clause of the first statement of `_merge_watch_states`. -/
def WatchState.absorb (winner loser : WatchState) : WatchState :=
  { winner with
    viewCount := max winner.viewCount loser.viewCount
    completed := winner.completed || loser.completed
    lastWatchedAt := latest winner.lastWatchedAt loser.lastWatchedAt
    lastPlayedAt := latest winner.lastPlayedAt loser.lastPlayedAt
    observedAt := max winner.observedAt loser.observedAt }

/-- `DELETE` of the rows of the loser the winner has already, and `UPDATE` of the others. -/
def Table.moveRows {ρ : Type} {key : ρ → Nat} (t : Table key) (item : ρ → Nat)
    (conflict : ρ → ρ → Bool) (move : Assignment key) (winner loser : Nat) : Table key :=
  (t.delete fun r => item r == loser && t.rows.any fun w => item w == winner && conflict w r).update
    (fun r => item r == loser) move

structure MergeStep where
  /-- The database in which `_merge_item` was called. -/
  before : Database
  winner : Nat
  loser : Nat

namespace Database

/-- `_merge_watch_states`. -/
def mergeWatchStates (winner loser : Nat) (db : Database) : Database :=
  let lost (s : WatchState) : Option WatchState := db.watchStates.get? (loser, s.sourceId)
  let absorbed := db.updateWatchStates (fun s => s.mediaItemId == winner && (lost s).isSome)
    ⟨fun s => ((lost s).map s.absorb).getD s, fun s => by cases lost s <;> rfl⟩
  let kept := absorbed.deleteWatchStates fun s =>
    s.mediaItemId == loser && absorbed.watchStates.contains (winner, s.sourceId)
  kept.repointWatchStates winner loser

/-- The first two statements of `_merge_item`: identifiers that contradict the winner's, or any
below a manual match. -/
def dropContradictedIdentifiers (winner loser : Nat) (db : Database) : Database :=
  let dropped := db.deleteMediaIdentifiers fun r =>
    r.mediaItemId == loser && stableProviders.contains r.provider &&
        db.mediaIdentifiers.rows.any fun w =>
      w.mediaItemId == winner && w.provider == r.provider && w.externalId != r.externalId
  if (db.identityRows.manualMatchOf winner).isSome then
    dropped.deleteMediaIdentifiers fun r => r.mediaItemId == loser
  else dropped

def moveMediaIdentifiers (winner loser : Nat) (db : Database) : Database :=
  (db.deleteMediaIdentifiers fun r => r.mediaItemId == loser &&
      db.mediaIdentifiers.rows.any fun w =>
      w.mediaItemId == winner && w.provider == r.provider &&
        w.externalId == r.externalId).updateMediaIdentifiers
    (fun r => r.mediaItemId == loser) ⟨fun r => { r with mediaItemId := winner }, fun _ => rfl⟩

/-- The loop of `_merge_item` over the tables of metadata. -/
def moveMetadata (winner loser : Nat) (db : Database) : Database :=
  let moved := db.moveMediaIdentifiers winner loser
  { moved with
    mediaGenres := moved.mediaGenres.moveRows (·.mediaItemId) (fun w r => w.genreId == r.genreId)
      ⟨fun r => { r with mediaItemId := winner }, fun _ => rfl⟩ winner loser
    mediaImages :=
      moved.mediaImages.moveRows (·.mediaItemId) (fun w r => w.imageType == r.imageType)
      ⟨fun r => { r with mediaItemId := winner }, fun _ => rfl⟩ winner loser
    enrichmentRecords :=
      moved.enrichmentRecords.moveRows (·.mediaItemId) (fun w r => w.provider == r.provider)
      ⟨fun r => { r with mediaItemId := winner }, fun _ => rfl⟩ winner loser }

def moveWatchEvents (winner loser : Nat) (db : Database) : Database :=
  db.updateWatchEvents (fun e => e.mediaItemId == loser)
    ⟨fun e => { e with mediaItemId := winner }, fun _ => rfl⟩

def moveReferences (winner loser : Nat) (db : Database) : Database :=
  db.updateSourceMediaRefs (fun r => r.mediaItemId == loser)
    ⟨fun r => { r with mediaItemId := winner }, fun _ => rfl⟩

def moveChildren (winner loser : Nat) (db : Database) : Database :=
  db.updateMediaItems (fun m => m.parentId == some loser)
    ⟨fun m => { m with parentId := some winner }, fun _ => rfl⟩

/-- The columns `_fill_missing` assigns, written by the flush at the end of `_merge_item`. -/
def fillMissing (now : Time) (winner loser : Nat) (db : Database) : Database :=
  match db.mediaItems.get? loser with
  | some lost => db.saveMediaItem now winner ⟨fun m => m.fillMissing lost, fun _ => rfl⟩
  | none => db

/-- `_merge_item`. -/
def mergeItem (now : Time) (winner loser : Nat) (db : Database) : Database :=
  (((((((db.fillMissing now winner loser).dropContradictedIdentifiers winner loser).moveMetadata
    winner loser)
    |>.mergeWatchStates winner loser).moveWatchEvents winner loser).moveReferences winner loser)
    |>.moveChildren winner loser).deleteMediaItem loser

/-- `SELECT DISTINCT w.id`: the items below `parent` that share an identifier with `loser`. -/
def sharedIdentifierCandidates (db : Database) (parent loser : Nat) : List Nat :=
  (db.mediaItems.rows.filter fun w => w.parentId == some parent &&
    db.mediaIdentifiers.rows.any fun wi => wi.mediaItemId == w.id &&
      db.mediaIdentifiers.rows.any fun li =>
        li.mediaItemId == loser && li.provider == wi.provider &&
          li.externalId == wi.externalId).map (·.id)

/-- `SELECT DISTINCT wr.media_item_id`: the items below `parent` with the coordinates of the episode
and one of its files on another source. An episode without coordinates has none. -/
def sharedFileCandidates (db : Database) (parent : Nat) (episode : MediaItem) : List Nat :=
  (db.mediaItems.rows.filter fun w => w.parentId == some parent &&
    w.seasonNumber.isSome && w.seasonNumber == episode.seasonNumber &&
    w.episodeNumber.isSome && w.episodeNumber == episode.episodeNumber &&
    db.sourceMediaRefs.rows.any fun wr => wr.mediaItemId == w.id && wr.available &&
      db.sourceMediaRefs.rows.any fun lr => lr.mediaItemId == episode.id && lr.available &&
        lr.sourceId != wr.sourceId &&
          (db.referencePaths wr.id).any (db.referencePaths lr.id).contains).map (·.id)

/-- The single episode below `parent` with this number, unless both have a stable identifier. -/
def coordinateCandidates (db : Database) (parent : Nat) (episode : MediaItem) : List Nat :=
  match episode.episodeNumber with
  | none => []
  | some number =>
    let found := db.mediaItems.rows.filter fun w =>
      w.parentId == some parent && w.kind == .episode && w.episodeNumber == some number
    let identified (i : Nat) : Bool := db.mediaIdentifiers.rows.any fun r =>
      r.mediaItemId == i && stableProviders.contains r.provider
    match found with
    | [candidate] => if identified candidate.id && identified episode.id then [] else [candidate.id]
    | _ => []

/-- The state of the loop of `_merge_season`. -/
structure SeasonLoop where
  db : Database
  /-- Episodes with a new parent that no flush has written yet. -/
  pending : List Nat := []
  log : List MergeStep := []

/-- The flush of a new parent. -/
def saveParent (now : Time) (parent i : Nat) (db : Database) : Database :=
  db.saveMediaItem now i ⟨fun m => { m with parentId := some parent }, fun _ => rfl⟩

/-- The flush of the pending parents. -/
def writeParents (now : Time) (parent : Nat) (pending : List Nat) (db : Database) : Database :=
  pending.foldl (fun db i => db.saveParent now parent i) db

/-- One episode of the lost season. The two textual queries do not see pending parents; loading what
they find, and the third query, flush them. -/
def mergeEpisode (now : Time) (winner : Nat) (s : SeasonLoop) (episode : MediaItem) : SeasonLoop :=
  let byIdentifier := s.db.sharedIdentifierCandidates winner episode.id
  let byFile := if byIdentifier = [] then s.db.sharedFileCandidates winner episode else byIdentifier
  let s := if byFile = [] ∧ episode.episodeNumber = none then s
    else { s with db := s.db.writeParents now winner s.pending, pending := [] }
  let candidates := if byFile = [] then s.db.coordinateCandidates winner episode else byFile
  match candidates with
  | [candidate] =>
    if s.db.safeSources [candidate, episode.id] then
      { s with
        db := s.db.mergeItem now candidate episode.id
        log := s.log ++ [⟨s.db, candidate, episode.id⟩] }
    else { s with pending := s.pending ++ [episode.id] }
  | _ => { s with pending := s.pending ++ [episode.id] }

/-- `_merge_season`. -/
def mergeSeason (now : Time) (winner loser : Nat) (db : Database) : Database × List MergeStep :=
  let episodes := db.mediaItems.rows.filter fun m => m.parentId == some loser && m.kind == .episode
  let s := episodes.foldl (mergeEpisode now winner) { db := db }
  (s.db.writeParents now winner s.pending, s.log)

/-- One season of the lost show. -/
def mergeShowSeason (now : Time) (winner : Nat) (acc : Database × List MergeStep)
    (season : MediaItem) :
    Database × List MergeStep :=
  let candidates := acc.1.mediaItems.rows.filter fun m =>
    m.parentId == some winner && m.kind == .season && m.seasonNumber == season.seasonNumber
  match candidates with
  | [candidate] =>
    let (db, log) := acc.1.mergeSeason now candidate.id season.id
    (db.mergeItem now candidate.id season.id, acc.2 ++ log ++ [⟨db, candidate.id, season.id⟩])
  | [] => (acc.1.saveParent now winner season.id, acc.2)
  | _ => acc

/-- `_merge_hierarchy`; the number it returns is the length of the log. -/
def mergeHierarchy (now : Time) (winner loser : Nat) (db : Database) : Database × List MergeStep :=
  if db.identityRows.kindOf winner ≠ some .show then (db, [])
  else
    let seasons := db.mediaItems.rows.filter fun m => m.parentId == some loser && m.kind == .season
    seasons.foldl (mergeShowSeason now winner) (db, [])

/-- `_merge_hierarchy` followed by `_merge_item`. -/
def mergePair (now : Time) (winner loser : Nat) (db : Database) : Database × List MergeStep :=
  let (db, log) := db.mergeHierarchy now winner loser
  (db.mergeItem now winner loser, log ++ [⟨db, winner, loser⟩])

/-- One duplicate of a group. -/
def mergeDuplicate (now : Time) (canonical : Nat) (acc : Database × List MergeStep)
    (duplicate : Nat) :
    Database × List MergeStep :=
  let (db, log) := acc.1.mergePair now canonical duplicate
  (db, acc.2 ++ log)

/-- The loop over the duplicates of a group. -/
def mergeDuplicates (now : Time) (canonical : Nat) (items : List Nat) (db : Database) :
    Database × List MergeStep :=
  (items.filter (· ≠ canonical)).foldl (mergeDuplicate now canonical) (db, [])

end Database

end Euvieouvi
