import Euvieouvi.Persist.Service

/-!
# The history of a Trakt export

The part of `scripts/import_trakt_export.py` that writes history and watched state once the item of
an event is known. The statements are raw SQL: an update is made whether or not it changes a value.
-/

namespace Euvieouvi

structure HistoryEvent where
  eventId : String
  watchedAt : Time
deriving DecidableEq, Repr

structure TraktImport where
  py : PyLib
  /-- The text of a moment in an export event. -/
  timestamp : Time → String
  sourceId : Nat
  plexUser : String
  now : Time

namespace TraktImport
variable (trakt : TraktImport)

def sourceEventId (event : HistoryEvent) : String := "trakt:" ++ event.eventId

def dedupKey (event : HistoryEvent) (item : Nat) : String :=
  trakt.py.sha256 s!"trakt|{event.eventId}|{item}|{trakt.timestamp event.watchedAt}"

def newEvent (id : Nat) (event : HistoryEvent) (item : Nat) : WatchEvent where
  id := id
  mediaItemId := item
  sourceId := trakt.sourceId
  sourceEventId := some (sourceEventId event)
  dedupKey := trakt.dedupKey event item
  watchedAt := event.watchedAt
  completed := true
  playbackUser := some trakt.plexUser
  origin := .traktImport
  updatedAt := trakt.now

/-- One event with its item, and the items that have a new event (`touched_media`). A digest that
another row has is refused by `uq_watch_events_dedup`. -/
def importEvent (s : Database × List Nat) (event : HistoryEvent × Nat) :
    Option (Database × List Nat) :=
  if (s.1.bySourceEventId trakt.sourceId (sourceEventId event.1)).isSome then some s
  else if (s.1.byDedupKey trakt.sourceId (trakt.dedupKey event.1 event.2)).isSome then none
  else some (s.1.insertWatchEvent (trakt.newEvent s.1.watchEvents.nextId event.1 event.2),
    event.2 :: s.2)

/-- The assignments of `_refresh_watch_state`. -/
def refreshState (count : Nat) (last : Option Time) (s : WatchState) : WatchState :=
  { s with
    viewCount := max s.viewCount count
    lastWatchedAt := latest s.lastWatchedAt last
    completed := true
    observedAt := trakt.now
    updatedAt := trakt.now }

/-- `_refresh_watch_state`. -/
def refreshWatchState (db : Database) (item : Nat) : Database :=
  let events := db.watchEvents.rows.filter fun e => e.mediaItemId == item &&
    e.sourceId == trakt.sourceId
  let last := latestOf (events.map fun e => some e.watchedAt)
  match db.watchStates.get? (item, trakt.sourceId) with
  | none => db.insertWatchState
      { mediaItemId := item
        sourceId := trakt.sourceId
        viewCount := events.length
        lastWatchedAt := last
        completed := true
        observedAt := trakt.now
        updatedAt := trakt.now }
  | some _ => db.updateWatchStates (fun s => decide (s.key = (item, trakt.sourceId)))
      ⟨trakt.refreshState events.length last, fun _ => rfl⟩

/-- The events of an import with the items they were matched to; one that is refused rolls
everything back. -/
def importEvents (events : List (HistoryEvent × Nat)) (db : Database) : Database :=
  match events.foldlM trakt.importEvent (db, []) with
  | none => db
  | some (imported, touched) =>
    let refreshed := (touched.dedup.mergeSort (· ≤ ·)).foldl trakt.refreshWatchState imported
    if touched.isEmpty then refreshed
    else { refreshed with settings := { refreshed.settings with watchSyncPending := true } }

end TraktImport

end Euvieouvi
