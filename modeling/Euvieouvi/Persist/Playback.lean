import Euvieouvi.Persist.Hierarchy
import Euvieouvi.Queue.AsyncTasks

/-!
# Playback

The part of `sync/persistence.py` that writes history and watched state: `persist_event`,
`_sync_watch_state`, `_reconcile_webhook_events` and the derived state of containers. An event is
known by its id at the source, by its digest, or by a completed event of the same item at most two
minutes away; only an unknown one is inserted, and it makes the state of its item completed.
-/

namespace Euvieouvi

namespace MediaPersistenceService
variable (service : MediaPersistenceService)

def eventPayload (event : ExternalWatchEvent) : EventPayload where
  sourceId := service.sourceId
  sourceEventId := event.sourceEventId
  mediaExternalId := event.mediaExternalId
  watchedAt := service.py.isoformat event.watchedAt
  completed := event.completed
  progressMs := event.progressMs
  durationMs := event.durationMs
  viewNumber := event.viewNumber

/-- `event_dedup_key`. -/
def eventDedupKey (event : ExternalWatchEvent) : String :=
  service.py.sha256 (service.dumpsEvent (service.eventPayload event))

/-- `str(event.source_event_id).endswith(":played-undated")`. -/
def isUndated (event : ExternalWatchEvent) : Bool :=
  event.sourceEventId.any fun text => ":played-undated".toList.isSuffixOf text.toList

/-- The assignments of `persist_event` to an event it finds by its id at the source. -/
def refreshEvent (event : ExternalWatchEvent) (origin : EventOrigin) (existing : WatchEvent) :
    WatchEvent :=
  { existing with
    dedupKey := service.eventDedupKey event
    watchedAt := if isUndated event then existing.watchedAt else event.watchedAt
    completed := event.completed
    progressMs := event.progressMs
    durationMs := event.durationMs
    viewNumber := event.viewNumber
    playbackUser := event.playbackUser
    origin := origin }

/-- The flush of these assignments. -/
def refreshStored (event : ExternalWatchEvent) (origin : EventOrigin) (i : Nat)
    (db : Database) : Database :=
  db.saveWatchEvent service.now i (!isUndated event)
    ⟨service.refreshEvent event origin, fun _ => rfl⟩

/-- The event `persist_event` adds. -/
def newEvent (id item : Nat) (event : ExternalWatchEvent) (origin : EventOrigin) : WatchEvent where
  id := id
  mediaItemId := item
  sourceId := service.sourceId
  sourceEventId := event.sourceEventId
  dedupKey := service.eventDedupKey event
  watchedAt := event.watchedAt
  completed := event.completed
  progressMs := event.progressMs
  durationMs := event.durationMs
  viewNumber := event.viewNumber
  playbackUser := event.playbackUser
  origin := origin
  updatedAt := service.now

/-- A completed event of the item, of any source, at most two minutes away. -/
def hasNearby (db : Database) (item : Nat) (watchedAt : Time) : Bool :=
  db.watchEvents.rows.any fun e => e.mediaItemId == item && e.completed &&
    decide (watchedAt - Time.minutes 2 ≤ e.watchedAt) &&
      decide (e.watchedAt ≤ watchedAt + Time.minutes 2)

/-- `event_count` of `_apply_event_to_watch_state`. -/
def eventCount (db : Database) (item : Nat) (event : ExternalWatchEvent) : Nat :=
  max (event.viewNumber.getD 0) (db.watchEvents.rows.countP fun e =>
    e.mediaItemId == item && e.sourceId == service.sourceId && e.completed)

/-- The state `_apply_event_to_watch_state` leaves. -/
def completeState (count : Nat) (event : ExternalWatchEvent) (state : WatchState) : WatchState :=
  { state with
    viewCount := max state.viewCount count
    completed := true
    lastWatchedAt := latest state.lastWatchedAt (some event.watchedAt)
    lastPlayedAt := latest state.lastPlayedAt (some event.watchedAt)
    progressMs := event.progressMs
    observedAt := event.watchedAt }

/-- The new row of `_apply_event_to_watch_state`, before its last assignments. -/
def newState (item count : Nat) (completed : Bool) (observedAt : Time) : WatchState where
  mediaItemId := item
  sourceId := service.sourceId
  viewCount := count
  completed := completed
  observedAt := observedAt
  updatedAt := service.now

/-- The flush of a state that was read or added: `f` are the assignments to it. -/
def saveState (item : Nat) (new : WatchState) (f : Assignment WatchState.key)
    (db : Database) : Database :=
  match db.byItemAndSource item service.sourceId with
  | some _ => db.saveWatchState service.now (item, service.sourceId) f
  | none => db.insertWatchState (f new)

/-- `_apply_event_to_watch_state`. -/
def applyEventToWatchState (item : Nat) (event : ExternalWatchEvent) (db : Database) : Database :=
  let count := service.eventCount db item event
  service.saveState item (service.newState item count true event.watchedAt)
    ⟨completeState count event, fun _ => rfl⟩ db

/-- The payload `persist_event` gives to `enqueue_watch_update`. -/
def watchUpdate (event : ExternalWatchEvent) : WatchUpdate where
  sourceId := service.sourceId
  externalId := event.mediaExternalId
  watchedAt := event.watchedAt
  progressMs := none
  completed := true
  libraryExternalId := some event.libraryExternalId

/-- The writes of an event nobody knew: the event, the state of its item, and for a webhook the
task. -/
def recordEvent (item : Nat) (event : ExternalWatchEvent) (origin : EventOrigin)
    (db : Database) : Database :=
  let inserted := db.insertWatchEvent (service.newEvent db.watchEvents.nextId item event origin)
  let applied := service.applyEventToWatchState item event inserted
  if origin = .webhook then
    { applied with
      asyncTasks := Tasks.enqueueWatchUpdate service.py service.now (service.watchUpdate event)
        applied.asyncTasks }
  else applied

/-- The event the source knows by this id. -/
def knownEvent (db : Database) (event : ExternalWatchEvent) : Option WatchEvent :=
  event.sourceEventId.bind (db.bySourceEventId service.sourceId)

/-- `persist_event`. A digest that another row has is refused by `uq_watch_events_dedup`. -/
def persistEvent (event : ExternalWatchEvent) (origin : EventOrigin) : Persist Bool := do
  if !event.completed then return false
  else match ← Program.read (·.byExternalIdentity service.sourceId event.mediaExternalId) with
    | none => .fail .unknownMedia
    | some reference =>
      match ← Program.read (service.knownEvent · event) with
      | some existing =>
        if existing.mediaItemId ≠ reference.mediaItemId then .fail .changedMedia
        else if ← Program.read fun db =>
            (db.byDedupKey service.sourceId (service.eventDedupKey event)).any
              (·.id != existing.id) then
          .fail (.integrity "watch_events.source_id, watch_events.dedup_key")
        else
          Program.write (service.refreshStored event origin existing.id)
          return false
      | none =>
        if ← Program.read fun db =>
          (db.byDedupKey service.sourceId (service.eventDedupKey event)).isSome ||
            hasNearby db reference.mediaItemId event.watchedAt then
          return false
        else
          Program.write (service.recordEvent reference.mediaItemId event origin)
          return true

/-- The event of one pending webhook. -/
def webhookEvent (item : MediaFields) (w : WebhookEvent) : ExternalWatchEvent where
  mediaExternalId := item.externalId
  libraryExternalId := item.libraryExternalId
  watchedAt := w.occurredAt
  completed := true
  sourceEventId := some s!"webhook:{w.id}"
  durationMs := item.durationMs

/-- `_reconcile_webhook_events`. -/
def reconcileWebhookEvents (item : MediaFields) : Persist Unit := do
  let pending ← Program.read fun db => db.webhookEvents.rows.filter fun w =>
    w.sourceId == service.sourceId && w.externalId == item.externalId && w.completed
  pending.forM fun w => do
    let _ ← service.persistEvent (webhookEvent item w) .webhook
    return ()

/-- The state `_sync_watch_state` leaves. -/
def observeState (item : MediaFields) (observedAt : Time) (state : WatchState) : WatchState :=
  { state with
    viewCount := max state.viewCount (item.viewCount.getD 0)
    lastWatchedAt := latest item.lastViewedAt state.lastWatchedAt
    lastPlayedAt := latest item.lastViewedAt state.lastPlayedAt
    completed := state.completed || item.completed.getD false || decide (0 < item.viewCount.getD 0)
    progressMs := item.viewOffsetMs
    observedAt := observedAt }

/-- The server says something about the playback of the item. -/
def hasPlayback (item : MediaFields) : Bool :=
  item.viewCount.isSome || item.lastViewedAt.isSome || item.viewOffsetMs.isSome

/-- The writes of `_sync_watch_state`. -/
def syncWatchState (media : Nat) (item : MediaFields) (observedAt : Time)
    (db : Database) : Database :=
  if hasPlayback item then
    let completed := item.completed.getD false || decide (0 < item.viewCount.getD 0)
    service.saveState media (service.newState media (item.viewCount.getD 0) completed observedAt)
      ⟨observeState item observedAt, fun _ => rfl⟩ db
  else db

/-- The result of `_sync_watch_state`. -/
def viewCountRegression (db : Database) (media : Nat) (item : MediaFields) : Bool :=
  hasPlayback item &&
    (db.byItemAndSource media service.sourceId).any fun state =>
      decide (item.viewCount.getD 0 < state.viewCount)

/-- The event of the play the server remembers. -/
def stateEvent (item : MediaFields) : Option ExternalWatchEvent :=
  match item.viewCount.filter (0 < ·), item.lastViewedAt with
  | some count, some lastViewedAt => some
    { mediaExternalId := item.externalId
      libraryExternalId := item.libraryExternalId
      watchedAt := lastViewedAt
      completed := true
      sourceEventId := some s!"state:{item.externalId}:{service.py.isoformat lastViewedAt}"
      durationMs := item.durationMs
      viewNumber := some count }
  | _, _ => none

/-- The end of `persist_media`. -/
def persistStateEvent (item : MediaFields) : Persist Bool :=
  match service.stateEvent item with
  | some event => service.persistEvent event .synchronization
  | none => pure false

structure PlayedChild where
  id : Nat
  parentId : Option Nat
  count : Nat
  lastWatchedAt : Option Time

/-- `_aggregate_completion`. -/
def aggregateCompletion (children : List PlayedChild) : Nat × Option Time :=
  let last := children.foldl (fun known child => latest known child.lastWatchedAt) none
  match children.map (·.count) with
  | [] => (0, last)
  | count :: counts =>
    if (count :: counts).any (· = 0) then (0, last) else (counts.foldl min count, last)

/-- The available episodes and tracks of the library, each with what is known about it. -/
def playedChildren (db : Database) : List PlayedChild :=
  let playable := db.mediaItems.rows.filter fun m => (m.kind == .episode || m.kind == .track) &&
    db.sourceMediaRefs.rows.any fun r => r.mediaItemId == m.id && r.sourceId == service.sourceId &&
      r.libraryId == service.libraryId && r.available
  playable.map fun m =>
    match db.byItemAndSource m.id service.sourceId with
    | some state => ⟨m.id, m.parentId, if state.completed then state.viewCount else 0,
        if state.completed then state.lastWatchedAt else none⟩
    | none =>
      let events := db.watchEvents.rows.filter fun e =>
        e.mediaItemId == m.id && e.sourceId == service.sourceId && e.completed
      ⟨m.id, m.parentId, events.length,
        events.foldl (fun known e => latest known (some e.watchedAt)) none⟩

/-- The state `_set_derived_watch_state` leaves. -/
def deriveState (count : Nat) (lastWatchedAt : Option Time) (observedAt : Time)
    (state : WatchState) : WatchState :=
  { state with
    viewCount := count
    completed := decide (0 < count)
    lastWatchedAt := lastWatchedAt
    lastPlayedAt := latest state.lastPlayedAt lastWatchedAt
    progressMs := none
    observedAt := observedAt }

/-- `_set_derived_watch_state` of a container with these children. -/
def setDerivedWatchState (observedAt : Time) (db : Database)
    (group : Nat × List PlayedChild) : Database :=
  let (count, lastWatchedAt) := aggregateCompletion group.2
  service.saveState group.1 (service.newState group.1 count (decide (0 < count)) observedAt)
    ⟨deriveState count lastWatchedAt observedAt, fun _ => rfl⟩ db

/-- `rebuild_container_watch_states`: first the parents, then the parents of these. -/
def rebuildContainerWatchStates (observedAt : Time) (db : Database) : Database :=
  let below : List (Nat × PlayedChild) := (service.playedChildren db).filterMap fun child =>
    child.parentId.map (·, child)
  let grouped := (groupBy Prod.fst below).map fun group => (group.1, group.2.map Prod.snd)
  let above : List (Nat × PlayedChild) := grouped.flatMap fun group =>
    match (db.mediaItems.get? group.1).bind (·.parentId) with
    | some top => group.2.map (top, ·)
    | none => []
  let topGrouped := (groupBy Prod.fst above).map fun group => (group.1, group.2.map Prod.snd)
  (grouped ++ topGrouped).foldl (service.setDerivedWatchState observedAt) db

end MediaPersistenceService

end Euvieouvi
