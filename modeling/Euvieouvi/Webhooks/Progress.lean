import Euvieouvi.Queue.AsyncTasks
import Euvieouvi.WatchSync.Apply

/-!
# The progress of a webhook

`_persist_and_enqueue_progress` (`web/routes.py`): the position that a server reports is written to
the watch state of the item, if it is known and not completed, and an update for the other servers
is queued.
-/

namespace Euvieouvi

structure ProgressUpdate where
  sourceId : Nat
  externalId : String
  progressMs : Nat
  observedAt : Time
  libraryExternalId : Option String := none
  now : Time
deriving DecidableEq, Repr

namespace ProgressUpdate
variable (p : ProgressUpdate)

/-- The row of an item without a state, before the assignments. -/
def newState (item : Nat) : WatchState where
  mediaItemId := item
  sourceId := p.sourceId
  viewCount := 0
  completed := false
  observedAt := p.observedAt
  updatedAt := p.now

/-- A completed state only learns when it was played. -/
def assign (s : WatchState) : WatchState :=
  let played := { s with lastPlayedAt := latest s.lastPlayedAt (some p.observedAt) }
  if s.completed then played
  else { played with
    completed := false, progressMs := some p.progressMs, observedAt := p.observedAt }

theorem key_assign (s : WatchState) : (p.assign s).key = s.key := by
  unfold assign
  dsimp only
  split <;> rfl

/-- What is queued, with the library as far as it is known. -/
def watchUpdate (libraryExternalId : Option String) : WatchUpdate where
  sourceId := p.sourceId
  externalId := p.externalId
  watchedAt := p.observedAt
  progressMs := some p.progressMs
  completed := false
  libraryExternalId := libraryExternalId

end ProgressUpdate

namespace Database

def enqueue (py : PyLib) (now : Time) (u : WatchUpdate) (db : Database) : Database :=
  { db with asyncTasks := Tasks.enqueueWatchUpdate py now u db.asyncTasks }

/-- `_persist_and_enqueue_progress`. -/
def persistAndEnqueueProgress (py : PyLib) (p : ProgressUpdate) (db : Database) : Database :=
  match db.availableReference p.sourceId p.externalId with
  | some reference =>
    let library := (p.libraryExternalId.filter (· ≠ "")).or
      ((db.libraries.get? reference.libraryId).map (·.externalId))
    let key := (reference.mediaItemId, p.sourceId)
    let saved :=
      db.putWatchState p.now key (p.newState reference.mediaItemId) ⟨p.assign, p.key_assign⟩
    if (db.watchStates.get? key).any (·.completed) then saved else saved.enqueue py p.now
      (p.watchUpdate library)
  | none => db.enqueue py p.now (p.watchUpdate p.libraryExternalId)

end Database

end Euvieouvi
