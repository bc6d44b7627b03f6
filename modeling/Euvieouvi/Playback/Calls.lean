import Euvieouvi.Catalog.Forest
import Euvieouvi.Playback.Knowledge

/-!
# Knowledge over a run

The calls of a synchronization as events, in any order and number. What a state says at some point
of a run, the state of the surviving item says at every later point.
-/

namespace Euvieouvi

open Database

/-- The database after a call that either ends or is rolled back. -/
def Persist.commit {α : Type} (p : Persist α) (cache : List CacheKey) (db : Database) : Database :=
  match p.run ⟨db, cache⟩ with
  | (.ok _, s) => s.store
  | (.error _, _) => db

/-- An attempt leaves what the call leaves. -/
theorem Persist.attempt_commit {α : Type} (p : Persist α) (s : PersistSession) :
    ∃ ended u, (Program.attempt p).Returns s ended u ∧ u.store = p.commit s.cache s.store := by
  unfold Persist.commit Program.Returns
  rw [Program.run_attempt]
  rcases p.run s with ⟨ended | ended, u⟩
  · exact ⟨_, _, rfl, rfl⟩
  · exact ⟨_, _, rfl, rfl⟩

/-- What the program keeps is kept when it is taken back, too. -/
theorem Program.Keeps.commit {α : Type} {p : Persist α} {I : Database → Prop} (hp : Keeps I p)
    (cache : List CacheKey) {db : Database} (h : I db) : I (p.commit cache db) := by
  unfold Persist.commit
  split
  next result session hrun => exact hp ⟨db, cache⟩ result session h hrun
  · exact h

inductive PlaybackCall
  | persistMedia (service : MediaPersistenceService) (cache : List CacheKey)
    (item : ExternalMediaItem)
      (leaf : item.kind.isContainer = false) (observedAt : Time)
  | persistEvent (service : MediaPersistenceService) (cache : List CacheKey)
    (event : ExternalWatchEvent) (origin : EventOrigin)
  | progress (py : PyLib) (p : ProgressUpdate)
  | watchUpdate (executor : AsyncTaskExecutor) (inputs : ExecutionInputs) (u : WatchUpdate)
  | recordSuccesses (now : Time) (cs : List WatchSyncCandidate)
  | reconcile (py : PyLib) (now : Time) (call : ReconcileCall)
  /-- Anything else becomes what it is in `changed`. -/
  | elsewhere (changed : Database)

namespace PlaybackCall

def apply (db : Database) : PlaybackCall → Database
  | persistMedia service cache item _ observedAt =>
    (service.persistMedia item observedAt).commit cache db
  | persistEvent service cache event origin => (service.persistEvent event origin).commit cache db
  | progress py p => db.persistAndEnqueueProgress py p
  | watchUpdate executor inputs u => (executor.applyWatchUpdate inputs u db).db
  | recordSuccesses now cs => db.recordSuccesses now cs
  | reconcile py now call => call.apply py now db
  | elsewhere changed => { changed with
      mediaItems := db.mediaItems
      sourceMediaRefs := db.sourceMediaRefs
      watchEvents := db.watchEvents
      watchStates := db.watchStates }

/-- Where the item is after the call. -/
def survivor (db : Database) : PlaybackCall → Nat → Nat
  | reconcile py now call => survivorOf (call.lasting py now db)
  | _ => id

/-- Where the item is after the calls. -/
def survivors : Database → List PlaybackCall → Nat → Nat
  | _, [] => id
  | db, call :: calls => survivors (call.apply db) calls ∘ call.survivor db

variable {db db' : Database} {service : MediaPersistenceService} {cache : List CacheKey}

theorem persistMedia_commit (service : MediaPersistenceService) (cache : List CacheKey)
    (db : Database) (item : ExternalMediaItem) (hleaf : item.kind.isContainer = false)
    (observedAt : Time) :
    (service.persistMedia item observedAt).commit cache db = db ∨
      ∃ i, service.MediaPersisted item.toMediaFields db i
        ((service.persistMedia item observedAt).commit cache db) := by
  unfold Persist.commit
  split
  next result s hrun =>
    exact .inr
      ⟨_, service.persistMedia_ensures item hleaf observedAt db ⟨db, cache⟩ result s rfl hrun⟩
  next => exact .inl rfl

theorem persistEvent_commit (service : MediaPersistenceService) (cache : List CacheKey)
    (db : Database) (event : ExternalWatchEvent) (origin : EventOrigin) :
    (service.persistEvent event origin).commit cache db = db ∨
      EventWrite service event origin db ((service.persistEvent event origin).commit cache db) := by
  unfold Persist.commit
  split
  next result s hrun =>
    exact service.persistEvent_ensures event origin db ⟨db, cache⟩ result s rfl hrun
  next => exact .inl rfl

theorem progress_frame (py : PyLib) (p : ProgressUpdate) (db : Database) :
    Frame [.watchStates, .dirtyItems, .asyncTasks] db (db.persistAndEnqueueProgress py p) := by
  have henqueue : ∀ (db : Database) (u : WatchUpdate),
      Frame [.watchStates, .dirtyItems, .asyncTasks] db (db.enqueue py p.now u) :=
    fun db u => (writeAsyncTasks_frame _).mono (by decide)
  unfold persistAndEnqueueProgress
  split
  · have hput := putWatchState_frame p.now
    dsimp only
    split
    · exact (hput _ _ _ db).mono (by decide)
    · exact ((hput _ _ _ db).mono (by decide)).trans (henqueue _ _)
  · exact henqueue db _

theorem knowledge (hr : db.Rooted) (call : PlaybackCall) :
    KnowledgeKept (call.survivor db) db (call.apply db) := by
  cases call with
  | persistMedia service cache item hleaf observedAt =>
    rcases persistMedia_commit service cache db item hleaf observedAt with heq | ⟨i, h⟩
    · exact .of_states (congrArg _ heq)
    · exact h.knowledge
  | persistEvent service cache event origin =>
    rcases persistEvent_commit service cache db event origin with heq | h
    · exact .of_states (congrArg _ heq)
    · exact h.knowledge
  | progress py p => exact persistAndEnqueueProgress_knowledge py p db
  | watchUpdate executor inputs u => exact executor.applyWatchUpdate_knowledge inputs u db
  | recordSuccesses now cs => exact recordSuccesses_knowledge now cs db
  | reconcile py now call =>
    have hsteps := call.steps (L := False) (G := False) py now hr (fun h => h.elim) fun h => h.elim
    exact hsteps.knowledge
  | elsewhere => exact .of_states rfl

theorem rooted_mediaPersisted {item : MediaFields} {i : Nat}
    (h : service.MediaPersisted item db i db') (hr : db.Rooted) :
    db'.Rooted := by
  obtain ⟨mid, hcatalog, hplayback⟩ := h.writes
  exact (CatalogWrites.rooted hcatalog hr).of_frame (PlaybackWrites.frame hplayback) (by decide)

theorem rooted_updateWrites {now : Time} {u : WatchUpdate}
    (h : AsyncTaskExecutor.UpdateWrites now u db db') (hr : db.Rooted) :
    db'.Rooted := by
  induction h with
  | refl => exact hr
  | tail _ hw ih =>
    cases hw with
    | invalidate => exact ih.of_frame (updateSourceMediaRefs_frame _ _) (by decide)
    | put => exact ih.of_frame (putWatchState_frame _ _ _ _ _) (by decide)

theorem rooted_apply (hr : db.Rooted) (call : PlaybackCall) : (call.apply db).Rooted := by
  cases call with
  | persistMedia service cache item hleaf observedAt =>
    rcases persistMedia_commit service cache db item hleaf observedAt with heq | ⟨i, h⟩
    · show ((service.persistMedia item observedAt).commit cache db).Rooted
      rw [heq]; exact hr
    · exact rooted_mediaPersisted h hr
  | persistEvent service cache event origin =>
    rcases persistEvent_commit service cache db event origin with heq | h
    · show ((service.persistEvent event origin).commit cache db).Rooted
      rw [heq]; exact hr
    · exact hr.of_frame h.frame (by decide)
  | progress py p => exact hr.of_frame (progress_frame py p db) (by decide)
  | watchUpdate executor inputs u =>
    obtain ⟨recovered, hrecovered, hwrites⟩ := executor.applyWatchUpdate_writes inputs u db
    refine rooted_updateWrites hwrites ?_
    rcases hrecovered.persisted with rfl | ⟨service, found, probe, library, i, -, -, hpersisted⟩
    · exact hr
    · exact rooted_mediaPersisted hpersisted hr
  | recordSuccesses now cs => exact hr.of_frame (recordSuccesses_frame now cs db) (by decide)
  | reconcile py now call =>
    have hsteps := call.steps (L := False) (G := False) py now hr (fun h => h.elim) fun h => h.elim
    exact hsteps.rooted hr
  | elsewhere => exact hr

theorem rooted_run (calls : List PlaybackCall) (hr : db.Rooted) :
    (calls.foldl apply db).Rooted := by
  induction calls generalizing db with
  | nil => exact hr
  | cons call calls ih => exact ih (rooted_apply hr call)

theorem knowledge_run (calls : List PlaybackCall) (hr : db.Rooted) :
    KnowledgeKept (survivors db calls) db (calls.foldl apply db) := by
  induction calls generalizing db with
  | nil => exact .refl db
  | cons call calls ih => exact (knowledge hr call).trans (ih (rooted_apply hr call))

theorem rooted_empty : Database.empty.Rooted := by
  intro i m hm
  cases hm

end PlaybackCall

/-- Knowledge about playback is monotone: after any calls, whatever calls follow, every state is
still there, with the survivor of its item, and it is completed if it was, with at least as many
views and no earlier last playback. -/
theorem playback_knowledge_monotone (before after : List PlaybackCall) :
    KnowledgeKept (PlaybackCall.survivors (before.foldl PlaybackCall.apply .empty) after)
      (before.foldl PlaybackCall.apply .empty)
      ((before ++ after).foldl PlaybackCall.apply .empty) := by
  rw [List.foldl_append]
  exact PlaybackCall.knowledge_run after (PlaybackCall.rooted_run before PlaybackCall.rooted_empty)

end Euvieouvi
