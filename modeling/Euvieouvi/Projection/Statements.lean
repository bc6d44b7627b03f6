import Euvieouvi.Identity.Paths
import Euvieouvi.Projection.Catalog

/-!
# Statements that concern the projection

The writes to the tables the projection reads, as data: identity statements fire the trigger that
asks for a rebuild, activity statements mark items as dirty, and the writes to `media_file_paths`
fire nothing.
-/

namespace Euvieouvi

inductive IdentityStatement
  | insertMediaItem (m : MediaItem)
  | updateMediaItems (p : MediaItem → Bool) (f : Assignment MediaItem.id)
  | deleteMediaItem (i : Nat)
  | insertSourceMediaRef (r : SourceMediaRef)
  | updateSourceMediaRefs (p : SourceMediaRef → Bool) (f : Assignment SourceMediaRef.id)
  | deleteSourceMediaRefs (p : SourceMediaRef → Bool)
  | insertMediaIdentifier (i : MediaIdentifier)
  | updateMediaIdentifiers (p : MediaIdentifier → Bool) (f : Assignment MediaIdentifier.id)
  | deleteMediaIdentifiers (p : MediaIdentifier → Bool)

namespace IdentityStatement

def apply : IdentityStatement → Database → Database
  | insertMediaItem m => Database.insertMediaItem m
  | updateMediaItems p f => Database.updateMediaItems p f
  | deleteMediaItem i => Database.deleteMediaItem i
  | insertSourceMediaRef r => Database.insertSourceMediaRef r
  | updateSourceMediaRefs p f => Database.updateSourceMediaRefs p f
  | deleteSourceMediaRefs p => Database.deleteSourceMediaRefs p
  | insertMediaIdentifier i => Database.insertMediaIdentifier i
  | updateMediaIdentifiers p f => Database.updateMediaIdentifiers p f
  | deleteMediaIdentifiers p => Database.deleteMediaIdentifiers p

/-- The statement writes a row. -/
def writes (db : Database) : IdentityStatement → Bool
  | insertMediaItem m => !db.mediaItems.contains m.id
  | updateMediaItems p _ => db.mediaItems.rows.any p
  | deleteMediaItem i => db.mediaItems.contains i && !db.isReferenced i
  | insertSourceMediaRef r => !db.sourceMediaRefs.contains r.id
  | updateSourceMediaRefs p _ | deleteSourceMediaRefs p => db.sourceMediaRefs.rows.any p
  | insertMediaIdentifier i => !db.mediaIdentifiers.contains i.id
  | updateMediaIdentifiers p _ | deleteMediaIdentifiers p => db.mediaIdentifiers.rows.any p

theorem apply_of_not_writes {db : Database} {s : IdentityStatement} (h : s.writes db = false) :
    s.apply db = db := by
  cases s with
  | insertMediaItem | insertSourceMediaRef | insertMediaIdentifier =>
    exact if_pos (by simpa [writes] using h)
  | _ => exact if_neg (ne_true_of_eq_false h)

theorem projectionState_of_writes {db : Database} {s : IdentityStatement} (h : s.writes db = true) :
    (s.apply db).settings.projectionState = db.settings.projectionState.map fun _ => .identity := by
  have fired : ∀ (c : Bool) (db' : Database), c = true → db'.settings = db.settings →
      (if c then db'.identityTrigger else db).settings.projectionState =
        db.settings.projectionState.map fun _ => .identity := by
    rintro c db' rfl hset
    rw [if_pos rfl, ← hset]; rfl
  cases s with
  | insertMediaItem | insertSourceMediaRef | insertMediaIdentifier =>
    have h' := eq_false_of_ne_true (by simpa [writes] using h : _ ≠ true)
    show (if _ then _ else _ : Database).settings.projectionState = _
    rw [if_neg (by simpa using h')]; rfl
  | _ => exact fired _ _ h rfl

end IdentityStatement

inductive ActivityStatement
  | insertWatchEvent (e : WatchEvent)
  | updateWatchEvents (p : WatchEvent → Bool) (f : Assignment WatchEvent.id)
  | deleteWatchEvents (p : WatchEvent → Bool)
  | insertWatchState (s : WatchState)
  | updateWatchStates (p : WatchState → Bool) (f : Assignment WatchState.key)
  | rekeyWatchStates (p : WatchState → Bool) (f : WatchState → WatchState)
  | deleteWatchStates (p : WatchState → Bool)

namespace ActivityStatement

def apply : ActivityStatement → Database → Database
  | insertWatchEvent e => Database.insertWatchEvent e
  | updateWatchEvents p f => Database.updateWatchEvents p f
  | deleteWatchEvents p => Database.deleteWatchEvents p
  | insertWatchState s => Database.insertWatchState s
  | updateWatchStates p f => Database.updateWatchStates p f
  | rekeyWatchStates p f => Database.rekeyWatchStates p f
  | deleteWatchStates p => Database.deleteWatchStates p

/-- The items of the rows the statement writes, before and after. -/
def items (db : Database) : ActivityStatement → List Nat
  | insertWatchEvent e => if db.watchEvents.contains e.id then [] else [e.mediaItemId]
  | updateWatchEvents p f =>
    (db.watchEvents.rows.filter p).flatMap fun (e : WatchEvent) =>
      [e.mediaItemId, (f e).mediaItemId]
  | deleteWatchEvents p => (db.watchEvents.rows.filter p).map WatchEvent.mediaItemId
  | insertWatchState s => if db.watchStates.contains s.key then [] else [s.mediaItemId]
  | updateWatchStates p _ | deleteWatchStates p =>
    (db.watchStates.rows.filter p).map WatchState.mediaItemId
  | rekeyWatchStates p f =>
    match db.watchStates.rekey? p f with
    | some _ =>
      (db.watchStates.rows.filter p).flatMap fun (s : WatchState) =>
        [s.mediaItemId, (f s).mediaItemId]
    | none => []

/-- Every statement is a change of the two activity tables, followed by the trigger. -/
theorem apply_eq (s : ActivityStatement) (db : Database) :
    ∃ watchEvents watchStates, s.apply db =
      { db with watchEvents := watchEvents, watchStates := watchStates }.activityTrigger
        (s.items db) := by
  cases s with
  | insertWatchEvent e =>
    by_cases h : db.watchEvents.contains e.id
    · exact ⟨db.watchEvents, db.watchStates, by simp [apply, items, Database.insertWatchEvent, h,
        Database.activityTrigger]⟩
    · exact ⟨db.watchEvents.insert e, db.watchStates, by
        simp [apply, items, Database.insertWatchEvent, h]⟩
  | insertWatchState s =>
    by_cases h : db.watchStates.contains s.key
    · exact ⟨db.watchEvents, db.watchStates, by simp [apply, items, Database.insertWatchState, h,
        Database.activityTrigger]⟩
    · exact ⟨db.watchEvents, db.watchStates.insert s, by
        simp [apply, items, Database.insertWatchState, h]⟩
  | rekeyWatchStates p f =>
    cases h : db.watchStates.rekey? p f with
    | none =>
      exact ⟨db.watchEvents, db.watchStates, by simp [apply, items, Database.rekeyWatchStates, h,
        Database.activityTrigger]⟩
    | some t => exact ⟨db.watchEvents, t, by simp [apply, items, Database.rekeyWatchStates, h]⟩
  | updateWatchEvents p f => exact ⟨db.watchEvents.update p f, db.watchStates, rfl⟩
  | deleteWatchEvents p => exact ⟨db.watchEvents.delete p, db.watchStates, rfl⟩
  | updateWatchStates p f => exact ⟨db.watchEvents, db.watchStates.update p f, rfl⟩
  | deleteWatchStates p => exact ⟨db.watchEvents, db.watchStates.delete p, rfl⟩

section Filter
variable {db : Database} {keep : Nat → Bool}

/-- The events of items that no written row belongs to stay as they are. -/
theorem filter_watchEvents (s : ActivityStatement) (h : ∀ i ∈ s.items db, keep i = false) :
    (s.apply db).watchEvents.rows.filter (fun r => keep r.mediaItemId) =
      db.watchEvents.rows.filter fun r => keep r.mediaItemId := by
  cases s with
  | insertWatchEvent e =>
    by_cases hc : db.watchEvents.contains e.id
    · simp [apply, Database.insertWatchEvent, hc]
    · have he : keep e.mediaItemId = false := h _ (by simp [items, hc])
      have hfilter : (db.watchEvents.insert e).rows.filter (fun r => keep r.mediaItemId) = _ :=
        Table.filter_insert he
      simpa [apply, Database.insertWatchEvent, hc] using hfilter
  | updateWatchEvents p f =>
    simp only [apply, Database.updateWatchEvents, Database.watchEvents_activityTrigger]
    refine Table.filter_update fun r hr hp => ⟨h _ ?_, h _ ?_⟩
    all_goals exact List.mem_flatMap.2 ⟨r, List.mem_filter.2 ⟨hr, hp⟩, by simp⟩
  | deleteWatchEvents p =>
    simp only [apply, Database.deleteWatchEvents, Database.watchEvents_activityTrigger]
    refine Table.filter_delete fun r hr hp => h _ ?_
    exact List.mem_map_of_mem (List.mem_filter.2 ⟨hr, hp⟩)
  | insertWatchState s => simp only [apply, Database.insertWatchState]; split <;> simp
  | rekeyWatchStates p f => simp only [apply, Database.rekeyWatchStates]; split <;> simp
  | updateWatchStates p f => simp [apply, Database.updateWatchStates]
  | deleteWatchStates p => simp [apply, Database.deleteWatchStates]

theorem filter_watchStates (s : ActivityStatement) (h : ∀ i ∈ s.items db, keep i = false) :
    (s.apply db).watchStates.rows.filter (fun r => keep r.mediaItemId) =
      db.watchStates.rows.filter fun r => keep r.mediaItemId := by
  cases s with
  | insertWatchState r =>
    by_cases hc : db.watchStates.contains r.key
    · simp [apply, Database.insertWatchState, hc]
    · have hr : keep r.mediaItemId = false := h _ (by simp [items, hc])
      have hfilter : (db.watchStates.insert r).rows.filter (fun r => keep r.mediaItemId) = _ :=
        Table.filter_insert hr
      simpa [apply, Database.insertWatchState, hc] using hfilter
  | updateWatchStates p f =>
    simp only [apply, Database.updateWatchStates, Database.watchStates_activityTrigger]
    refine Table.filter_update fun r hr hp => ?_
    have hitem : (f r).mediaItemId = r.mediaItemId := congrArg Prod.fst (f.key_apply r)
    have hkeep : keep r.mediaItemId = false :=
      h _ (List.mem_map_of_mem (List.mem_filter.2 ⟨hr, hp⟩))
    exact ⟨hkeep, by rw [hitem]; exact hkeep⟩
  | rekeyWatchStates p f =>
    simp only [apply, Database.rekeyWatchStates]
    cases ht : db.watchStates.rekey? p f with
    | none => rfl
    | some t =>
      simp only [Database.watchStates_activityTrigger]
      refine Table.filter_rekey? ht fun r hr hp => ⟨h _ ?_, h _ ?_⟩
      all_goals
        simp only [items, ht]
        exact List.mem_flatMap.2 ⟨r, List.mem_filter.2 ⟨hr, hp⟩, by simp⟩
  | deleteWatchStates p =>
    simp only [apply, Database.deleteWatchStates, Database.watchStates_activityTrigger]
    refine Table.filter_delete fun r hr hp => h _ ?_
    exact List.mem_map_of_mem (List.mem_filter.2 ⟨hr, hp⟩)
  | insertWatchEvent e => simp only [apply, Database.insertWatchEvent]; split <;> simp
  | updateWatchEvents p f => simp [apply, Database.updateWatchEvents]
  | deleteWatchEvents p => simp [apply, Database.deleteWatchEvents]

end Filter

end ActivityStatement

inductive PathStatement
  | savePaths (reference : Nat) (keys : PathKeys)
  | remapPaths

namespace PathStatement

def apply (py : PyLib) : PathStatement → Database → Database
  | savePaths reference keys => Database.savePaths reference keys
  | remapPaths => Database.remapPaths py

/-- Path statements write `media_file_paths` and nothing else. -/
theorem apply_eq (py : PyLib) (s : PathStatement) (db : Database) :
    ∃ paths, s.apply py db = { db with mediaFilePaths := paths } := by
  cases s with
  | savePaths reference keys => exact ⟨_, rfl⟩
  | remapPaths =>
    show ∃ paths, db.remapPaths py = _
    unfold Database.remapPaths
    generalize db.sourceMediaRefs.rows.filter _ = references
    suffices h : ∀ db' : Database, (∃ paths, db' = { db with mediaFilePaths := paths }) →
        ∃ paths, references.foldl _ db' = { db with mediaFilePaths := paths } from h db ⟨_, rfl⟩
    induction references with
    | nil => exact fun _ h => h
    | cons r references ih =>
      rintro db' ⟨paths, rfl⟩
      exact ih _ ⟨_, rfl⟩

end PathStatement

end Euvieouvi
