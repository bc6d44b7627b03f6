import Euvieouvi.Catalog.Revision
import Euvieouvi.Persist.Stamps
import Euvieouvi.Playback.Calls
import Euvieouvi.Playback.Recorded
import Euvieouvi.Reconcile.Stamps
import Euvieouvi.Sync.Availability
import Euvieouvi.WatchSync.Delivery

/-!
# The operations that a revision tells of

What changes the catalog while servers are synchronized, and when `_catalog_revision_value` is
another text afterwards. Rows that the ORM flushes are stamped, so an operation that flushes one is
told of; a merge assigns and deletes rows by statements that leave the stamps, and a catalog that
changed by nothing else has the revision it had (`catalog_revision_hides_merge`).
-/

namespace Euvieouvi

namespace Database

/-- A write that leaves everything as it was, but for the queue of tasks, or a stamp; and it takes
no stamp away. -/
structure Revises (T : Time) (n : Nat) (db db' : Database) : Prop where
  shows : n ≤ db.watchEvents.nextId → (∃ tasks, db' = { db with asyncTasks := tasks }) ∨
    db'.Stamped T n
  keeps : db.Stamped T n → db'.Stamped T n

section Writes
variable {T now : Time} {n i : Nat} {db db' db'' : Database}

/-- A write of references, states or events that leaves rows as late as those it finds. -/
theorem Stamped.of_frame {written : List TableName} (h : db.Stamped T n)
    (hframe : Frame written db db') (hw : .mediaItems ∉ written ∧ .mediaImages ∉ written)
    (hrefs : .sourceMediaRefs ∉ written ∨ ∀ r ∈ db.sourceMediaRefs.rows, T ≤ r.updatedAt →
      ∃ r' ∈ db'.sourceMediaRefs.rows, T ≤ r'.updatedAt)
    (hstates : .watchStates ∉ written ∨ ∀ s ∈ db.watchStates.rows, T ≤ s.updatedAt →
      ∃ s' ∈ db'.watchStates.rows, T ≤ s'.updatedAt)
    (hevents : .watchEvents ∉ written ∨ ∀ e ∈ db.watchEvents.rows, ∃ e' ∈ db'.watchEvents.rows,
      e'.id = e.id) :
    db'.Stamped T n := by
  have htable : ∀ name ∉ written, db'.table name = db.table name := hframe
  cases h with
  | item hm h =>
    have hitems : db'.mediaItems = db.mediaItems := htable .mediaItems hw.1
    exact .item (hitems ▸ hm) h
  | image hm h =>
    have himages : db'.mediaImages = db.mediaImages := htable .mediaImages hw.2
    exact .image (himages ▸ hm) h
  | reference hr h =>
    rcases hrefs with hrefs | hrefs
    · have hrefs : db'.sourceMediaRefs = db.sourceMediaRefs := htable .sourceMediaRefs hrefs
      exact .reference (hrefs ▸ hr) h
    · obtain ⟨r', hr', hlate⟩ := hrefs _ hr h
      exact .reference hr' hlate
  | state hs h =>
    rcases hstates with hstates | hstates
    · have hstates : db'.watchStates = db.watchStates := htable .watchStates hstates
      exact .state (hstates ▸ hs) h
    · obtain ⟨s', hs', hlate⟩ := hstates _ hs h
      exact .state hs' hlate
  | event he h =>
    rcases hevents with hevents | hevents
    · have hevents : db'.watchEvents = db.watchEvents := htable .watchEvents hevents
      exact .event (hevents ▸ he) h
    · obtain ⟨e', he', hid⟩ := hevents _ he
      exact .event he' (hid ▸ h)

/-- A statement that finds no state. -/
theorem updateWatchStates_of_none {p : WatchState → Bool} {f : Assignment WatchState.key}
    (h : db.watchStates.rows.any p = false) :
    db.updateWatchStates p f = db := by
  have hnone : db.watchStates.rows.filter p = [] := by
    rw [List.filter_eq_nil_iff]
    exact fun s hs => List.any_eq_false.1 h s hs
  unfold updateWatchStates
  rw [Table.update_of_none h, hnone]
  rfl

namespace Revises

theorem refl (db : Database) : Revises T n db db := ⟨fun _ => .inl ⟨db.asyncTasks, rfl⟩, id⟩

theorem trans (h : Revises T n db db') (h' : Revises T n db' db'') : Revises T n db db'' where
  shows hn := by
    rcases h.shows hn with ⟨tasks, rfl⟩ | hstamped
    · exact h'.shows hn
    · exact .inr (h'.keeps hstamped)
  keeps hstamped := h'.keeps (h.keeps hstamped)

theorem foldl {α : Type} {g : Database → α → Database} (hg : ∀ db a, Revises T n db (g db a))
    (l : List α) (db : Database) :
    Revises T n db (l.foldl g db) := by
  induction l generalizing db with
  | nil => exact refl db
  | cons a l ih => exact (hg db a).trans (ih _)

theorem tasks (tasks : Table AsyncTask.id) (db : Database) :
    Revises T n db { db with asyncTasks := tasks } :=
  ⟨fun _ => .inl ⟨tasks, rfl⟩, fun h =>
    h.of_frame (writeAsyncTasks_frame tasks) (by decide) (.inl (by decide)) (.inl (by decide))
    (.inl (by decide))⟩

/-- A write of states, or of nothing that a revision reads. -/
theorem of_states (hframe : Frame [.watchStates, .dirtyItems] db db')
    (hshows : db' = db ∨ ∃ s ∈ db'.watchStates.rows, T ≤ s.updatedAt)
    (hkeeps : ∀ s ∈ db.watchStates.rows, T ≤ s.updatedAt → ∃ s' ∈ db'.watchStates.rows,
      T ≤ s'.updatedAt) :
    Revises T n db db' where
  shows _ := by
    rcases hshows with heq | ⟨s, hs, hlate⟩
    exacts [.inl ⟨db.asyncTasks, heq⟩, .inr (.state hs hlate)]
  keeps h := h.of_frame hframe (by decide) (.inl (by decide)) (.inr hkeeps) (.inl (by decide))

theorem insertState {s : WatchState} (hs : T ≤ s.updatedAt) (db : Database) :
    Revises T n db (db.insertWatchState s) := by
  refine of_states (insertWatchState_frame s) ?_ fun s' hs' hlate => ⟨s', ?_, hlate⟩
  · by_cases hknown : db.watchStates.contains s.key = true
    · exact .inl (if_pos hknown)
    · have hnone : db.watchStates.get? s.key = none := by simpa [Table.contains] using hknown
      refine .inr ⟨s, ?_, hs⟩
      rw [watchStates_insertWatchState]
      exact Table.mem_of_get? (Table.get?_insert_self hnone)
  · rw [watchStates_insertWatchState]
    exact Table.mem_insert_of_mem hs'

theorem saveState (hT : T ≤ now) (k : Nat × Nat) (f : Assignment WatchState.key) (db : Database) :
    Revises T n db (db.saveWatchState now k f) := by
  have hkeeps : ∀ s ∈ db.watchStates.rows, T ≤ s.updatedAt ∨ decide (s.key = k) &&
      decide (f s ≠ s) →
      ∃ s' ∈ (db.saveWatchState now k f).watchStates.rows, T ≤ s'.updatedAt := by
    intro s hs hlate
    unfold saveWatchState
    rw [watchStates_updateWatchStates]
    exact Table.exists_update (fun _ => hT) hs hlate
  refine of_states (updateWatchStates_frame _ _) ?_ fun s hs hlate => hkeeps s hs (.inl hlate)
  cases hany : db.watchStates.rows.any fun s => decide (s.key = k) && decide (f s ≠ s) with
  | false => exact .inl (updateWatchStates_of_none hany)
  | true =>
    obtain ⟨s, hs, hchanged⟩ := List.any_eq_true.1 hany
    exact .inr (hkeeps s hs (.inr hchanged))

theorem putState (hT : T ≤ now) (k : Nat × Nat) {new : WatchState} {f : Assignment WatchState.key}
    (hnew : T ≤ (f new).updatedAt)
    (db : Database) : Revises T n db (db.putWatchState now k new f) := by
  unfold putWatchState
  split
  exacts [saveState hT k f db, insertState hnew db]

/-- A statement that stamps every reference it assigns. -/
theorem updateReferences {p : SourceMediaRef → Bool} {f : Assignment SourceMediaRef.id}
    (hf : ∀ r, T ≤ (f r).updatedAt)
    (db : Database) : Revises T n db (db.updateSourceMediaRefs p f) := by
  have hkeeps : ∀ r ∈ db.sourceMediaRefs.rows, T ≤ r.updatedAt ∨ p r →
      ∃ r' ∈ (db.updateSourceMediaRefs p f).sourceMediaRefs.rows, T ≤ r'.updatedAt := by
    intro r hr hlate
    rw [sourceMediaRefs_updateSourceMediaRefs]
    exact Table.exists_update hf hr hlate
  refine ⟨fun _ => ?_, fun h => ?_⟩
  · cases hany : db.sourceMediaRefs.rows.any p with
    | false => exact .inl ⟨db.asyncTasks, if_neg (by rw [hany]; exact Bool.false_ne_true)⟩
    | true =>
      obtain ⟨r, hr, hp⟩ := List.any_eq_true.1 hany
      obtain ⟨r', hr', hlate⟩ := hkeeps r hr (.inr hp)
      exact .inr (.reference hr' hlate)
  · exact h.of_frame (updateSourceMediaRefs_frame p f) (by decide)
      (.inr fun r hr hlate => hkeeps r hr (.inl hlate)) (.inl (by decide))
      (.inl (by decide))

theorem insertEvent {e : WatchEvent} (hid : e.id = db.watchEvents.nextId) :
    Revises T n db (db.insertWatchEvent e) where
  shows hn := by
    refine .inr (.event (e := e) ?_ (hid ▸ hn))
    rw [watchEvents_insertWatchEvent]
    exact Table.mem_of_get? (Table.get?_insert_self (hid ▸ Table.get?_nextId db.watchEvents))
  keeps h := by
    refine h.of_frame (insertWatchEvent_frame e) (by decide) (.inl (by decide)) (.inl (by decide))
      (.inr fun e' he' => ⟨e', ?_, rfl⟩)
    rw [watchEvents_insertWatchEvent]
    exact Table.mem_insert_of_mem he'

end Revises

end Writes

end Database

/-! ### Playback -/

section Playback
open Database
variable {service : MediaPersistenceService} {event : ExternalWatchEvent} {origin : EventOrigin}
  {T : Time} {n : Nat} {db db' : Database}

theorem MediaPersistenceService.saveState_revises (hT : T ≤ service.now) (i : Nat)
    {new : WatchState} {f : Assignment WatchState.key}
    (hnew : T ≤ (f new).updatedAt) (db : Database) :
    Revises T n db (service.saveState i new f db) := by
  unfold MediaPersistenceService.saveState
  split
  exacts [.saveState hT _ f db, .insertState hnew db]

theorem MediaPersistenceService.recordEvent_revises (hT : T ≤ service.now) (i : Nat)
    (event : ExternalWatchEvent) (origin : EventOrigin)
    (db : Database) : Revises T n db (service.recordEvent i event origin db) := by
  have hinserted : Revises T n db (db.insertWatchEvent
      (service.newEvent db.watchEvents.nextId i event origin)) := .insertEvent rfl
  have happlied : Revises T n db (service.applyEventToWatchState i event
      (db.insertWatchEvent (service.newEvent db.watchEvents.nextId i event origin))) :=
    hinserted.trans (saveState_revises hT i hT _)
  unfold MediaPersistenceService.recordEvent
  dsimp only
  split
  exacts [happlied.trans (.tasks _ _), happlied]

theorem MediaPersistenceService.rebuildContainerWatchStates_revises (hT : T ≤ service.now)
    (observedAt : Time) (db : Database) :
    Revises T n db (service.rebuildContainerWatchStates observedAt db) :=
  .foldl (fun db _ => saveState_revises hT _ hT db) _ db

/-- The event writes no row that it finds by its id: it finds none, or it is undated and assigns the
row what the row says. -/
def MediaPersistenceService.AddsOrAgrees (service : MediaPersistenceService)
    (event : ExternalWatchEvent) (origin : EventOrigin) (db : Database) : Prop :=
  ∀ existing r, event.completed = true →
    db.byExternalIdentity service.sourceId event.mediaExternalId = some r →
    service.knownEvent db event = some existing → existing.mediaItemId = r.mediaItemId →
    (∀ other, db.byDedupKey service.sourceId (service.eventDedupKey event) = some other →
      other.id = existing.id) →
    isUndated event = true ∧ service.refreshEvent event origin existing = existing

theorem EventWrite.revises (h : EventWrite service event origin db db') (hT : T ≤ service.now)
    (hsame : service.AddsOrAgrees event origin db) : Revises T n db db' := by
  cases h with
  | refresh existing r hc hr hknown hitem hdedup =>
    obtain ⟨hundated, hsame⟩ := hsame existing r hc hr hknown hitem hdedup
    have hnothing : service.refreshStored event origin existing.id db = db := by
      refine MediaPersistenceService.refreshStored_of_same hundated fun e he hid => ?_
      obtain rfl : e = existing :=
        db.watchEvents.eq_of_key_eq he (MediaPersistenceService.mem_of_knownEvent hknown).1 hid
      exact hsame
    rw [hnothing]
    exact .refl db
  | record r => exact service.recordEvent_revises hT r.mediaItemId event origin db

theorem MediaPersistenceService.persistEvent_revises (hT : T ≤ service.now)
    (hsame : service.AddsOrAgrees event origin db) :
    (service.persistEvent event origin).Ensures (· = db) fun _ => Revises T n db := by
  refine (service.persistEvent_ensures event origin db).mono (fun _ h => h) fun _ db' h => ?_
  rcases h with rfl | h
  exacts [.refl db', h.revises hT hsame]

/-- Each event of a page, when it is its turn. -/
def MediaPersistenceService.HistoryAgrees (service : MediaPersistenceService) :
    List ExternalWatchEvent → PersistSession → Prop
  | [], _ => True
  | event :: events, s => service.AddsOrAgrees event .synchronization s.store ∧
      service.HistoryAgrees events
        ((Program.attempt (service.persistEvent event .synchronization)).run s).2

theorem MediaPersistenceService.persistHistoryPage_revises (hT : T ≤ service.now)
    (events : List ExternalWatchEvent) (s : PersistSession)
    (hsame : service.HistoryAgrees events s) :
    ∃ s', (service.persistHistoryPage events).Returns s () s' ∧ Revises T n s.store s'.store := by
  induction events generalizing s with
  | nil => exact ⟨s, rfl, .refl _⟩
  | cons event events ih =>
    obtain ⟨hevent, hevents⟩ := hsame
    have hone : (Program.attempt (service.persistEvent event .synchronization)).Ensures
        (· = s.store) fun _ => Revises T n s.store :=
      .attempt (service.persistEvent_revises hT hevent) fun _ => .refl _
    obtain ⟨ended, u, hu⟩ : ∃ ended u,
        (Program.attempt (service.persistEvent event .synchronization)).Returns s ended u := by
      rcases Program.returns_attempt (service.persistEvent event .synchronization) s with ⟨inserted,
        u, h⟩ | ⟨error, u, h, -⟩
      exacts [⟨_, u, h⟩, ⟨_, u, h⟩]
    have hnext : ((Program.attempt (service.persistEvent event .synchronization)).run s).2 = u :=
      congrArg Prod.snd hu
    obtain ⟨s', hs', hrevises⟩ := ih u (hnext ▸ hevents)
    refine ⟨s', Program.returns_bind.2 ⟨(), u, Program.returns_bind.2 ⟨ended, u, hu, rfl⟩, hs'⟩, ?_⟩
    exact (hone s ended u rfl hu).trans hrevises

/-- An event of a page is new, when it is its turn. -/
def MediaPersistenceService.HistoryAdds (service : MediaPersistenceService) :
    List ExternalWatchEvent → PersistSession → Prop
  | [], _ => False
  | event :: events, s =>
    EventCall.unknownTo ⟨service, s.cache, event, .synchronization⟩ s.store ≠ none ∨
      service.HistoryAdds events
        ((Program.attempt (service.persistEvent event .synchronization)).run s).2

/-- A call takes no stamp away, and a new event is one. -/
theorem EventCall.commit_stamps (call : EventCall) (hn : n ≤ db.watchEvents.nextId) :
    let after := (call.service.persistEvent call.event call.origin).commit call.cache db
    n ≤ after.watchEvents.nextId ∧
      (db.Stamped T n ∨ call.unknownTo db ≠ none → after.Stamped T n) := by
  intro after
  have hnext : (∀ e ∈ db.watchEvents.rows, ∃ e' ∈ after.watchEvents.rows, e'.id = e.id) →
      n ≤ after.watchEvents.nextId := by
    refine fun hids => hn.trans (Table.nextId_le fun e he => ?_)
    obtain ⟨e', he', hid⟩ := hids e he
    exact ⟨e', he', hid.ge⟩
  rcases call.commit_cases db with ⟨existing, hfound, -, hafter⟩ | ⟨i, -, -, -, hafter⟩ | ⟨hwrites,
    hfound, hafter⟩
  · obtain ⟨-, r, -, hknown, -⟩ := EventCall.found_eq_some.1 hfound
    have hunknown : call.unknownTo db = none := if_neg (by simp [hknown])
    have hafter : after = call.service.refreshStored call.event call.origin existing.id db := hafter
    have hids : ∀ e ∈ db.watchEvents.rows, ∃ e' ∈ after.watchEvents.rows, e'.id = e.id := by
      intro e he
      rw [hafter, MediaPersistenceService.rows_saveRefresh]
      exact ⟨_, List.mem_map_of_mem he, MediaPersistenceService.refreshRow_id⟩
    refine ⟨hnext hids, fun h => ?_⟩
    have hframe : Frame [.watchEvents, .dirtyItems] db after :=
      hafter ▸ MediaPersistenceService.refreshStored_frame _
    exact (h.resolve_right fun hne => hne hunknown).of_frame hframe (by decide) (.inl (by decide))
      (.inl (by decide)) (.inr hids)
  · have hafter : after = call.service.recordEvent i call.event call.origin db := hafter
    have hmem : ∀ e, e ∈ db.watchEvents.rows ∨
        e = call.service.newEvent db.watchEvents.nextId i call.event call.origin →
        e ∈ after.watchEvents.rows := by
      rw [hafter]
      exact fun e => MediaPersistenceService.mem_recordEvent.2
    exact ⟨hnext fun e he => ⟨e, hmem e (.inl he), rfl⟩, fun _ => .event (hmem _ (.inr rfl)) hn⟩
  · have hafter : after = db := hafter
    have hunknown : call.unknownTo db = none := by
      unfold EventCall.writes at hwrites
      rw [hfound] at hwrites
      exact Option.map_eq_none_iff.1 hwrites
    rw [hafter]
    exact ⟨hn, fun h => h.resolve_right fun hne => hne hunknown⟩

/-- A page with a new event. -/
theorem MediaPersistenceService.persistHistoryPage_stamps (events : List ExternalWatchEvent)
    (s : PersistSession)
    (hn : n ≤ s.store.watchEvents.nextId) (h : s.store.Stamped T n ∨ service.HistoryAdds events s) :
    ∃ s', (service.persistHistoryPage events).Returns s () s' ∧ s'.store.Stamped T n := by
  induction events generalizing s with
  | nil => exact ⟨s, rfl, h.resolve_right id⟩
  | cons event events ih =>
    obtain ⟨ended, u, hu, hstore⟩ :=
      Persist.attempt_commit (service.persistEvent event .synchronization) s
    obtain ⟨hn', hstamps⟩ := EventCall.commit_stamps ⟨service, s.cache, event, .synchronization⟩ hn
    have hnext : ((Program.attempt (service.persistEvent event .synchronization)).run s).2 = u :=
      congrArg Prod.snd hu
    dsimp only at hn' hstamps
    rw [← hstore] at hn' hstamps
    have hrest : u.store.Stamped T n ∨ service.HistoryAdds events u := by
      rcases h with h | h | h
      exacts [.inl (hstamps (.inl h)), .inl (hstamps (.inr h)), .inr (hnext ▸ h)]
    obtain ⟨s', hs', hstamped⟩ := ih u hn' hrest
    exact ⟨s',
      Program.returns_bind.2 ⟨(), u, Program.returns_bind.2 ⟨ended, u, hu, rfl⟩, hs'⟩, hstamped⟩

theorem progress_revises (py : PyLib) {p : ProgressUpdate} (hT : T ≤ p.now) (db : Database) :
    Revises T n db (db.persistAndEnqueueProgress py p) := by
  have hput : ∀ item, Revises T n db
      (db.putWatchState p.now (item, p.sourceId) (p.newState item) ⟨p.assign, p.key_assign⟩) := by
    refine fun item => .putState hT _ ?_ db
    show T ≤ (p.assign (p.newState item)).updatedAt
    unfold ProgressUpdate.assign
    split <;> exact hT
  unfold persistAndEnqueueProgress
  split
  · dsimp only
    split
    exacts [hput _, (hput _).trans (.tasks _ _)]
  · exact .tasks _ db

theorem WatchSyncCandidate.updatedAt_assignAll (now : Time) (cs : List WatchSyncCandidate)
    (s : WatchState) :
    (WatchSyncCandidate.assignAll now cs s).updatedAt = s.updatedAt := by
  induction cs generalizing s with
  | nil => rfl
  | cons c cs ih =>
    refine (ih _).trans ?_
    unfold WatchSyncCandidate.assign
    dsimp only
    split
    · rfl
    · split <;> rfl

theorem recordSuccesses_revises {now : Time} (hT : T ≤ now) (cs : List WatchSyncCandidate)
    (db : Database) :
    Revises T n db (db.recordSuccesses now cs) := by
  refine .foldl (fun db k => ?_) _ db
  unfold recordState
  split
  next c rest _ _ =>
    exact .insertState (by rw [WatchSyncCandidate.updatedAt_assignAll]; exact hT) db
  next => exact .saveState hT k _ db

theorem markMissingUnavailable_revises {l : LibraryScan} (hT : T ≤ l.flushedAt) (db : Database) :
    Revises T n db (db.markMissingUnavailable l) :=
  .updateReferences (fun _ => hT) db

theorem invalidateReference_revises {now : Time} (hT : T ≤ now) (reference : Nat) (db : Database) :
    Revises T n db (db.invalidateReference now reference).1 := by
  unfold invalidateReference
  split
  · split
    exacts [.updateReferences (fun _ => hT) db, .refl db]
  · exact .refl db

end Playback

namespace AsyncTaskExecutor
open Database
variable {executor : AsyncTaskExecutor} {inputs : ExecutionInputs} {origin : Source}
  {u : WatchUpdate} {T now : Time} {n : Nat}
  {db db' : Database}

theorem UpdateWrites.revises (h : UpdateWrites now u db db') (hT : T ≤ now) :
    Revises T n db db' := by
  induction h with
  | refl => exact .refl db
  | tail _ hw ih =>
    refine ih.trans ?_
    cases hw with
    | invalidate reference => exact .updateReferences (fun _ => hT) _
    | put key =>
      refine .putState hT key ?_ _
      show T ≤ (u.assign (u.newState now key)).updatedAt
      unfold WatchUpdate.assign
      dsimp only
      split <;> exact hT

/-- The reference is there, or its item is cataloged now. -/
theorem originReference_persists (executor : AsyncTaskExecutor) (inputs : ExecutionInputs)
    (origin : Source) (u : WatchUpdate)
    (db : Database) : (executor.originReference inputs origin u db).1 = db ∨
      ∃ (service : MediaPersistenceService) (item : ExternalMediaItem) (result : PersistResult)
      (session : PersistSession),
        service.now = inputs.now ∧
        (service.persistMedia item inputs.now).Returns ⟨db, []⟩ result session ∧
          (executor.originReference inputs origin u db).1 = session.store := by
  have hrepair : ∀ db', executor.repairMissingOriginReference inputs origin u db = .ok db' →
      ∃ (service : MediaPersistenceService) (item : ExternalMediaItem) (result : PersistResult)
        (session : PersistSession),
        service.now = inputs.now ∧ (service.persistMedia item inputs.now).Returns
          ⟨db, []⟩ result session ∧ db' = session.store := by
    intro db' h
    unfold repairMissingOriginReference at h
    split at h
    · cases h
    · dsimp only at h
      split at h
      · cases h
      · cases h
      · split at h
        · cases h
        · split at h
          next hrun =>
            cases h
            exact ⟨_, _, _, _, rfl, hrun, rfl⟩
          · cases h
  unfold originReference
  split
  · exact .inl rfl
  · split
    · exact .inl rfl
    next hok =>
      split
      exacts [.inr (hrepair _ hok), .inr (hrepair _ hok)]

/-- An item that is cataloged for its update leaves a stamp. -/
theorem originReference_stamps (hT : T ≤ inputs.now) (hseen : SeenStamped T db) :
    (executor.originReference inputs origin u db).1 = db ∨
    ReferenceStamped T (executor.originReference inputs origin u db).1 := by
  rcases executor.originReference_persists inputs origin u db with heq | ⟨service, item, result,
    session, hnow, hrun, heq⟩
  · exact .inl heq
  · rw [heq]
    exact .inr (service.persistMedia_stamps (hnow ▸ hT) hT item ⟨db, []⟩ result session hseen hrun)

theorem applyWatchUpdate_tells (hT : T ≤ inputs.now) (hseen : SeenStamped T db) (u : WatchUpdate) :
    (∃ tasks, (executor.applyWatchUpdate inputs u db).db = { db with asyncTasks := tasks }) ∨
      (executor.applyWatchUpdate inputs u db).db.Stamped T db.watchEvents.nextId := by
  rcases executor.applyWatchUpdate_origin inputs u db with heq | ⟨origin, -, hwrites⟩
  · exact .inl ⟨db.asyncTasks, heq⟩
  · have hrevises := UpdateWrites.revises (n := db.watchEvents.nextId) hwrites hT
    rcases executor.originReference_stamps hT hseen with hsame | ⟨r, hr, hlate⟩
    · rw [hsame] at hrevises
      exact hrevises.shows le_rfl
    · exact .inr (hrevises.keeps (.reference hr hlate))

end AsyncTaskExecutor

/-! ### Operations -/

/-- What is committed while servers are synchronized. -/
inductive CatalogOperation
  | page (service : MediaPersistenceService) (cache : List CacheKey) (items : List PagedItem)
  | event (service : MediaPersistenceService) (cache : List CacheKey) (event : ExternalWatchEvent)
    (origin : EventOrigin)
  | historyPage (service : MediaPersistenceService) (cache : List CacheKey)
    (events : List ExternalWatchEvent)
  | progress (py : PyLib) (p : ProgressUpdate)
  | watchUpdate (executor : AsyncTaskExecutor) (inputs : ExecutionInputs) (u : WatchUpdate)
  | recordSuccesses (now : Time) (cs : List WatchSyncCandidate)
  | containers (service : MediaPersistenceService) (observedAt : Time)
  | sweep (l : LibraryScan)
  | invalidate (now : Time) (reference : Nat)
  | reconcile (py : PyLib) (now : Time) (call : Database.ReconcileCall)

/-- What `_persist_media_page` returns for each item. -/
def MediaPersistenceService.pageOutcomes (service : MediaPersistenceService) (cache : List CacheKey)
    (items : List PagedItem) (db : Database) : List PageOutcome :=
  (((service.persistMediaPage items).run ⟨db, cache⟩).1.toOption).getD []

namespace CatalogOperation
open Database
variable {T : Time} {db : Database}

def apply (db : Database) : CatalogOperation → Database
  | page service cache items => (service.persistMediaPage items).commit cache db
  | event service cache watched origin => (service.persistEvent watched origin).commit cache db
  | historyPage service cache events => (service.persistHistoryPage events).commit cache db
  | progress py p => db.persistAndEnqueueProgress py p
  | watchUpdate executor inputs u => (executor.applyWatchUpdate inputs u db).db
  | recordSuccesses now cs => db.recordSuccesses now cs
  | containers service observedAt => service.rebuildContainerWatchStates observedAt db
  | sweep l => db.markMissingUnavailable l
  | invalidate now reference => (db.invalidateReference now reference).1
  | reconcile py now call => call.apply py now db

/-- The clocks show `T` or later. -/
def Late (T : Time) : CatalogOperation → Prop
  | page service _ items => T ≤ service.now ∧ ∀ x ∈ items, T ≤ x.observedAt ∧ T ≤ x.retriedAt
  | event service _ _ _ => T ≤ service.now
  | historyPage service _ _ => T ≤ service.now
  | progress _ p => T ≤ p.now
  | watchUpdate _ inputs _ => T ≤ inputs.now
  | recordSuccesses now _ => T ≤ now
  | containers service _ => T ≤ service.now
  | sweep l => T ≤ l.flushedAt
  | invalidate now _ => T ≤ now
  | reconcile _ now _ => T ≤ now

/-- Nothing is written but by a flush that stamps, or something is stamped all the same. -/
def Tells (db : Database) : CatalogOperation → Prop
  | page service cache items =>
    (∃ outcome ∈ service.pageOutcomes cache items db, outcome.result.isSome = true) ∨
      ∀ outcome ∈ service.pageOutcomes cache items db, outcome.lost = true
  | event service _ watched origin => service.AddsOrAgrees watched origin db
  | historyPage service cache events =>
    service.HistoryAgrees events ⟨db, cache⟩ ∨ service.HistoryAdds events ⟨db, cache⟩
  | reconcile py now call => call.Tells py now db
  | _ => True

/-- The tables that the catalog is made of are as they were, or a row is stamped. -/
theorem quiet_or_stamped {op : CatalogOperation} (hbefore : db.Before T) (hlate : op.Late T)
    (htells : op.Tells db) :
    (∃ tasks, op.apply db = { db with asyncTasks := tasks }) ∨
    (op.apply db).Stamped T db.watchEvents.nextId := by
  have hseen : SeenStamped T db := fun r hr hlast => absurd hlast (hbefore.references r hr).2.not_ge
  cases op with
  | page service cache items =>
    obtain ⟨outcomes, s, hrun⟩ := service.persistMediaPage_returns items ⟨db, cache⟩
    have houtcomes : service.pageOutcomes cache items db = outcomes := by
      unfold MediaPersistenceService.pageOutcomes
      rw [hrun]
      rfl
    have happly : (page service cache items).apply db = s.store := by
      dsimp only [apply, Persist.commit]
      rw [hrun]
    rw [happly]
    dsimp only [Tells] at htells
    rw [houtcomes] at htells
    rcases htells with hsome | hlost
    · obtain ⟨r, hr, hstamp⟩ := service.persistMediaPage_stamps hlate.1 items hlate.2
        ⟨db, cache⟩ outcomes s hseen hrun hsome
      exact .inr (.reference hr hstamp)
    · exact .inl ⟨db.asyncTasks,
        service.persistMediaPage_lost items db ⟨db, cache⟩ outcomes s rfl hrun hlost⟩
  | event service cache watched origin =>
    rcases PlaybackCall.persistEvent_commit service cache db watched origin with heq | hwrite
    · exact .inl ⟨db.asyncTasks, heq⟩
    · exact (hwrite.revises hlate htells).shows le_rfl
  | historyPage service cache events =>
    have happly : ∀ s, (service.persistHistoryPage events).Returns ⟨db, cache⟩ () s →
        (historyPage service cache events).apply db = s.store := by
      intro s hrun
      dsimp only [apply, Persist.commit]
      rw [hrun]
    rcases htells with hagrees | hadds
    · obtain ⟨s, hrun, hrevises⟩ :=
        service.persistHistoryPage_revises hlate events ⟨db, cache⟩ hagrees
      exact happly s hrun ▸ hrevises.shows le_rfl
    · obtain ⟨s, hrun, hstamped⟩ :=
        service.persistHistoryPage_stamps events ⟨db, cache⟩ le_rfl (.inr hadds)
      exact happly s hrun ▸ .inr hstamped
  | progress py p => exact (progress_revises py hlate db).shows le_rfl
  | watchUpdate executor inputs u => exact executor.applyWatchUpdate_tells hlate hseen u
  | recordSuccesses now cs => exact (recordSuccesses_revises hlate cs db).shows le_rfl
  | containers service observedAt =>
    exact (service.rebuildContainerWatchStates_revises hlate observedAt db).shows le_rfl
  | sweep l => exact (markMissingUnavailable_revises hlate db).shows le_rfl
  | invalidate now reference => exact (invalidateReference_revises hlate reference db).shows le_rfl
  | reconcile py now call =>
    rcases htells.stamps hlate with heq | ⟨i, m, hm, hstamp⟩
    · exact .inl ⟨db.asyncTasks, heq⟩
    · exact .inr (.item (Table.mem_of_get? hm) hstamp)

/-- A page that is open learns of every change of what it shows: where an operation that tells of
itself changes the list of entries, or a figure of one, the revision is another one than before. -/
theorem revision_tells (py : PyLib) {db : Database} {T : Time} {op : CatalogOperation}
    (hbefore : db.Before T) (hlate : op.Late T) (htells : op.Tells db) (shownAt lookedAt : Time)
    (hchanged : ((op.apply db).ensureCatalogProjection py lookedAt).2.shownEntries ≠
      (db.ensureCatalogProjection py shownAt).2.shownEntries) :
    (op.apply db).catalogRevisionValue ≠ db.catalogRevisionValue := by
  rcases quiet_or_stamped hbefore hlate htells with ⟨tasks, hquiet⟩ | hstamped
  · rw [hquiet, shownEntries_asyncTasks, shownEntries_ensure py lookedAt shownAt] at hchanged
    exact absurd rfl hchanged
  · exact catalogRevisionValue_ne hbefore hstamped

section Example

/-- Two films on two servers, under two titles, with one file. -/
def sharedFileCatalog : Database where
  __ := Database.empty
  sources := (Table.empty.insert { id := 1, connectorType := .plex }).insert
    { id := 2, connectorType := .jellyfin }
  mediaItems :=
    (Table.empty.insert { id := 1, kind := .movie, title := "film", updatedAt := 2 }).insert
    { id := 2, kind := .movie, title := "film, extended", updatedAt := 1 }
  sourceMediaRefs := (Table.empty.insert
      { id := 1, sourceId := 1, libraryId := 1, mediaItemId := 1, externalId := "a",
        lastSeenAt := 2, updatedAt := 2 }).insert
    { id := 2, sourceId := 2, libraryId := 2, mediaItemId := 2, externalId := "b", lastSeenAt := 1,
      updatedAt := 1 }
  mediaFilePaths := (Table.empty.insert { id := 1, referenceId := 1, pathKey := "/film" }).insert
    { id := 2, referenceId := 2, pathKey := "/film" }

theorem before_sharedFileCatalog : sharedFileCatalog.Before 3 where
  items := by decide
  references := by decide
  images := by decide
  states := by decide

/-- The second film goes, and the revision stays. -/
theorem catalog_revision_hides_merge :
    sharedFileCatalog.Before 3 ∧ (reconcile .plain 3 (.catalog false)).Late 3 ∧
    (((reconcile .plain 3 (.catalog false)).apply sharedFileCatalog).ensureCatalogProjection .plain
      5).2.shownEntries.map (·.2.id) = [1] ∧
    (sharedFileCatalog.ensureCatalogProjection .plain 4).2.shownEntries.map (·.2.id) = [1, 2] ∧
    ((reconcile .plain 3 (.catalog false)).apply sharedFileCatalog).catalogRevisionValue =
      sharedFileCatalog.catalogRevisionValue := by
  refine ⟨before_sharedFileCatalog, ?_, by decide +kernel, by decide +kernel, by decide +kernel⟩
  show (3 : Time) ≤ 3
  decide

/-- Two shows that are not grouped, with two episodes each that are two entries. -/
def crossedSeasons : Database :=
  let items : List MediaItem := [
    { id := 3, kind := .episode, parentId := some 1 },
      { id := 4, kind := .episode, parentId := some 2 },
    { id := 5, kind := .episode, parentId := some 1 },
      { id := 6, kind := .episode, parentId := some 2 }]
  let refs : List SourceMediaRef := [
    { id := 1, sourceId := 1, libraryId := 1, mediaItemId := 3, externalId := "3" },
    { id := 2, sourceId := 2, libraryId := 2, mediaItemId := 4, externalId := "4" },
    { id := 3, sourceId := 1, libraryId := 1, mediaItemId := 5, externalId := "5" },
    { id := 4, sourceId := 2, libraryId := 2, mediaItemId := 6, externalId := "6" }]
  let identifiers : List MediaIdentifier := [
    { id := 1, mediaItemId := 3, provider := "tvdb", externalId := "9" },
    { id := 2, mediaItemId := 4, provider := "tvdb", externalId := "9" },
    { id := 3, mediaItemId := 5, provider := "tvdb", externalId := "10" },
    { id := 4, mediaItemId := 6, provider := "tvdb", externalId := "10" }]
  { crossedShows with
    mediaItems := ({ id := 1, kind := .show, title := "a" } ::
      { id := 2, kind := .show, title := "b" } :: items).foldl
      Table.insert .empty
    sourceMediaRefs := refs.foldl Table.insert .empty
    mediaIdentifiers := identifiers.foldl Table.insert .empty }

/-- A play with an id and a date. -/
def playOf (source : Nat) (episode : String) (now : Time) : CatalogOperation :=
  .event { plainService source with now := now } []
    { mediaExternalId := episode, libraryExternalId := "1", watchedAt := 1, completed := true,
      sourceEventId := some episode }
    .synchronization

/-- An episode of the second show is played, and then the other one, on the server of the first
show. -/
def playedSeasons : Database :=
  let first := ((playOf 2 "4" 3).apply
    (crossedSeasons.ensureCatalogProjection .plain 2).2).ensureCatalogProjection .plain 4
  (((playOf 1 "5" 5).apply first.2).ensureCatalogProjection .plain 6).2

/-- The first play is reported again: its row says the same, but the second show is projected anew
and counts the other play. -/
example : ((playOf 2 "4" 7).apply playedSeasons).catalogRevisionValue =
    playedSeasons.catalogRevisionValue ∧
    playedSeasons.catalogEntries.rows.map (·.completedChildCount) = [2, 1, 0, 0] ∧
    (((playOf 2 "4" 7).apply playedSeasons).ensureCatalogProjection .plain
      8).2.catalogEntries.rows.map (·.completedChildCount) =
      [2, 2, 0, 0] := by
  decide +kernel

end Example

end CatalogOperation

end Euvieouvi
