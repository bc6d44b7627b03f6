import Euvieouvi.Catalog.MatchKept
import Euvieouvi.Reconcile.Calls
import Euvieouvi.WatchSync.Apply
import Euvieouvi.Webhooks.Progress

/-!
# What is known about playback

Everything that writes watch states while servers are synchronized: `persist_media`,
`persist_event`, the progress of a webhook (`_persist_and_enqueue_progress`, `web/routes.py`),
`_apply_watch_update`, `_record_successes` and the merges. Each leaves every state with at least its
views, its completion and its last playback (`WatchState.AtMost`); the state of an item that was
merged is found at its survivor.
-/

namespace Euvieouvi

open Database

/-- What `s` says of the item, `s'` says too. -/
structure WatchState.AtMost (s s' : WatchState) : Prop where
  completed : s.completed = true → s'.completed = true
  viewCount : s.viewCount ≤ s'.viewCount
  lastPlayedAt : NotLater s.lastPlayedAt s'.lastPlayedAt

namespace WatchState.AtMost
variable {s s' s'' : WatchState}

theorem refl (s : WatchState) : s.AtMost s := ⟨id, le_refl _, .refl _⟩

theorem trans (h : s.AtMost s') (h' : s'.AtMost s'') : s.AtMost s'' :=
  ⟨fun hc => h'.completed (h.completed hc), h.viewCount.trans h'.viewCount,
    h.lastPlayedAt.trans h'.lastPlayedAt⟩

theorem absorb_left (w l : WatchState) : w.AtMost (w.absorb l) where
  completed h := by
    show (w.completed || l.completed) = true
    rw [h]
    rfl
  viewCount := le_max_left _ _
  lastPlayedAt := .latest_left _ _

theorem absorb_right (w l : WatchState) : l.AtMost (w.absorb l) where
  completed h := by
    show (w.completed || l.completed) = true
    rw [h, Bool.or_true]
  viewCount := le_max_right _ _
  lastPlayedAt := .latest_right _ _

end WatchState.AtMost

/-- From `db` to `db'` no state lost anything; `survivor` tells where the state of an item is
now. -/
def KnowledgeKept (survivor : Nat → Nat) (db db' : Database) : Prop :=
  ∀ i source s, db.watchStates.get? (i, source) = some s →
    ∃ s', db'.watchStates.get? (survivor i, source) = some s' ∧ s.AtMost s'

namespace KnowledgeKept
variable {σ τ : Nat → Nat} {db db' db'' : Database} {now : Time} {k : Nat × Nat}
  {f : Assignment WatchState.key}

theorem of_states (h : db'.watchStates = db.watchStates) : KnowledgeKept id db db' := by
  intro i source s hs
  exact ⟨s, by rw [h]; exact hs, .refl s⟩

theorem refl (db : Database) : KnowledgeKept id db db := of_states rfl

theorem trans (h : KnowledgeKept σ db db') (h' : KnowledgeKept τ db' db'') :
    KnowledgeKept (τ ∘ σ) db db'' := by
  intro i source s hs
  obtain ⟨s', hs', hle⟩ := h i source s hs
  obtain ⟨s'', hs'', hle'⟩ := h' (σ i) source s' hs'
  exact ⟨s'', hs'', hle.trans hle'⟩

theorem insert (db : Database) (s : WatchState) : KnowledgeKept id db (db.insertWatchState s) := by
  intro i source s' hs'
  refine ⟨s', ?_, .refl s'⟩
  rw [watchStates_insertWatchState]
  cases hfree : db.watchStates.get? s.key with
  | some old => rw [Table.insert_of_get?_some hfree]; exact hs'
  | none =>
    rw [Table.get?_insert_ne]
    · exact hs'
    · intro hkey
      rw [hkey, id_eq, hs'] at hfree
      cases hfree

/-- A flush of a state that loses nothing by it. -/
theorem save (hf : ∀ s, db.watchStates.get? k = some s → s.AtMost (f s)) :
    KnowledgeKept id db (db.saveWatchState now k f) := by
  intro i source s hs
  rw [id_eq, get?_saveWatchState, hs]
  refine ⟨_, rfl, ?_⟩
  dsimp only
  split
  next hchanged =>
    have hle := hf s (by rw [← hchanged.1, Table.key_of_get? hs]; exact hs)
    exact ⟨hle.completed, hle.viewCount, hle.lastPlayedAt⟩
  next => exact .refl s

theorem put (new : WatchState) (hf : ∀ s, db.watchStates.get? k = some s → s.AtMost (f s)) :
    KnowledgeKept id db (db.putWatchState now k new f) := by
  unfold putWatchState
  split
  · exact save hf
  · exact insert db _

theorem foldl {α : Type} {g : Database → α → Database} (hg : ∀ db a, KnowledgeKept id db (g db a))
    (l : List α) (db : Database) :
    KnowledgeKept id db (l.foldl g db) := by
  induction l generalizing db with
  | nil => exact refl db
  | cons a l ih => exact (hg db a).trans (ih _)

end KnowledgeKept

namespace MediaPersistenceService
variable {service : MediaPersistenceService} {item : MediaFields} {event : ExternalWatchEvent}
  {origin : EventOrigin}
  {db db' : Database}

theorem saveState_knowledge (i : Nat) (new : WatchState) {f : Assignment WatchState.key}
    (hf : ∀ s : WatchState, s.AtMost (f s)) (db : Database) :
    KnowledgeKept id db (service.saveState i new f db) := by
  unfold saveState
  split
  · exact .save fun s _ => hf s
  · exact .insert db _

theorem atMost_completeState (count : Nat) (s : WatchState) :
    s.AtMost (completeState count event s) where
  completed _ := rfl
  viewCount := le_max_left _ _
  lastPlayedAt := .latest_left _ _

theorem atMost_observeState (observedAt : Time) (s : WatchState) :
    s.AtMost (observeState item observedAt s) where
  completed h := by
    show (s.completed || _ || _) = true
    rw [h]
    rfl
  viewCount := le_max_left _ _
  lastPlayedAt := .latest_right _ _

theorem syncWatchState_knowledge (i : Nat) (observedAt : Time) (db : Database) :
    KnowledgeKept id db (service.syncWatchState i item observedAt db) := by
  unfold syncWatchState
  split
  · exact saveState_knowledge i _ (atMost_observeState observedAt) db
  · exact .refl db

theorem recordEvent_knowledge (i : Nat) (db : Database) :
    KnowledgeKept id db (service.recordEvent i event origin db) := by
  have hinserted : KnowledgeKept id db
      (db.insertWatchEvent (service.newEvent db.watchEvents.nextId i event origin)) :=
    .of_states (insertWatchEvent_frame _ .watchStates (by decide))
  have happlied : KnowledgeKept id db (service.applyEventToWatchState i event
      (db.insertWatchEvent (service.newEvent db.watchEvents.nextId i event origin))) :=
    hinserted.trans (saveState_knowledge i _ (atMost_completeState _) _)
  unfold recordEvent
  dsimp only
  split
  · exact happlied.trans (.of_states rfl)
  · exact happlied

end MediaPersistenceService

section Writes
variable {service : MediaPersistenceService} {item : MediaFields} {event : ExternalWatchEvent}
  {origin : EventOrigin}
  {db db' : Database}

theorem EventWrite.knowledge (h : EventWrite service event origin db db') :
    KnowledgeKept id db db' := by
  cases h with
  | refresh => exact .of_states (updateWatchEvents_frame _ _ .watchStates (by decide))
  | record r => exact MediaPersistenceService.recordEvent_knowledge r.mediaItemId db

theorem PlaybackWrite.knowledge (h : PlaybackWrite service item db db') :
    KnowledgeKept id db db' := by
  cases h with
  | observe r observedAt => exact MediaPersistenceService.syncWatchState_knowledge _ _ _
  | event _ _ _ h => exact h.knowledge

theorem PlaybackWrites.knowledge (h : PlaybackWrites service item db db') :
    KnowledgeKept id db db' := by
  induction h with
  | refl => exact .refl db
  | tail _ hw ih => exact ih.trans hw.knowledge

theorem MediaPersistenceService.MediaPersisted.knowledge {i : Nat}
    (h : MediaPersisted service item db i db') :
    KnowledgeKept id db db' := by
  obtain ⟨mid, hcatalog, hplayback⟩ := h.writes
  have hmid : KnowledgeKept id db mid :=
    .of_states (CatalogWrites.frame hcatalog .watchStates (by decide))
  exact hmid.trans (PlaybackWrites.knowledge hplayback)

end Writes

section Merges
variable {db db' : Database} {w l : Nat}

theorem MergeItem.knowledge (h : MergeItem w l db db') (hne : w ≠ l) :
    KnowledgeKept (mergeInto w l) db db' := by
  intro i source s hs
  rw [h.states]
  by_cases hl : i = l
  · rw [hl, mergeInto_loser, if_neg hne, if_pos rfl, ← hl, hs]
    cases hw : db.watchStates.get? (w, source) with
    | none => exact ⟨_, rfl, ⟨id, le_refl _, .refl _⟩⟩
    | some kept => exact ⟨_, rfl, .absorb_right kept s⟩
  · rw [mergeInto_of_ne hl, if_neg hl]
    by_cases hw : i = w
    · rw [if_pos hw, ← hw, hs]
      cases db.watchStates.get? (l, source) with
      | none => exact ⟨_, rfl, .refl s⟩
      | some lost => exact ⟨_, rfl, .absorb_left s lost⟩
    · rw [if_neg hw, hs]
      exact ⟨s, rfl, .refl s⟩

theorem Database.ReconcileSteps.knowledge {py : PyLib} {L G : Prop} {log : List MergeStep}
    (h : ReconcileSteps py L G db log db') :
    KnowledgeKept (survivorOf log) db db' := by
  induction h with
  | refl => exact .refl _
  | tail _ hstep ih =>
    rw [survivorOf_append]
    refine ih.trans ?_
    cases hstep with
    | merge now step hne => exact (step.before.mergeItem_spec now hne).knowledge hne
    | move now parent i =>
      exact .of_states ((Database.saveParent_spec _ now parent i).frame .watchStates (by decide))
    | recover now s s' m _ hs =>
      refine .of_states ?_
      rcases recoverItem_spec hs with heq | ⟨metadata, -, -, hids⟩
      · rw [heq]
      · exact (hids.frame .watchStates (by decide)).trans
          (updateMediaItems_frame _ _ .watchStates (by decide))
    | stale => exact .of_states rfl

end Merges

/-! ### Webhooks and propagation -/

section Propagation
variable {db db' : Database} {now : Time}

theorem persistAndEnqueueProgress_knowledge (py : PyLib) (p : ProgressUpdate) (db : Database) :
    KnowledgeKept id db (db.persistAndEnqueueProgress py p) := by
  have hassign : ∀ s : WatchState, s.AtMost (p.assign s) := by
    intro s
    unfold ProgressUpdate.assign
    dsimp only
    split
    · exact ⟨id, le_refl _, .latest_left _ _⟩
    next hc => exact ⟨fun h => absurd h hc, le_refl _, .latest_left _ _⟩
  unfold persistAndEnqueueProgress
  split
  next r _ =>
    have hput : KnowledgeKept id db
        (db.putWatchState p.now (r.mediaItemId, p.sourceId) (p.newState r.mediaItemId)
        ⟨p.assign, p.key_assign⟩) := .put _ fun s _ => hassign s
    dsimp only
    split
    · exact hput
    · exact hput.trans (.of_states rfl)
  next => exact .of_states rfl

theorem WatchSyncCandidate.atMost_assign (now : Time) (c : WatchSyncCandidate) (s : WatchState) :
    s.AtMost (c.assign now s) := by
  unfold WatchSyncCandidate.assign
  dsimp only
  split
  · exact ⟨fun _ => rfl, le_max_right _ _, .latest_left _ _⟩
  next hc =>
    split
    · exact ⟨id, le_refl _, .latest_left _ _⟩
    · exact ⟨id, le_refl _, .latest_left _ _⟩

theorem WatchSyncCandidate.atMost_assignAll (now : Time) (cs : List WatchSyncCandidate)
    (s : WatchState) :
    s.AtMost (WatchSyncCandidate.assignAll now cs s) := by
  induction cs generalizing s with
  | nil => exact .refl s
  | cons c cs ih => exact (c.atMost_assign now s).trans (ih (c.assign now s))

theorem recordSuccesses_knowledge (now : Time) (cs : List WatchSyncCandidate) (db : Database) :
    KnowledgeKept id db (db.recordSuccesses now cs) := by
  refine .foldl (fun db k => ?_) _ db
  unfold recordState
  split
  · exact .insert db _
  · exact .save fun s _ => WatchSyncCandidate.atMost_assignAll now _ s

namespace AsyncTaskExecutor
variable {inputs : ExecutionInputs} {u : WatchUpdate}

/-- Only a state that is not completed is written. -/
theorem UpdateWrite.knowledge (h : UpdateWrite now u db db') : KnowledgeKept id db db' := by
  cases h with
  | invalidate reference => exact .of_states (watchStates_saveSourceMediaRef now reference _ db)
  | put key hopen =>
    refine .put _ fun s hs => ?_
    have hs := hopen s hs
    show s.AtMost (u.assign s)
    unfold WatchUpdate.assign
    dsimp only
    split
    · exact ⟨fun _ => rfl, le_max_left _ _, .latest_left _ _⟩
    · exact ⟨fun h => absurd h (by rw [hs]; decide), le_refl _, .latest_left _ _⟩

theorem UpdateWrites.knowledge (h : UpdateWrites now u db db') : KnowledgeKept id db db' := by
  induction h with
  | refl => exact .refl db
  | tail _ hw ih => exact ih.trans hw.knowledge

theorem Recovered.persisted (h : Recovered inputs u db db') :
    db' = db ∨ ∃ (service : MediaPersistenceService) (found : ExternalMediaItem)
    (probe library : String) (i : Nat), inputs.getMediaItem u.externalId probe = .ok found ∧
    service.sourceId = u.sourceId ∧
      service.MediaPersisted (inLibrary found library).toMediaFields db i db' := by
  cases h with
  | there => exact .inl rfl
  | cataloged service found probe library result session hfound hsource hleaf hrun =>
    exact .inr ⟨service, found, probe, library, _, hfound, hsource,
      service.persistMedia_ensures (inLibrary found library) hleaf inputs.now db
        ⟨db, []⟩ result session rfl hrun⟩

theorem Recovered.knowledge (h : Recovered inputs u db db') : KnowledgeKept id db db' := by
  rcases h.persisted with rfl | ⟨service, found, probe, library, i, -, -, hpersisted⟩
  · exact .refl _
  · exact hpersisted.knowledge

theorem applyWatchUpdate_knowledge (executor : AsyncTaskExecutor) (inputs : ExecutionInputs)
    (u : WatchUpdate) (db : Database) :
    KnowledgeKept id db (executor.applyWatchUpdate inputs u db).db := by
  obtain ⟨recovered, hrecovered, hwrites⟩ := executor.applyWatchUpdate_writes inputs u db
  exact (Recovered.knowledge hrecovered).trans (UpdateWrites.knowledge hwrites)

end AsyncTaskExecutor

end Propagation

end Euvieouvi
