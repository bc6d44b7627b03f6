import Euvieouvi.Catalog.Operations

/-!
# Runs whose clocks increase

An operation stamps rows with the moments that its clocks show and gives no row another stamp
(`Before.apply`). So where the clocks of a run increase from one commit to the next, whatever was
stamped before an operation was stamped earlier, and the revision tells of the operation wherever it
stands in the run (`revision_tells_run`). The catalog may be projected at any time.
-/

namespace Euvieouvi

open Database Program

namespace Database.Before
variable {T now : Time} {db db' : Database}

/-- A write after which the rows of the tables it writes are stamped earlier, too. -/
theorem of_frame {written : List TableName} (h : db.Before T) (hframe : Frame written db db')
    (hitems : .mediaItems ∉ written ∨ ∀ m ∈ db'.mediaItems.rows, m.updatedAt < T)
    (hrefs : .sourceMediaRefs ∉ written ∨ ∀ r ∈ db'.sourceMediaRefs.rows, r.updatedAt < T ∧
      r.lastSeenAt < T)
    (himages : .mediaImages ∉ written ∨ ∀ m ∈ db'.mediaImages.rows, m.updatedAt < T)
    (hstates : .watchStates ∉ written ∨ ∀ s ∈ db'.watchStates.rows, s.updatedAt < T) :
    db'.Before T := by
  have htable : ∀ name ∉ written, db'.table name = db.table name := hframe
  refine ⟨?_, ?_, ?_, ?_⟩
  · rcases hitems with hw | hitems
    · have hitems : db'.mediaItems = db.mediaItems := htable .mediaItems hw
      exact hitems ▸ h.items
    · exact hitems
  · rcases hrefs with hw | hrefs
    · have hrefs : db'.sourceMediaRefs = db.sourceMediaRefs := htable .sourceMediaRefs hw
      exact hrefs ▸ h.references
    · exact hrefs
  · rcases himages with hw | himages
    · have himages : db'.mediaImages = db.mediaImages := htable .mediaImages hw
      exact himages ▸ h.images
    · exact himages
  · rcases hstates with hw | hstates
    · have hstates : db'.watchStates = db.watchStates := htable .watchStates hw
      exact hstates ▸ h.states
    · exact hstates

theorem untouched {written : List TableName} (h : db.Before T) (hframe : Frame written db db')
    (hw : ∀ name ∈ stampedTables, name ∉ written) : db'.Before T :=
  h.of_frame hframe (.inl (hw .mediaItems (by decide))) (.inl (hw .sourceMediaRefs (by decide)))
    (.inl (hw .mediaImages (by decide)))
    (.inl (hw .watchStates (by decide)))

theorem updateItems (h : db.Before T) (p : MediaItem → Bool) {f : Assignment MediaItem.id}
    (hf : ∀ m : MediaItem, m.updatedAt < T → (f m).updatedAt < T) :
    (db.updateMediaItems p f).Before T := by
  refine h.of_frame (updateMediaItems_frame p f) (.inr ?_) (.inl (by decide)) (.inl (by decide))
    (.inl (by decide))
  rw [mediaItems_updateMediaItems]
  exact Table.forall_update h.items hf

theorem updateReferences (h : db.Before T) (p : SourceMediaRef → Bool)
    {f : Assignment SourceMediaRef.id}
    (hf : ∀ r : SourceMediaRef, r.updatedAt < T ∧ r.lastSeenAt < T → (f r).updatedAt < T ∧
      (f r).lastSeenAt < T) :
    (db.updateSourceMediaRefs p f).Before T := by
  refine h.of_frame (updateSourceMediaRefs_frame p f) (.inl (by decide)) (.inr ?_)
    (.inl (by decide)) (.inl (by decide))
  rw [sourceMediaRefs_updateSourceMediaRefs]
  exact Table.forall_update h.references hf

theorem writeImages (h : db.Before T) {images : Table MediaImage.id}
    (himages : ∀ m ∈ images.rows, m.updatedAt < T) :
    { db with mediaImages := images }.Before T :=
  ⟨h.items, h.references, himages, h.states⟩

theorem forall_rekeyWatchStates {p : WatchState → Bool} {f : WatchState → WatchState}
    {P : WatchState → Prop}
    (h : ∀ s ∈ db.watchStates.rows, P s) (hf : ∀ s, P s → P (f s)) :
    ∀ s ∈ (db.rekeyWatchStates p f).watchStates.rows, P s := by
  cases ht : db.watchStates.rekey? p f with
  | none =>
    unfold rekeyWatchStates
    rw [ht]
    exact h
  | some t =>
    rw [watchStates_rekeyWatchStates ht]
    intro s hs
    obtain ⟨s₀, hs₀, rfl⟩ := (Table.mem_rekey? ht).1 hs
    split
    exacts [hf s₀ (h s₀ hs₀), h s₀ hs₀]

section Merges
variable {w l : Nat}

theorem moveMetadata (h : db.Before T) (w l : Nat) : (db.moveMetadata w l).Before T := by
  refine h.of_frame (db.moveMetadata_frame w l) (.inl (by decide)) (.inl (by decide)) (.inr ?_)
    (.inl (by decide))
  have himages : (db.moveMediaIdentifiers w l).mediaImages = db.mediaImages :=
    ((deleteMediaIdentifiers_frame _).trans (updateMediaIdentifiers_frame _ _) :
      Frame [.mediaIdentifiers] db _) .mediaImages (by decide)
  unfold Database.moveMetadata
  dsimp only
  rw [himages]
  unfold Table.moveRows
  refine Table.forall_update (fun m hm => ?_) fun _ => id
  exact h.images m (Table.mem_delete.1 hm).1

theorem mergeWatchStates (h : db.Before T) (w l : Nat) : (db.mergeWatchStates w l).Before T := by
  refine h.of_frame (db.mergeWatchStates_frame w l) (.inl (by decide)) (.inl (by decide))
    (.inl (by decide)) (.inr ?_)
  have hkept : ∀ s ∈ (db.keptStates w l).rows, s.updatedAt < T := by
    intro s hs
    refine Table.forall_update h.states (fun s hs => ?_) s (Table.mem_delete.1 hs).1
    show (((db.watchStates.get? (l, s.sourceId)).map s.absorb).getD s).updatedAt < T
    cases db.watchStates.get? (l, s.sourceId) with
    | none => exact hs
    | some lost => exact hs
  unfold Database.mergeWatchStates repointWatchStates
  dsimp only
  refine forall_rekeyWatchStates (fun s hs => ?_) fun _ => id
  simp only [watchStates_deleteWatchStates, watchStates_updateWatchStates] at hs
  exact hkept s hs

theorem deleteMediaItem (h : db.Before T) (l : Nat) : (db.deleteMediaItem l).Before T := by
  refine h.of_frame (db.deleteMediaItem_frame l) (.inr ?_) (.inl (by decide)) (.inr ?_)
    (.inl (by decide))
  · rw [mediaItems_deleteMediaItem]
    split
    exacts [fun m hm => h.items m (Table.mem_delete.1 hm).1, h.items]
  · unfold Database.deleteMediaItem
    split
    exacts [fun m hm => h.images m (Table.mem_delete.1 hm).1, h.images]

theorem mergeItem (h : db.Before T) (hT : now < T) (w l : Nat) :
    (db.mergeItem now w l).Before T := by
  unfold Database.mergeItem
  have hfill : (db.fillMissing now w l).Before T := by
    unfold Database.fillMissing
    split
    exacts [h.updateItems _ fun _ _ => hT, h]
  generalize db.fillMissing now w l = d₁ at hfill ⊢
  have hdrop := hfill.untouched (d₁.dropContradictedIdentifiers_frame w l) (by decide)
  have hstates := (hdrop.moveMetadata w l).mergeWatchStates w l
  generalize ((d₁.dropContradictedIdentifiers w l).moveMetadata w l).mergeWatchStates w l =
    d₂ at hstates ⊢
  have hevents : (d₂.moveWatchEvents w l).Before T :=
    hstates.untouched (updateWatchEvents_frame _ _) (by decide)
  have hrefs : ((d₂.moveWatchEvents w l).moveReferences w l).Before T :=
    hevents.updateReferences _ fun _ => id
  exact deleteMediaItem (hrefs.updateItems _ fun _ => id) l

end Merges

/-- Statements at an earlier moment. -/
theorem statements (hT : now < T) : StatementInvariant now (· < T) (Before T) where
  untouched hframe hw h := h.untouched hframe hw
  insertItem hstamp h := by
    refine h.of_frame (insertMediaItem_frame _) (.inr ?_) (.inl (by decide)) (.inl (by decide))
      (.inl (by decide))
    rw [mediaItems_insertMediaItem]
    exact Table.forall_insert h.items (hstamp ▸ hT)
  saveItem _ _ h := h.updateItems _ fun _ _ => hT
  insertReference _ _ hstamp hseen h := by
    refine h.of_frame (insertSourceMediaRef_frame _) (.inl (by decide)) (.inr ?_) (.inl (by decide))
      (.inl (by decide))
    rw [sourceMediaRefs_insertSourceMediaRef]
    exact Table.forall_insert h.references ⟨hstamp ▸ hT, hseen⟩
  saveReference _ _ hf h := h.updateReferences _ fun r _ => ⟨hT, (hf r).2.2⟩
  insertImage hstamp h := h.writeImages (Table.forall_insert h.images (hstamp ▸ hT))
  updateImages _ _ hf h := h.writeImages (Table.forall_update h.images fun m _ => (hf m) ▸ hT)
  insertState hstamp h := by
    refine h.of_frame (insertWatchState_frame _) (.inl (by decide)) (.inl (by decide))
      (.inl (by decide)) (.inr ?_)
    rw [watchStates_insertWatchState]
    exact Table.forall_insert h.states (hstamp ▸ hT)
  saveState k f h := by
    refine h.of_frame (updateWatchStates_frame _ _) (.inl (by decide)) (.inl (by decide))
      (.inl (by decide)) (.inr ?_)
    unfold saveWatchState
    rw [watchStates_updateWatchStates]
    exact Table.forall_update h.states fun _ _ => hT
  merge w l h := h.mergeItem hT w l

end Database.Before

/-! ### Operations -/

theorem StatementInvariant.keeps_persistHistoryPage {seen : Time → Prop} {I : Database → Prop}
    (service : MediaPersistenceService)
    (hI : StatementInvariant service.now seen I) (events : List ExternalWatchEvent) :
    Keeps I (service.persistHistoryPage events) :=
  .forM events fun _ => .bind (.attempt (hI.keeps_persistEvent service _ _)) fun _ => .pure _

section Operations
variable {T now : Time} {db db' : Database}

theorem before_putWatchState (h : db.Before T) (hT : now < T) (k : Nat × Nat) {new : WatchState}
    {f : Assignment WatchState.key}
    (hnew : (f new).updatedAt = now) : (db.putWatchState now k new f).Before T := by
  unfold putWatchState
  split
  exacts [(Before.statements hT).saveState k f h, (Before.statements hT).insertState hnew h]

theorem before_progress (py : PyLib) {p : ProgressUpdate} (h : db.Before T) (hT : p.now < T) :
    (db.persistAndEnqueueProgress py p).Before T := by
  have hput : ∀ item, (db.putWatchState p.now (item, p.sourceId) (p.newState item)
      ⟨p.assign, p.key_assign⟩).Before T := by
    refine fun item => before_putWatchState h hT _ ?_
    show (p.assign (p.newState item)).updatedAt = p.now
    unfold ProgressUpdate.assign
    split <;> rfl
  unfold persistAndEnqueueProgress
  split
  · dsimp only
    split
    exacts [hput _, (hput _).untouched (writeAsyncTasks_frame _) (by decide)]
  · exact h.untouched (writeAsyncTasks_frame _) (by decide)

theorem before_applyWatchUpdate (executor : AsyncTaskExecutor) {inputs : ExecutionInputs}
    (u : WatchUpdate) (h : db.Before T)
    (hT : inputs.now < T) : (executor.applyWatchUpdate inputs u db).db.Before T := by
  rcases executor.applyWatchUpdate_origin inputs u db with heq | ⟨origin, -, hwrites⟩
  · rwa [heq]
  have horigin : (executor.originReference inputs origin u db).1.Before T := by
    rcases executor.originReference_persists inputs origin u db with heq | ⟨service, item, result,
      session, hnow, hrun, heq⟩
    · rwa [heq]
    · rw [heq]
      exact (Before.statements (hnow ▸ hT)).keeps_persistMedia service item hT
        ⟨db, []⟩ result session h hrun
  generalize (executor.applyWatchUpdate inputs u db).db = written at hwrites ⊢
  induction hwrites with
  | refl => exact horigin
  | tail _ hw ih =>
    cases hw with
    | invalidate => exact ih.updateReferences _ fun _ hr => ⟨hT, hr.2⟩
    | put key =>
      refine before_putWatchState ih hT key ?_
      show (u.assign (u.newState inputs.now key)).updatedAt = inputs.now
      unfold WatchUpdate.assign
      dsimp only
      split <;> rfl

theorem before_recordSuccesses (cs : List WatchSyncCandidate) (h : db.Before T) (hT : now < T) :
    (db.recordSuccesses now cs).Before T := by
  refine List.foldlRecOn _ _ h fun db hdb k _ => ?_
  unfold recordState
  split
  next c rest _ _ =>
    exact (Before.statements hT).insertState (WatchSyncCandidate.updatedAt_assignAll now rest _) hdb
  next => exact (Before.statements hT).saveState k _ hdb

theorem before_invalidateReference (reference : Nat) (h : db.Before T) (hT : now < T) :
    (db.invalidateReference now reference).1.Before T := by
  unfold invalidateReference
  split
  · split
    exacts [h.updateReferences _ fun _ hr => ⟨hT, hr.2⟩, h]
  · exact h

theorem before_ensureCatalogProjection (py : PyLib) (lookedAt : Time) (h : db.Before T) :
    (db.ensureCatalogProjection py lookedAt).2.Before T := by
  unfold ensureCatalogProjection refreshCatalogActivity
  dsimp only
  split_ifs <;> exact ⟨h.items, h.references, h.images, h.states⟩

end Operations

namespace CatalogOperation
variable {T : Time} {db : Database}

/-- The moments that the operation gives to rows. -/
def stamps : CatalogOperation → List Time
  | page service _ items => service.now :: items.flatMap fun x => [x.observedAt, x.retriedAt]
  | event service _ _ _ | historyPage service _ _ | containers service _ => [service.now]
  | progress _ p => [p.now]
  | watchUpdate _ inputs _ => [inputs.now]
  | sweep l => [l.flushedAt]
  | recordSuccesses now _ | invalidate now _ | reconcile _ now _ => [now]

theorem stamps_ne_nil (op : CatalogOperation) : op.stamps ≠ [] := by
  cases op <;> exact List.cons_ne_nil _ _

theorem late_of_stamps {op : CatalogOperation} (h : ∀ t ∈ op.stamps, T ≤ t) : op.Late T := by
  cases op with
  | page service cache items =>
    refine ⟨h _ List.mem_cons_self, fun x hx => ⟨h _ ?_, h _ ?_⟩⟩
    · exact List.mem_cons_of_mem _ (List.mem_flatMap.2 ⟨x, hx, List.mem_cons_self⟩)
    · exact List.mem_cons_of_mem _
        (List.mem_flatMap.2 ⟨x, hx, List.mem_cons_of_mem _ List.mem_cons_self⟩)
  | _ => exact h _ List.mem_cons_self

/-- Whatever an operation stamps, it stamps with its own moments. -/
theorem before_apply (h : db.Before T) {op : CatalogOperation} (hearly : ∀ t ∈ op.stamps, t < T) :
    (op.apply db).Before T := by
  cases op with
  | page service cache items =>
    refine ((Before.statements (hearly service.now List.mem_cons_self)).keeps_persistMediaPage
      service items ?_).commit cache h
    refine fun x hx => ⟨hearly _ ?_, hearly _ ?_⟩
    · exact List.mem_cons_of_mem _ (List.mem_flatMap.2 ⟨x, hx, List.mem_cons_self⟩)
    · exact List.mem_cons_of_mem _
        (List.mem_flatMap.2 ⟨x, hx, List.mem_cons_of_mem _ List.mem_cons_self⟩)
  | event service cache watched origin =>
    exact ((Before.statements (hearly service.now List.mem_cons_self)).keeps_persistEvent service
      watched origin).commit cache h
  | historyPage service cache events =>
    exact ((Before.statements (hearly service.now List.mem_cons_self)).keeps_persistHistoryPage
      service events).commit cache h
  | progress py p => exact before_progress py h (hearly p.now List.mem_cons_self)
  | watchUpdate executor inputs u =>
    exact before_applyWatchUpdate executor u h (hearly inputs.now List.mem_cons_self)
  | recordSuccesses now cs => exact before_recordSuccesses cs h (hearly now List.mem_cons_self)
  | containers service observedAt =>
    refine List.foldlRecOn _ _ h fun db hdb group _ => ?_
    exact (Before.statements (hearly service.now List.mem_cons_self)).keeps_saveState
      service _ rfl hdb
  | sweep l => exact h.updateReferences _ fun _ hr => ⟨hearly l.flushedAt List.mem_cons_self, hr.2⟩
  | invalidate now reference =>
    exact before_invalidateReference reference h (hearly now List.mem_cons_self)
  | reconcile py now call =>
    exact (Before.statements (hearly now List.mem_cons_self)).reconcile h py call

end CatalogOperation

inductive RevisionStep
  | commit (op : CatalogOperation)
  | project (py : PyLib) (now : Time)

namespace RevisionStep
variable {T : Time} {db : Database} {steps : List RevisionStep}

def apply (db : Database) : RevisionStep → Database
  | commit op => op.apply db
  | project py now => (db.ensureCatalogProjection py now).2

def stamps : RevisionStep → List Time
  | commit op => op.stamps
  | project _ _ => []

/-- The clocks of the later step show more. -/
def Precedes (step later : RevisionStep) : Prop := ∀ t ∈ step.stamps, ∀ t' ∈ later.stamps, t < t'

theorem before_run (h : db.Before T) (hearly : ∀ step ∈ steps, ∀ t ∈ step.stamps, t < T) :
    (steps.foldl apply db).Before T := by
  refine List.foldlRecOn _ _ h fun db hdb step hstep => ?_
  cases step with
  | commit op => exact CatalogOperation.before_apply hdb (hearly _ hstep)
  | project py now => exact before_ensureCatalogProjection py now hdb

/-- In every run whose clocks increase, from a database that was stamped before all of them: where
an operation that tells of itself changes the list of entries, or a figure of one, the revision is
another one than before it. -/
theorem revision_tells_run (py : PyLib) {op : CatalogOperation}
    (hclocks : (steps ++ [commit op]).Pairwise Precedes)
    (hbefore : ∀ t ∈ op.stamps, db.Before t) (htells : op.Tells (steps.foldl apply db))
    (shownAt lookedAt : Time)
    (hchanged :
      ((op.apply (steps.foldl apply db)).ensureCatalogProjection py lookedAt).2.shownEntries ≠
      ((steps.foldl apply db).ensureCatalogProjection py shownAt).2.shownEntries) :
    (op.apply (steps.foldl apply db)).catalogRevisionValue ≠
      (steps.foldl apply db).catalogRevisionValue := by
  obtain ⟨T, hT⟩ := Option.isSome_iff_exists.1 (List.isSome_min?_of_ne_nil op.stamps_ne_nil)
  obtain ⟨hmem, hleast⟩ := List.min?_eq_some_iff.1 hT
  have hearly : ∀ step ∈ steps, ∀ t ∈ step.stamps, t < T := fun step hstep t ht =>
    (List.pairwise_append.1 hclocks).2.2 step hstep (commit op) List.mem_cons_self t ht T hmem
  exact CatalogOperation.revision_tells py (before_run (hbefore T hmem) hearly)
    (CatalogOperation.late_of_stamps hleast) htells
    shownAt lookedAt hchanged

section Example

def filmEvent : ExternalWatchEvent where
  mediaExternalId := "a"
  libraryExternalId := "1"
  watchedAt := 2
  completed := true

def synchronizing : MediaPersistenceService := { plainService 1 with now := 3 }

/-- The first film is played, and then the second one on its own server. -/
def firstPlay : List RevisionStep :=
  [commit (.event synchronizing [] filmEvent .synchronization), project .plain 4]

def secondPlay : CatalogOperation :=
  .event { plainService 2 with now := 5 }
    [] { filmEvent with mediaExternalId := "b", watchedAt := 4 } .synchronization

theorem revision_tells_second_play :
    (secondPlay.apply
      (firstPlay.foldl apply CatalogOperation.sharedFileCatalog)).catalogRevisionValue ≠
      (firstPlay.foldl apply CatalogOperation.sharedFileCatalog).catalogRevisionValue := by
  refine revision_tells_run .plain ?_ ?_ ?_ 6 7 (by decide +kernel)
  · simp [firstPlay, secondPlay, Precedes, stamps, CatalogOperation.stamps, synchronizing]
  · intro t ht
    obtain rfl := List.mem_singleton.1 ht
    exact ⟨by decide, by decide, by decide, by decide⟩
  · intro existing r _ _ hknown
    -- the event has no id at its source
    cases hknown

end Example

end RevisionStep

end Euvieouvi
