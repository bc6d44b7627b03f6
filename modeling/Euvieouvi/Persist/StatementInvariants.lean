import Euvieouvi.Persist.Failures
import Euvieouvi.Persist.References
import Euvieouvi.Reconcile.Calls

/-!
# Invariants of the statements

What a page writes to items, references, images and states are rows that it adds and assignments
that it flushes, all of them at `now`, and merges. An invariant that each of these statements keeps,
and whatever leaves the four tables, every call keeps (`keeps_persistMediaPage`, `reconcile`).
-/

namespace Euvieouvi

open Database Program

/-- The tables whose rows the flushes stamp. -/
abbrev Database.stampedTables : List Database.TableName :=
  [.mediaItems, .sourceMediaRefs, .mediaImages, .watchStates]

/-- The statements at `now` keep it; `seen` is what the clock of a scan may show. -/
structure StatementInvariant (now : Time) (seen : Time → Prop) (I : Database → Prop) : Prop where
  untouched : ∀ {db db' : Database} {written : List TableName}, Frame written db db' →
    (∀ name ∈ stampedTables, name ∉ written) →
    I db → I db'
  insertItem : ∀ {db : Database} {m : MediaItem}, m.updatedAt = now → I db →
    I (db.insertMediaItem m)
  saveItem : ∀ {db : Database} (i : Nat) (f : Assignment MediaItem.id), I db →
    I (db.saveMediaItem now i f)
  insertReference : ∀ {db : Database} {r : SourceMediaRef}, r.available = true →
    r.unavailableSince = none → r.updatedAt = now →
    seen r.lastSeenAt → I db → I (db.insertSourceMediaRef r)
  saveReference : ∀ {db : Database} (i : Nat) (f : Assignment SourceMediaRef.id),
    (∀ r : SourceMediaRef, (f r).available = true ∧ (f r).unavailableSince = none ∧
      seen (f r).lastSeenAt) → I db →
      I (db.saveSourceMediaRef now i f)
  insertImage : ∀ {db : Database} {m : MediaImage}, m.updatedAt = now → I db →
    I { db with mediaImages := db.mediaImages.insert m }
  updateImages : ∀ {db : Database} (p : MediaImage → Bool) (f : Assignment MediaImage.id),
    (∀ m : MediaImage, (f m).updatedAt = now) → I db →
      I { db with mediaImages := db.mediaImages.update p f }
  insertState : ∀ {db : Database} {s : WatchState}, s.updatedAt = now → I db →
    I (db.insertWatchState s)
  saveState : ∀ {db : Database} (k : Nat × Nat) (f : Assignment WatchState.key), I db →
    I (db.saveWatchState now k f)
  merge : ∀ {db : Database} (w l : Nat), I db → I (db.mergeItem now w l)

/-- A program that only reads. -/
theorem keeps_of_reads {I : Database → Prop} {α : Type} {p : Persist α}
    {F : α → Database → Database → Prop}
    (h : ∀ db, p.Ensures (· = db) fun a db' => db' = db ∧ F a db db') : Keeps I p :=
  .of_ensures h fun db _ db' h hdb => by
    rw [h.1]
    exact hdb

theorem keeps_reconciled {I : Database → Prop} {call : Database → Database × List MergeStep}
    (hcall : ∀ db, I db → I (call db).1) :
    Keeps I (reconciled call) :=
  fun s _ _ hs hr => by
    cases hr
    exact hcall s.store hs

namespace StatementInvariant
variable {I : Database → Prop} {seen : Time → Prop} {now observedAt : Time}

section Merges
variable (hI : StatementInvariant now seen I)
include hI

theorem respects : RespectsLog now fun db _ db' => I db → I db' where
  refl _ := id
  trans h h' := h' ∘ h
  merge step := hI.merge step.winner step.loser
  move _ _ i := hI.saveItem i _
  stale db := hI.untouched (show Frame [] db db.markProjectionStale from fun name _ => by
    cases name <;> rfl) (by decide)

theorem recoverItem {py : PyLib} {s s' : Recovery} {m : MediaItem}
    (hs : Database.recoverItem py now s m = some s') (h : I s.db) : I s'.db := by
  rcases recoverItem_spec hs with heq | ⟨metadata, -, -, hids⟩
  · rwa [heq]
  · exact hI.untouched hids.frame (by decide) (hI.saveItem m.id _ h)

/-- Every entry point of the reconciliation. -/
theorem reconcile {db : Database} (h : I db) (py : PyLib) (call : ReconcileCall) :
    I (call.apply py now db) := by
  cases call with
  | catalog dryRun =>
    show I (((db.reconcileCatalog py now dryRun).map (·.2.1)).getD db)
    rcases hcall : db.reconcileCatalog py now dryRun with - | ⟨result, d, log⟩
    · exact h
    · cases dryRun with
      | false => exact hI.respects.reconcileCatalog (fun _ _ _ => hI.recoverItem) hcall h
      | true =>
        -- a dry run is rolled back
        obtain ⟨recovery, -, hresult⟩ := Option.map_eq_some_iff.1 hcall
        obtain rfl : db = d := congrArg (fun r => r.2.1) hresult
        exact h
  | matching kind identifiers preferred =>
    exact hI.respects.reconcileMatchingItems kind identifiers preferred db h
  | physical item => exact hI.respects.reconcilePhysicalItem item db h
  | confirmed ids =>
    dsimp only [ReconcileCall.apply]
    rcases hcall : db.mergeConfirmedItems now ids with - | ⟨d, log⟩
    · exact h
    · exact hI.respects.mergeConfirmedItems hcall h

end Merges

open MediaPersistenceService

variable (service : MediaPersistenceService) (hI : StatementInvariant service.now seen I)
include hI

/-! ### Listings -/

theorem keeps_untouched (written : List TableName) {g : Database → Database}
    (h : ∀ db, Frame written db (g db))
    (hw : ∀ name ∈ stampedTables, name ∉ written) : Keeps I (Program.write g : Persist Unit) :=
  .write fun db => hI.untouched (h db) hw

theorem keeps_saveItem (i : Nat) (f : Assignment MediaItem.id) :
    Keeps I (Program.write (·.saveMediaItem service.now i f) : Persist Unit) :=
  .write fun _ => hI.saveItem i f

theorem keeps_updateMedia (item : MediaFields) (parent : Option Nat) (i : Nat) {db : Database}
    (h : I db) :
    I (service.updateMedia item parent i db) := by
  unfold updateMedia
  split
  exacts [hI.saveItem _ _ h, h]

theorem keeps_syncImage (i : Nat) (imageType : String) (path : Option String) {db : Database}
    (h : I db) :
    I (service.syncImage i imageType path db) := by
  unfold syncImage
  split
  · exact h
  · split
    · exact h
    · dsimp only
      split
      · exact hI.insertImage rfl h
      · split_ifs
        exacts [h, hI.updateImages _ _ (fun _ => rfl) h, h]

theorem keeps_mergeGenres (i : Nat) (names : List String) :
    Keeps I (Program.write (service.mergeGenres i names) : Persist Unit) :=
  hI.keeps_untouched service genreTables
    (fun db => service.mergeGenres_genres i db names) (by decide)

theorem keeps_addReference {r : SourceMediaRef}
    (hr : r.available = true ∧ r.unavailableSince = none ∧ r.updatedAt = service.now)
    (hseen : seen r.lastSeenAt) : Keeps I (addReference r) := by
  refine .bind (.read _) fun taken => .ite (.fail _) (.bind (.read _) fun id => ?_)
  refine .bind (.write fun db hdb => ?_) fun _ => .pure _
  exact hI.insertReference hr.1 hr.2.1 hr.2.2 hseen hdb

theorem keeps_touchReference (r : SourceMediaRef) (hseen : seen observedAt) :
    Keeps I (service.touchReference r observedAt) :=
  .write fun _ hdb => hI.saveReference _ _ (fun _ => ⟨rfl, rfl, hseen⟩) hdb

theorem keeps_syncIdentifierValues (i : Nat) (identifiers : List ExternalIdentifier) :
    Keeps I (service.syncIdentifierValues i identifiers) := by
  refine .of_ensures (fun db => service.syncIdentifierValues_ensures i identifiers)
    fun db _ db' h hdb => ?_
  rcases h with rfl | ⟨-, h⟩
  · exact hdb
  · exact hI.untouched h.frame (by decide) hdb

theorem keeps_bindExistingContainer (i : Nat) (externalId : String) (path : Option String)
    (genres : List String)
    (hseen : seen observedAt) :
    Keeps I (service.bindExistingContainer i externalId path genres observedAt) := by
  refine .bind (.bind (.read _) fun known => ?_) fun _ => ?_
  · split
    next r => exact .ite (.fail _) (hI.keeps_touchReference service r hseen)
    next => exact .bind (hI.keeps_addReference service ⟨rfl, rfl, rfl⟩ hseen) fun _ => .pure _
  · exact .bind (.write fun _ => hI.keeps_syncImage service i _ _) fun _ =>
      hI.keeps_mergeGenres service i _

theorem keeps_ensureKnownContainer (c : Container) (r : SourceMediaRef) (hseen : seen observedAt) :
    Keeps I (service.ensureKnownContainer c r observedAt) := by
  refine .bind (hI.keeps_touchReference service r hseen) fun _ =>
    .bind (keeps_requiredMedia _) fun media => ?_
  refine .ite (.fail _)
    (.bind (.write fun _ => hI.keeps_syncImage service media.id _ _) fun _ => ?_)
  refine .bind (hI.keeps_untouched service genreTables (fun db => ?_) (by decide)) fun _ => ?_
  · split
    exacts [.refl db, service.mergeGenres_genres media.id db _]
  · exact .bind (hI.keeps_syncIdentifierValues service _ _) fun _ => .pure _

theorem keeps_createContainer (c : Container) (hseen : seen observedAt) :
    Keeps I (service.createContainer c observedAt) := by
  refine .bind (.read _) fun id => .bind (.write fun _ => hI.insertItem rfl) fun _ => ?_
  refine .bind (hI.keeps_addReference service ⟨rfl, rfl, rfl⟩ hseen) fun _ => ?_
  refine .bind (.write fun _ => hI.keeps_syncImage service id _ _) fun _ => ?_
  refine .bind (hI.keeps_mergeGenres service id _) fun _ => ?_
  exact .bind (hI.keeps_syncIdentifierValues service _ _) fun _ => .pure _

theorem keeps_ensureContainer (c : Container) (hseen : seen observedAt) :
    Keeps I (service.ensureContainer c observedAt) := by
  refine .bind (.read _) fun known => ?_
  split
  next r => exact hI.keeps_ensureKnownContainer service c r hseen
  next =>
    refine .bind (keeps_of_reads (service.matchContainer_ensures c)) fun found => ?_
    split
    · exact .bind (hI.keeps_bindExistingContainer service _ _ _ _ hseen) fun _ =>
        .bind (hI.keeps_syncIdentifierValues service _ _) fun _ => .pure _
    · exact hI.keeps_createContainer service c hseen

theorem keeps_bindExistingEpisodeHierarchy (item : MediaFields) (e : EpisodeFields)
    (episode : MediaItem) (hseen : seen observedAt) :
    Keeps I (service.bindExistingEpisodeHierarchy item e episode observedAt) := by
  refine .bind (keeps_requiredMedia _) fun season => .bind (keeps_requiredMedia _) fun «show» =>
    .ite (.fail _) ?_
  refine .bind (.write fun db hdb => ?_) fun _ => ?_
  · split
    exacts [hI.saveItem _ _ hdb, hdb]
  · exact .bind (hI.keeps_bindExistingContainer service _ _ _ _ hseen) fun _ =>
      .bind (hI.keeps_bindExistingContainer service _ _ _ _ hseen) fun _ => .pure _

theorem keeps_ensureKnownAlbum (item : MediaFields) (t : TrackFields) (r : SourceMediaRef)
    (hseen : seen observedAt) :
    Keeps I (service.ensureKnownAlbum item t r observedAt) := by
  refine .bind (hI.keeps_touchReference service r hseen) fun _ =>
    .bind (keeps_requiredMedia _) fun album => .ite (.fail _) ?_
  refine .bind (hI.keeps_saveItem service _ _) fun _ =>
    .bind (.write fun _ => hI.keeps_syncImage service album.id _ _) fun _ => ?_
  exact .bind (hI.keeps_mergeGenres service album.id _) fun _ => .pure _

theorem keeps_ensureHierarchy (item : MediaFields) (hseen : seen observedAt)
    (matched : Option MediaItem) :
    Keeps I (service.ensureHierarchy item observedAt matched) := by
  unfold ensureHierarchy
  split
  next t _ =>
    refine .bind (.bind (.read _) fun known => ?_) fun _ => .pure _
    split
    next r => exact hI.keeps_ensureKnownAlbum service item t r hseen
    next =>
      exact .bind (hI.keeps_ensureContainer service _ hseen) fun _ =>
        hI.keeps_ensureContainer service _ hseen
  next e episode _ _ =>
    exact .bind (hI.keeps_bindExistingEpisodeHierarchy service item e episode hseen)
      fun _ => .pure _
  next e _ _ =>
    refine .bind (.bind (hI.keeps_ensureContainer service _ hseen) fun _ => ?_) fun _ => .pure _
    exact hI.keeps_ensureContainer service _ hseen
  next => exact .pure _

theorem keeps_writeShowMetadata (metadata : ShowMetadata) (i : Nat) {db : Database} (h : I db) :
    I (service.writeShowMetadata metadata i db) := by
  unfold writeShowMetadata
  dsimp only
  refine hI.keeps_syncImage service i _ _ (hI.keeps_syncImage service i _ _ ?_)
  split
  · exact hI.saveItem i _ h
  · exact hI.untouched (service.syncGenres_genres i _ _) (by decide) (hI.saveItem i _ h)

theorem keeps_syncShowMetadata (item : ExternalMediaItem) (parent : Option Nat) :
    Keeps I (service.syncShowMetadata item parent) := by
  unfold syncShowMetadata
  split
  next metadata _ _ _ _ =>
    refine .ite (.fail _)
      (.bind (keeps_requiredMedia _) fun season => .bind (keeps_requiredMedia _) fun «show» => ?_)
    refine .bind (.cached _) fun known =>
      .ite (.pure _) (.bind (.enter _) fun _ => .bind (.read _) fun open? => ?_)
    exact .ite (.write fun _ => hI.keeps_writeShowMetadata service _ «show».id) (.pure _)
  next => exact .pure _

theorem keeps_storeMedia (item : MediaFields) (hseen : seen observedAt)
    (known : Option SourceMediaRef) (matched : Option MediaItem)
    (parent : Option Nat) : Keeps I (service.storeMedia item observedAt known matched parent) := by
  unfold storeMedia
  split
  · unfold addMedia
    split
    next media =>
      refine .bind (.write fun _ => hI.keeps_updateMedia service item parent media.id) fun _ => ?_
      exact .bind (hI.keeps_addReference service ⟨rfl, rfl, rfl⟩ hseen) fun _ => .pure _
    next =>
      refine .bind (.read _) fun id => .bind (.write fun _ => hI.insertItem rfl) fun _ => ?_
      exact .bind (hI.keeps_addReference service ⟨rfl, rfl, rfl⟩ hseen) fun _ => .pure _
  next r =>
    refine .bind (keeps_requiredMedia _) fun media => .bind (.write fun db hdb => ?_) fun _ => ?_
    · split
      exacts [hdb, hI.keeps_updateMedia service item parent media.id hdb]
    · exact .bind (.write fun _ hdb => hI.saveReference _ _ (fun _ => ⟨rfl, rfl, hseen⟩) hdb)
        fun _ => .pure _

theorem keeps_persistDetails (item : MediaFields) (persisted : Persisted) :
    Keeps I (service.persistDetails item persisted) := by
  refine .bind (hI.keeps_untouched service [.mediaFilePaths] (fun db => ?_) (by decide)) fun _ => ?_
  · split
    exacts [.refl db, savePaths_frame _ _ db]
  refine .bind (hI.keeps_syncIdentifierValues service persisted.media item.identifiers) fun _ => ?_
  refine .bind (hI.keeps_untouched service genreTables (fun db => ?_) (by decide)) fun _ => ?_
  · split
    exacts [service.syncGenres_genres persisted.media db _, .refl db]
  exact .bind (.write fun _ => hI.keeps_syncImage service persisted.media _ _) fun _ =>
    .write fun _ => hI.keeps_syncImage service persisted.media _ _

theorem keeps_saveState (i : Nat) {new : WatchState} {f : Assignment WatchState.key}
    (hnew : (f new).updatedAt = service.now)
    {db : Database} (h : I db) : I (service.saveState i new f db) := by
  unfold MediaPersistenceService.saveState
  split
  exacts [hI.saveState _ _ h, hI.insertState hnew h]

theorem keeps_recordEvent (i : Nat) (event : ExternalWatchEvent) (origin : EventOrigin)
    {db : Database} (h : I db) :
    I (service.recordEvent i event origin db) := by
  have happlied : I (service.applyEventToWatchState i event
      (db.insertWatchEvent (service.newEvent db.watchEvents.nextId i event origin))) :=
    hI.keeps_saveState service i rfl (hI.untouched (insertWatchEvent_frame _) (by decide) h)
  unfold recordEvent
  dsimp only
  split
  exacts [hI.untouched (writeAsyncTasks_frame _) (by decide) happlied, happlied]

theorem keeps_persistEvent (event : ExternalWatchEvent) (origin : EventOrigin) :
    Keeps I (service.persistEvent event origin) := by
  refine .of_ensures (service.persistEvent_ensures event origin) fun db _ db' h hdb => ?_
  rcases h with rfl | h
  · exact hdb
  · cases h with
    | refresh existing => exact hI.untouched (updateWatchEvents_frame _ _) (by decide) hdb
    | record r => exact hI.keeps_recordEvent service r.mediaItemId event origin hdb

theorem keeps_persistPlayback (item : MediaFields) (observedAt : Time) (persisted : Persisted) :
    Keeps I (service.persistPlayback item observedAt persisted) := by
  refine .bind (.bind (.read _) fun pending => .forM pending fun w => ?_) fun _ =>
    .bind (.read _) fun regression => ?_
  · exact .bind (hI.keeps_persistEvent service _ _) fun _ => .pure _
  refine .bind (.write fun db hdb => ?_) fun _ => .bind ?_ fun _ => .pure _
  · unfold syncWatchState
    split
    exacts [hI.keeps_saveState service _ rfl hdb, hdb]
  · unfold persistStateEvent
    split
    exacts [hI.keeps_persistEvent service _ _, .pure _]

theorem keeps_persistMedia (item : ExternalMediaItem) (hseen : seen observedAt) :
    Keeps I (service.persistMedia item observedAt) := by
  refine .bind (.read _) fun known => .bind ?_ fun matched => ?_
  · refine .of_ensures (fun db => service.matchMedia_ensures known db) fun db _ db' h hdb => ?_
    rw [h.1.1]
    exact hdb
  refine .bind (hI.keeps_ensureHierarchy service _ hseen matched) fun parent => ?_
  refine .bind (hI.keeps_syncShowMetadata service item parent) fun _ => ?_
  refine .bind (hI.keeps_storeMedia service _ hseen known matched parent) fun persisted => ?_
  exact .bind (hI.keeps_persistDetails service _ persisted) fun _ =>
    hI.keeps_persistPlayback service _ observedAt persisted

theorem keeps_reconcileIdentityOnce (kind : MediaKind) (identifiers : List ExternalIdentifier) :
    Keeps I (service.reconcileIdentityOnce kind identifiers) := by
  refine .ite (.pure _)
    (.bind (.cached _) fun known => .ite (.pure _) (.bind (.enter _) fun _ => ?_))
  exact keeps_reconciled fun db => hI.respects.reconcileMatchingItems kind identifiers none db

theorem keeps_reconcilePersistedItem (item : MediaFields) (includeLeaf : Bool) :
    Keeps I (service.reconcilePersistedItem item includeLeaf) := by
  refine .bind (.ite (hI.keeps_reconcileIdentityOnce service _ _) (.pure _)) fun leaf => ?_
  exact .bind (.ite (hI.keeps_reconcileIdentityOnce service _ _) (.pure _)) fun _ => .pure _

theorem keeps_reconcileNow (item : MediaFields) (media : Nat) :
    Keeps I (service.reconcileNow item media) := by
  refine .bind (.ite (.pure _) (keeps_reconciled fun db => ?_)) fun _ =>
    .bind (hI.keeps_reconcilePersistedItem service _ _) fun _ => .pure _
  exact hI.respects.reconcilePhysicalItem media db

theorem keeps_reconcileAfter (item : MediaFields) (result : PersistResult) :
    Keeps I (service.reconcileAfter item result) := by
  refine .bind (.attempt (hI.keeps_reconcileNow service item result.mediaItemId)) fun ended => ?_
  split
  exacts [.pure _, .pure _]

theorem keeps_retry (x : PagedItem) (hseen : seen x.retriedAt) (repaired : Nat) :
    Keeps I (service.retry x repaired) := by
  refine .bind (.attempt (hI.keeps_persistMedia service x.item hseen)) fun ended => ?_
  split
  exacts [.pure _, .pure _]

theorem keeps_repair (x : PagedItem) (hseen : seen x.retriedAt) (original : PersistError) :
    Keeps I (service.repair x original) := by
  refine .bind (.attempt (hI.keeps_reconcilePersistedItem service _ _)) fun repaired => ?_
  split
  exacts [.pure _, hI.keeps_retry service x hseen _]

theorem keeps_persistMediaWithRepair (x : PagedItem)
    (hseen : seen x.observedAt ∧ seen x.retriedAt) :
    Keeps I (service.persistMediaWithRepair x) := by
  refine .bind (.attempt (hI.keeps_persistMedia service x.item hseen.1)) fun ended => ?_
  split
  exacts [hI.keeps_reconcileAfter service _ _, hI.keeps_repair service x hseen.2 _]

theorem keeps_persistMediaPage (items : List PagedItem)
    (hseen : ∀ x ∈ items, seen x.observedAt ∧ seen x.retriedAt) :
    Keeps I (service.persistMediaPage items) := by
  induction items with
  | nil => exact .pure _
  | cons x items ih =>
    refine .bind (hI.keeps_persistMediaWithRepair service x (hseen x List.mem_cons_self)) fun _ =>
      ?_
    exact .bind (ih fun y hy => hseen y (List.mem_cons_of_mem x hy)) fun _ => .pure _

end StatementInvariant

end Euvieouvi
