import Euvieouvi.Persist.Media
import Euvieouvi.Reconcile.Physical

/-!
# What persisting an item can write

Every write of `persist_media` to the catalog, said once: `HierarchyWrite` is a write of
`_ensure_hierarchy`, `_sync_show_metadata` or of the details, and `CatalogWrite` adds the two writes
to the item itself and those to its reference. What each of them keeps is a case analysis over them.
-/

namespace Euvieouvi

/-- The kind of the parent of an item. -/
def MediaKind.parentKind : MediaKind → Option MediaKind
  | .episode => some .season
  | .season => some .show
  | .track => some .album
  | .album => some .artist
  | .movie | .show | .artist => none

def MediaKind.isContainer : MediaKind → Bool
  | .show | .season | .artist | .album => true
  | .movie | .episode | .track => false

namespace Database

/-- An item of this kind may be below this parent. -/
def ParentFits (db : Database) (kind : MediaKind) (parent : Option Nat) : Prop :=
  parent.map db.identityRows.kindOf = kind.parentKind.map some

instance (db : Database) (kind : MediaKind) (parent : Option Nat) :
    Decidable (db.ParentFits kind parent) :=
  inferInstanceAs (Decidable (_ = _))

/-- The source shows the item under this id, and it is available. -/
def Shown (db : Database) (source : Nat) (externalId : String) (i : Nat) : Prop :=
  ∃ r, db.byExternalIdentity source externalId = some r ∧ r.available = true ∧ r.mediaItemId = i

theorem saveSourceMediaRef_frame (db : Database) (now : Time) (i : Nat)
    (f : Assignment SourceMediaRef.id) :
    Frame [.sourceMediaRefs] db (db.saveSourceMediaRef now i f) := updateSourceMediaRefs_frame _ _

theorem get?_saveMediaItem (db : Database) (now : Time) (i j : Nat) (f : Assignment MediaItem.id) :
    (db.saveMediaItem now i f).mediaItems.get? j = (db.mediaItems.get? j).map fun m =>
      if m.id == i && decide (f m ≠ m) then { f m with updatedAt := now } else m := by
  rw [saveMediaItem, mediaItems_updateMediaItems, Table.get?_update]

/-- Only identifiers of the item changed. -/
structure Identified (i : Nat) (db db' : Database) : Prop where
  frame : Frame [.mediaIdentifiers] db db'
  others : db'.mediaIdentifiers.rows.filter (·.mediaItemId != i) =
    db.mediaIdentifiers.rows.filter (·.mediaItemId != i)

theorem Identified.refl (i : Nat) (db : Database) : Identified i db db := ⟨.refl db, rfl⟩

theorem Identified.trans {i : Nat} {db db' db'' : Database} (h : Identified i db db')
    (h' : Identified i db' db'') :
    Identified i db db'' := ⟨h.frame.trans h'.frame, h'.others.trans h.others⟩

/-- Identifiers of the item are inserted. -/
theorem insertIdentifiers_identified (now : Time) (i : Nat) (added : List ExternalIdentifier)
    (db : Database) :
    Identified i db (added.foldl (fun (db : Database) a => db.insertMediaIdentifier
      ⟨db.mediaIdentifiers.nextId, i, a.provider, a.externalId, now⟩) db) := by
  induction added generalizing db with
  | nil => exact .refl i db
  | cons a added ih =>
    refine Identified.trans ⟨insertMediaIdentifier_frame _, ?_⟩ (ih _)
    rw [mediaIdentifiers_insertMediaIdentifier]
    exact Table.filter_insert (by simp)

/-- The tables that hold what belongs to an item and identifies nothing. -/
abbrev detailTables : List TableName := [.genres, .mediaGenres, .mediaImages, .mediaFilePaths]

/-- Every item stays, with its kind, its parent and its manual match. -/
def ItemsKept (db db' : Database) : Prop :=
  ∀ i m, db.mediaItems.get? i = some m → ∃ m', db'.mediaItems.get? i = some m' ∧ m'.kind = m.kind ∧
    m'.parentId = m.parentId ∧ m'.manualMatchTmdbId = m.manualMatchTmdbId

namespace ItemsKept
variable {db db' db'' : Database} {i : Nat}

theorem refl (db : Database) : ItemsKept db db := fun _ m h => ⟨m, h, rfl, rfl, rfl⟩

theorem trans (h : ItemsKept db db') (h' : ItemsKept db' db'') : ItemsKept db db'' := by
  intro i m hm
  obtain ⟨m', hm', hk, hp, hx⟩ := h i m hm
  obtain ⟨m'', hm'', hk', hp', hx'⟩ := h' i m' hm'
  exact ⟨m'', hm'', hk'.trans hk, hp'.trans hp, hx'.trans hx⟩

theorem of_frame {written : List TableName} (h : Frame written db db')
    (hw : .mediaItems ∉ written) : ItemsKept db db' := by
  have heq : db'.mediaItems = db.mediaItems := h .mediaItems hw
  intro i m hm
  exact ⟨m, by rw [heq]; exact hm, rfl, rfl, rfl⟩

theorem insert (db : Database) (m : MediaItem) : ItemsKept db (db.insertMediaItem m) := by
  intro i m' hm'
  refine ⟨m', ?_, rfl, rfl, rfl⟩
  rw [mediaItems_insertMediaItem]
  obtain ⟨hrow, hid⟩ := Table.get?_eq_some.1 hm'
  exact Table.get?_eq_some.2 ⟨Table.mem_insert_of_mem hrow, hid⟩

theorem save (db : Database) (now : Time) (i : Nat) (f : Assignment MediaItem.id)
    (hf : ∀ m : MediaItem, (f m).kind = m.kind ∧ (f m).parentId = m.parentId ∧
      (f m).manualMatchTmdbId = m.manualMatchTmdbId) : ItemsKept db (db.saveMediaItem now i f) := by
  intro j m hm
  refine ⟨_, (db.get?_saveMediaItem now i j f).trans (by rw [hm]; rfl), ?_⟩
  dsimp only
  split
  · exact hf m
  · exact ⟨rfl, rfl, rfl⟩

theorem kindOf (h : ItemsKept db db') {k : MediaKind} (hk : db.identityRows.kindOf i = some k) :
    db'.identityRows.kindOf i = some k := by
  obtain ⟨m, hm, rfl⟩ := Option.map_eq_some_iff.1 hk
  obtain ⟨m', hm', hkind, -, -⟩ := h i m hm
  exact Option.map_eq_some_iff.2 ⟨m', hm', hkind⟩

theorem parentFits (h : ItemsKept db db') {kind : MediaKind} {parent : Option Nat}
    (hp : db.ParentFits kind parent) :
    db'.ParentFits kind parent := by
  unfold ParentFits at hp ⊢
  rcases parent with _ | p
  · exact hp
  · cases hk : kind.parentKind with
    | none => rw [hk] at hp; cases hp
    | some k =>
      rw [hk] at hp
      exact congrArg some (h.kindOf (Option.some_inj.1 hp))

end ItemsKept

section References
variable {db : Database} {source : Nat} {externalId : String}

theorem mem_of_byExternalIdentity {r : SourceMediaRef}
    (h : db.byExternalIdentity source externalId = some r) :
    r ∈ db.sourceMediaRefs.rows ∧ r.sourceId = source ∧ r.externalId = externalId := by
  have hsel := List.find?_some h
  simp only [Bool.and_eq_true, beq_iff_eq] at hsel
  exact ⟨List.mem_of_find?_eq_some h, hsel⟩

/-- An update that keeps the identities of the references. -/
theorem byExternalIdentity_update (p : SourceMediaRef → Bool) (f : Assignment SourceMediaRef.id)
    (hf : ∀ r : SourceMediaRef, (f r).sourceId = r.sourceId ∧ (f r).externalId = r.externalId) :
    (db.updateSourceMediaRefs p f).byExternalIdentity source externalId =
      (db.byExternalIdentity source externalId).map fun r => if p r then f r else r := by
  have hsame : ∀ r : SourceMediaRef,
      (if p r then f r else r).sourceId = r.sourceId ∧
        (if p r then f r else r).externalId = r.externalId := by
    intro r
    split
    exacts [hf r, ⟨rfl, rfl⟩]
  unfold byExternalIdentity
  rw [sourceMediaRefs_updateSourceMediaRefs, Table.rows_update, List.find?_map]
  congr 1
  refine congrArg (List.find? · _) (funext fun r => ?_)
  exact congrArg₂ (fun s e => s == source && e == externalId) (hsame r).1 (hsame r).2

/-- A flush that keeps the identities of the references. -/
theorem byExternalIdentity_save (now : Time) (i : Nat) (f : Assignment SourceMediaRef.id)
    (hf : ∀ r : SourceMediaRef, (f r).sourceId = r.sourceId ∧ (f r).externalId = r.externalId) :
    (db.saveSourceMediaRef now i f).byExternalIdentity source externalId =
      (db.byExternalIdentity source externalId).map fun r =>
        if r.id == i && decide (f r ≠ r) then { f r with updatedAt := now } else r :=
  byExternalIdentity_update _ _ hf

theorem byExternalIdentity_insert {r : SourceMediaRef} (hid : r.id = db.sourceMediaRefs.nextId) :
    (db.insertSourceMediaRef r).byExternalIdentity source externalId =
      (db.byExternalIdentity source externalId).or
        (if r.sourceId == source && r.externalId == externalId then some r else none) := by
  unfold byExternalIdentity
  rw [sourceMediaRefs_insertSourceMediaRef,
    Table.rows_insert_of_get?_none (by rw [hid]; exact Table.get?_nextId _), List.find?_append]
  congr 1
  rw [List.find?_singleton]

/-- A row that is shown stays shown. -/
theorem Shown.save {i j : Nat} (h : db.Shown source externalId j) (now : Time)
    (f : Assignment SourceMediaRef.id)
    (hf : ∀ r : SourceMediaRef, (f r).sourceId = r.sourceId ∧ (f r).externalId = r.externalId)
    (hm : ∀ r : SourceMediaRef, (f r).mediaItemId = r.mediaItemId ∧ (f r).available = true) :
    (db.saveSourceMediaRef now i f).Shown source externalId j := by
  obtain ⟨r, hr, hav, hj⟩ := h
  refine ⟨_, (byExternalIdentity_save now i f hf).trans (congrArg _ hr), ?_⟩
  dsimp only
  split
  · exact ⟨(hm r).2, (hm r).1.trans hj⟩
  · exact ⟨hav, hj⟩

/-- A row that is made available is shown. -/
theorem shown_save {r : SourceMediaRef} (hr : db.byExternalIdentity source externalId = some r)
    (now : Time) (f : Assignment SourceMediaRef.id)
    (hf : ∀ r : SourceMediaRef, (f r).sourceId = r.sourceId ∧ (f r).externalId = r.externalId)
    (hm : ∀ r : SourceMediaRef, (f r).mediaItemId = r.mediaItemId ∧ (f r).available = true) :
    (db.saveSourceMediaRef now r.id f).Shown source externalId r.mediaItemId := by
  refine ⟨_, (byExternalIdentity_save now r.id f hf).trans (congrArg _ hr), ?_⟩
  dsimp only
  by_cases hav : r.available = true
  · split
    exacts [⟨(hm r).2, (hm r).1⟩, ⟨hav, rfl⟩]
  · rw [if_pos]
    · exact ⟨(hm r).2, (hm r).1⟩
    · rw [Bool.and_eq_true, beq_self_eq_true, decide_eq_true_iff]
      refine ⟨rfl, fun heq => hav ?_⟩
      rw [← heq]
      exact (hm r).2

theorem Shown.insert {j : Nat} (h : db.Shown source externalId j) {r : SourceMediaRef}
    (hid : r.id = db.sourceMediaRefs.nextId) :
    (db.insertSourceMediaRef r).Shown source externalId j := by
  obtain ⟨r', hr', hav, hj⟩ := h
  refine ⟨r', ?_, hav, hj⟩
  rw [byExternalIdentity_insert hid, hr']
  rfl

theorem Shown.of_frame {db' : Database} {written : List TableName} {j : Nat}
    (h : db.Shown source externalId j)
    (hframe : Frame written db db') (hw : .sourceMediaRefs ∉ written) :
    db'.Shown source externalId j := by
  have heq : db'.sourceMediaRefs = db.sourceMediaRefs := hframe .sourceMediaRefs hw
  obtain ⟨r, hr, hrest⟩ := h
  refine ⟨r, ?_, hrest⟩
  unfold byExternalIdentity at hr ⊢
  rw [heq]; exact hr

end References

end Database

/-- The ids under which the source knows the containers of an item. -/
def MediaFields.containerIds (item : MediaFields) : List String :=
  (item.track?.map fun t => [t.artistExternalId, t.albumExternalId]).getD [] ++
    (item.episode?.map fun e => [e.showExternalId, item.seasonReferenceId e]).getD []

inductive HierarchyWrite (service : MediaPersistenceService) (item : MediaFields) :
    Database → Database → Prop
  | touch {db : Database} (r : SourceMediaRef) (observedAt : Time) : r ∈ db.sourceMediaRefs.rows →
      r.sourceId = service.sourceId → r.externalId ∈ item.containerIds →
        HierarchyWrite service item db
        (db.saveSourceMediaRef service.now r.id
          ⟨fun r => { r with
            lastSeenAt := observedAt, available := true, unavailableSince := none }, fun _ => rfl⟩)
  | refer {db : Database} (i : Nat) (externalId : String) (observedAt : Time) (kind : MediaKind) :
      db.byExternalIdentity service.sourceId externalId = none → externalId ∈ item.containerIds →
      db.identityRows.kindOf i = some kind → kind.isContainer = true →
        HierarchyWrite service item db
        (db.insertSourceMediaRef { service.containerReference i externalId observedAt with
          id := db.sourceMediaRefs.nextId })
  | create {db : Database} (m : MediaItem) : m.id = db.mediaItems.nextId →
    m.manualMatchTmdbId = none →
      m.kind.isContainer = true → db.ParentFits m.kind m.parentId →
        HierarchyWrite service item db (db.insertMediaItem m)
  | retitle {db : Database} (i : Nat) (f : Assignment MediaItem.id) :
      (∀ m : MediaItem, (f m).kind = m.kind ∧ (f m).parentId = m.parentId ∧
        (f m).manualMatchTmdbId = m.manualMatchTmdbId) →
      db.identityRows.manualMatchOf i = none ∨ db.identityRows.kindOf i = some .album →
      HierarchyWrite service item db (db.saveMediaItem service.now i f)
  | identify {db db' : Database} (i : Nat) : db.identityRows.manualMatchOf i = none →
    db.Identified i db' →
      HierarchyWrite service item db db'
  | detail {db db' : Database} : Database.Frame Database.detailTables db db' →
    HierarchyWrite service item db db'

namespace HierarchyWrite
variable {service : MediaPersistenceService} {item : MediaFields} {db db' : Database}

theorem itemsKept (h : HierarchyWrite service item db db') : db.ItemsKept db' := by
  cases h with
  | touch => exact .of_frame (Database.updateSourceMediaRefs_frame _ _) (by decide)
  | refer => exact .of_frame (Database.insertSourceMediaRef_frame _) (by decide)
  | create m => exact .insert db m
  | retitle i f hf => exact .save db _ i f hf
  | identify i _ h => exact .of_frame h.frame (by decide)
  | detail h => exact .of_frame h (by decide)

theorem shown {source i : Nat} {externalId : String} (h : HierarchyWrite service item db db')
    (hs : db.Shown source externalId i) : db'.Shown source externalId i := by
  cases h with
  | touch => exact hs.save _ _ (fun _ => ⟨rfl, rfl⟩) fun _ => ⟨rfl, rfl⟩
  | refer => exact hs.insert rfl
  | create m => exact hs.of_frame (Database.insertMediaItem_frame m) (by decide)
  | retitle i f hf => exact hs.of_frame (Database.updateMediaItems_frame _ _) (by decide)
  | identify i _ h => exact hs.of_frame h.frame (by decide)
  | detail h => exact hs.of_frame h (by decide)

end HierarchyWrite

/-- Some writes of the hierarchy. -/
abbrev HierarchyWrites (service : MediaPersistenceService) (item : MediaFields) :
    Database → Database → Prop :=
  Relation.ReflTransGen (HierarchyWrite service item)

namespace HierarchyWrites
variable {service : MediaPersistenceService} {item : MediaFields} {db db' : Database}

theorem itemsKept (h : HierarchyWrites service item db db') : db.ItemsKept db' := by
  induction h with
  | refl => exact .refl db
  | tail _ hw ih => exact ih.trans hw.itemsKept

theorem shown {source i : Nat} {externalId : String} (h : HierarchyWrites service item db db')
    (hs : db.Shown source externalId i) : db'.Shown source externalId i := by
  induction h with
  | refl => exact hs
  | tail _ hw ih => exact hw.shown ih

end HierarchyWrites

inductive CatalogWrite (service : MediaPersistenceService) (item : MediaFields) :
    Database → Database → Prop
  | hierarchy {db db' : Database} : HierarchyWrite service item db db' →
    CatalogWrite service item db db'
  | create {db : Database} (m : MediaItem) : m.id = db.mediaItems.nextId →
    m.manualMatchTmdbId = none →
      m.kind = item.kind → db.ParentFits m.kind m.parentId →
        CatalogWrite service item db (db.insertMediaItem m)
  | update {db : Database} (i : Nat) (parent : Option Nat) :
    db.identityRows.manualMatchOf i = none →
      db.ParentFits item.kind parent →
      (db.identityRows.kindOf i = some item.kind ∨
        ∃ r, db.byExternalIdentity service.sourceId item.externalId = some r ∧ r.mediaItemId = i) →
      CatalogWrite service item db (db.saveMediaItem service.now i
        ⟨MediaPersistenceService.applyMedia item parent, fun _ => rfl⟩)
  | refer {db : Database} (i : Nat) (observedAt : Time) :
      db.byExternalIdentity service.sourceId item.externalId = none →
        db.identityRows.kindOf i = some item.kind →
      CatalogWrite service item db
        (db.insertSourceMediaRef { service.leafReference item i observedAt with
          id := db.sourceMediaRefs.nextId })
  | observe {db : Database} (r : SourceMediaRef) (observedAt : Time) : r ∈ db.sourceMediaRefs.rows →
      r.sourceId = service.sourceId → r.externalId = item.externalId → CatalogWrite service item db
        (db.saveSourceMediaRef service.now r.id
          ⟨service.observeReference item observedAt, fun _ => rfl⟩)

/-- Some writes of the catalog part of `persist_media`. -/
abbrev CatalogWrites (service : MediaPersistenceService) (item : MediaFields) :
    Database → Database → Prop :=
  Relation.ReflTransGen (CatalogWrite service item)

namespace CatalogWrites
variable {service : MediaPersistenceService} {item : MediaFields} {db db' : Database}

theorem of_hierarchy (h : HierarchyWrites service item db db') :
    CatalogWrites service item db db' :=
  Relation.ReflTransGen.mono (fun _ _ => CatalogWrite.hierarchy) _ _ h

theorem shown {source i : Nat} {externalId : String} (h : CatalogWrites service item db db')
    (hs : db.Shown source externalId i) : db'.Shown source externalId i := by
  induction h with
  | refl => exact hs
  | tail _ hw ih =>
    cases hw with
    | hierarchy hw => exact hw.shown ih
    | create m => exact ih.of_frame (Database.insertMediaItem_frame m) (by decide)
    | update => exact ih.of_frame (Database.updateMediaItems_frame _ _) (by decide)
    | refer => exact ih.insert rfl
    | observe => exact ih.save _ _ (fun _ => ⟨rfl, rfl⟩) fun _ => ⟨rfl, rfl⟩

end CatalogWrites

/-- What `persist_event` writes for an event, unless it writes nothing. -/
inductive EventWrite (service : MediaPersistenceService) (event : ExternalWatchEvent)
    (origin : EventOrigin) (db : Database) :
    Database → Prop
  | refresh (existing : WatchEvent) (r : SourceMediaRef) : event.completed = true →
      db.byExternalIdentity service.sourceId event.mediaExternalId = some r →
      service.knownEvent db event = some existing → existing.mediaItemId = r.mediaItemId →
      (∀ other, db.byDedupKey service.sourceId (service.eventDedupKey event) = some other →
        other.id = existing.id) →
      EventWrite service event origin db
        (service.refreshStored event origin existing.id db)
  | record (r : SourceMediaRef) : event.completed = true →
      db.byExternalIdentity service.sourceId event.mediaExternalId = some r →
        service.knownEvent db event = none →
      db.byDedupKey service.sourceId (service.eventDedupKey event) = none →
      MediaPersistenceService.hasNearby db r.mediaItemId event.watchedAt = false →
      EventWrite service event origin db (service.recordEvent r.mediaItemId event origin db)

inductive PlaybackWrite (service : MediaPersistenceService) (item : MediaFields) :
    Database → Database → Prop
  | observe {db : Database} (r : SourceMediaRef) (observedAt : Time) :
      db.byExternalIdentity service.sourceId item.externalId = some r →
      PlaybackWrite service item db (service.syncWatchState r.mediaItemId item observedAt db)
  | event {db db' : Database} (event : ExternalWatchEvent) (origin : EventOrigin) :
    event.mediaExternalId = item.externalId →
      EventWrite service event origin db db' → PlaybackWrite service item db db'

abbrev PlaybackWrites (service : MediaPersistenceService) (item : MediaFields) :
    Database → Database → Prop :=
  Relation.ReflTransGen (PlaybackWrite service item)

/-- The tables of playback. -/
abbrev Database.playbackTables : List Database.TableName :=
  [.watchEvents, .watchStates, .asyncTasks, .dirtyItems]

/-- The tables of the catalog. -/
abbrev Database.catalogTables : List Database.TableName :=
  [.mediaItems, .mediaIdentifiers, .sourceMediaRefs] ++ Database.detailTables

section Frames
variable (service : MediaPersistenceService) {event : ExternalWatchEvent} {origin : EventOrigin}
  {item : MediaFields}
  {db db' : Database}

theorem MediaPersistenceService.saveState_frame (i : Nat) (new : WatchState)
    (f : Assignment WatchState.key) (db : Database) :
    Database.Frame [.watchStates, .dirtyItems] db (service.saveState i new f db) := by
  unfold saveState
  split
  · exact Database.updateWatchStates_frame _ _
  · exact Database.insertWatchState_frame _

theorem MediaPersistenceService.syncWatchState_frame (i : Nat) (observedAt : Time) (db : Database) :
    Database.Frame [.watchStates, .dirtyItems] db
      (service.syncWatchState i item observedAt db) := by
  unfold syncWatchState
  split
  · exact service.saveState_frame i _ _ db
  · exact .refl db

theorem MediaPersistenceService.recordEvent_frame (i : Nat) (event : ExternalWatchEvent)
    (origin : EventOrigin) (db : Database) :
    Database.Frame Database.playbackTables db (service.recordEvent i event origin db) := by
  have happlied : Database.Frame Database.playbackTables db (service.applyEventToWatchState i event
      (db.insertWatchEvent (service.newEvent db.watchEvents.nextId i event origin))) :=
    ((Database.insertWatchEvent_frame _).mono (by decide)).trans
      ((service.saveState_frame i _ _ _).mono (by decide))
  unfold recordEvent
  dsimp only
  split
  · exact happlied.trans ((Database.writeAsyncTasks_frame _).mono (by decide))
  · exact happlied

variable {service}

theorem HierarchyWrite.frame (h : HierarchyWrite service item db db') :
    Database.Frame Database.catalogTables db db' := by
  cases h with
  | touch => exact (Database.updateSourceMediaRefs_frame _ _).mono (by decide)
  | refer => exact (Database.insertSourceMediaRef_frame _).mono (by decide)
  | create m => exact (Database.insertMediaItem_frame m).mono (by decide)
  | retitle => exact (Database.updateMediaItems_frame _ _).mono (by decide)
  | identify _ _ h => exact h.frame.mono (by decide)
  | detail h => exact h.mono (by decide)

theorem HierarchyWrites.frame (h : HierarchyWrites service item db db') :
    Database.Frame Database.catalogTables db db' := by
  induction h with
  | refl => exact .refl db
  | tail _ hw ih => exact ih.trans hw.frame

theorem CatalogWrite.frame (h : CatalogWrite service item db db') :
    Database.Frame Database.catalogTables db db' := by
  cases h with
  | hierarchy h => exact h.frame
  | create m => exact (Database.insertMediaItem_frame m).mono (by decide)
  | update => exact (Database.updateMediaItems_frame _ _).mono (by decide)
  | refer => exact (Database.insertSourceMediaRef_frame _).mono (by decide)
  | observe => exact (Database.updateSourceMediaRefs_frame _ _).mono (by decide)

theorem CatalogWrites.frame (h : CatalogWrites service item db db') :
    Database.Frame Database.catalogTables db db' := by
  induction h with
  | refl => exact .refl db
  | tail _ hw ih => exact ih.trans hw.frame

theorem EventWrite.frame (h : EventWrite service event origin db db') :
    Database.Frame Database.playbackTables db db' := by
  cases h with
  | refresh => exact (Database.updateWatchEvents_frame _ _).mono (by decide)
  | record => exact service.recordEvent_frame _ _ _ _

theorem PlaybackWrite.frame (h : PlaybackWrite service item db db') :
    Database.Frame Database.playbackTables db db' := by
  cases h with
  | observe => exact (service.syncWatchState_frame _ _ _).mono (by decide)
  | event _ _ _ h => exact h.frame

theorem PlaybackWrites.frame (h : PlaybackWrites service item db db') :
    Database.Frame Database.playbackTables db db' := by
  induction h with
  | refl => exact .refl db
  | tail _ hw ih => exact ih.trans hw.frame

end Frames

end Euvieouvi
