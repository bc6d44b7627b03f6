import Euvieouvi.Lib.Stores
import Euvieouvi.Persist.References
import Euvieouvi.Playback.Recorded
import Euvieouvi.Sync.SourceIdentity

/-!
# The data of a new server

What `persist_media` and `persist_event` do with the data of a server that has replaced another one.
The rows that are left of the old server are its retired references and its watch events.
`ServedWith` says of every store of a call that references are written only under the external ids
of the call; events are written by `persist_event` alone, which knows an event by its id at the
source or by its digest. These were not retired: the old rows stay as they are, and no lookup finds
one of them, as long as no event that is handed on has the id or the digest of an old one.
-/

namespace Euvieouvi

open Database Program

/-- Of the references only those of the source with these ids were written, and nothing of the
playback. -/
structure ServedWith (source : Nat) (ids : List String) (db db' : Database) : Prop where
  events : db'.watchEvents = db.watchEvents
  webhooks : db'.webhookEvents = db.webhookEvents
  tasks : db'.asyncTasks = db.asyncTasks
  kept : ∀ r ∈ db.sourceMediaRefs.rows, ¬ (r.sourceId = source ∧ r.externalId ∈ ids) →
    r ∈ db'.sourceMediaRefs.rows
  rows : ∀ r ∈ db'.sourceMediaRefs.rows, r ∈ db.sourceMediaRefs.rows ∨ r.sourceId = source ∧
    r.externalId ∈ ids

namespace ServedWith
variable {source : Nat} {ids : List String} {db db' db'' : Database}

theorem refl (db : Database) : ServedWith source ids db db :=
  ⟨rfl, rfl, rfl, fun _ h _ => h, fun _ h => .inl h⟩

theorem trans (h : ServedWith source ids db db') (h' : ServedWith source ids db' db'') :
    ServedWith source ids db db'' where
  events := h'.events.trans h.events
  webhooks := h'.webhooks.trans h.webhooks
  tasks := h'.tasks.trans h.tasks
  kept r hr hother := h'.kept r (h.kept r hr hother) hother
  rows r hr := (h'.rows r hr).elim (h.rows r) .inr

theorem of_frame {written : List TableName} (h : Frame written db db')
    (hw : ∀ table ∈ [TableName.watchEvents, .webhookEvents, .asyncTasks, .sourceMediaRefs],
      table ∉ written) :
    ServedWith source ids db db' := by
  have hrefs : db'.sourceMediaRefs = db.sourceMediaRefs := h .sourceMediaRefs (hw _ (by decide))
  refine ⟨h .watchEvents (hw _ (by decide)), h .webhookEvents (hw _ (by decide)),
    h .asyncTasks (hw _ (by decide)), ?_, ?_⟩
  · exact fun r hr _ => hrefs ▸ hr
  · exact fun r hr => .inl (hrefs ▸ hr)

/-- A flush of a reference with one of the ids. -/
theorem save {i : Nat} (hi : ∀ r ∈ db.sourceMediaRefs.rows, r.id = i → r.sourceId = source ∧
      r.externalId ∈ ids) (now : Time)
    (f : Assignment SourceMediaRef.id) (hf : ∀ r, SameReference r (f r)) :
    ServedWith source ids db (db.saveSourceMediaRef now i f) := by
  have hrows : ∀ r, r ∈ (db.saveSourceMediaRef now i f).sourceMediaRefs.rows ↔
      ∃ r₀ ∈ db.sourceMediaRefs.rows,
      (if r₀.id == i && decide (f r₀ ≠ r₀) then { f r₀ with updatedAt := now } else r₀) = r := by
    intro r
    unfold saveSourceMediaRef
    rw [sourceMediaRefs_updateSourceMediaRefs, Table.mem_update]
  have hframe := saveSourceMediaRef_frame db now i f
  refine ⟨hframe .watchEvents (by decide), hframe .webhookEvents (by decide),
    hframe .asyncTasks (by decide), ?_, ?_⟩
  · intro r hr hother
    refine (hrows r).2 ⟨r, hr, if_neg fun hsel => hother (hi r hr ?_)⟩
    simp only [Bool.and_eq_true, beq_iff_eq] at hsel
    exact hsel.1
  · intro r hr
    obtain ⟨r₀, hr₀, rfl⟩ := (hrows r).1 hr
    split
    next hsel =>
      simp only [Bool.and_eq_true, beq_iff_eq] at hsel
      obtain ⟨hsource, hid⟩ := hi r₀ hr₀ hsel.1
      exact .inr ⟨(hf r₀).1.trans hsource, (congrArg (· ∈ ids) (hf r₀).2.1).mpr hid⟩
    next => exact .inl hr₀

theorem insert {r : SourceMediaRef} (hsource : r.sourceId = source) (hid : r.externalId ∈ ids) :
    ServedWith source ids db (db.insertSourceMediaRef r) := by
  have hrefs : (db.insertSourceMediaRef r).sourceMediaRefs = db.sourceMediaRefs.insert r :=
    sourceMediaRefs_insertSourceMediaRef _
  have hframe := @insertSourceMediaRef_frame db r
  refine ⟨hframe .watchEvents (by decide), hframe .webhookEvents (by decide),
    hframe .asyncTasks (by decide), ?_, ?_⟩
  · exact fun r' hr' _ => hrefs ▸ Table.mem_insert_of_mem hr'
  · intro r' hr'
    rw [hrefs] at hr'
    rcases Table.mem_insert hr' with hr' | rfl
    exacts [.inl hr', .inr ⟨hsource, hid⟩]

/-- A row under one of the ids stays under one of them. -/
theorem known {i : Nat} (h : ServedWith source ids db db')
    (hi : ∀ r ∈ db.sourceMediaRefs.rows, r.id = i → r.sourceId = source ∧ r.externalId ∈ ids) :
    ∀ r ∈ db'.sourceMediaRefs.rows, r.id = i → r.sourceId = source ∧ r.externalId ∈ ids :=
  fun r hr hid => (h.rows r hr).elim (fun hr => hi r hr hid) id

end ServedWith

/-- The row of a reference that was found. -/
theorem Database.known_of_byExternalIdentity {db : Database} {source : Nat} {e : String}
    {r : SourceMediaRef} {ids : List String}
    (hr : db.byExternalIdentity source e = some r) (he : e ∈ ids) :
    ∀ r' ∈ db.sourceMediaRefs.rows, r'.id = r.id → r'.sourceId = source ∧ r'.externalId ∈ ids := by
  obtain ⟨hrow, hsource, hid⟩ := mem_of_byExternalIdentity hr
  intro r' hr' hsame
  rw [db.sourceMediaRefs.eq_of_key_eq hr' hrow hsame, hid]
  exact ⟨hsource, he⟩

namespace MediaPersistenceService

/-- From any database, every store of the program was written with these ids only. -/
def Serves {α : Type} (service : MediaPersistenceService) (ids : List String)
    (p : Persist α) : Prop :=
  ∀ db, Stays (ServedWith service.sourceId ids db) p

variable (service : MediaPersistenceService) {α β : Type} {ids : List String} {db : Database}

section Rules
variable {service} {p : Persist β} {f : β → Persist α}

theorem serves_bind (hp : service.Serves ids p) (hf : ∀ b, service.Serves ids (f b)) :
    service.Serves ids (p >>= f) :=
  fun db => .bind (hp db) fun b => hf b db

theorem serves_ite {c : Prop} [Decidable c] {p q : Persist α} (hp : service.Serves ids p)
    (hq : service.Serves ids q) :
    service.Serves ids (if c then p else q) :=
  fun db => .ite (fun _ => hp db) fun _ => hq db

theorem serves_write {g : Database → Database}
    (h : ∀ db, ServedWith service.sourceId ids db (g db)) :
    service.Serves ids (Program.write g) :=
  fun _ => .write fun db hdb => hdb.trans (h db)

/-- A frame without the tables that a service shares with its source. -/
theorem serves_frame (written : List TableName) {g : Database → Database}
    (h : ∀ db, Frame written db (g db))
    (hw : ∀ table ∈ [TableName.watchEvents, .webhookEvents, .asyncTasks, .sourceMediaRefs],
      table ∉ written) :
    service.Serves ids (Program.write g) :=
  serves_write fun db => .of_frame (h db) hw

theorem serves_read_bind {g : Database → β} (h : ∀ b, service.Serves ids (f b)) :
    service.Serves ids (Program.read g >>= f) :=
  fun db => .bind (.read g) fun b => h b db

/-- What is shown of a program from each start holds of its stores from any start. -/
theorem serves_of_start {p : Persist α}
    (h : ∀ db, p.Always (· = db) (ServedWith service.sourceId ids db)) : service.Serves ids p :=
  fun _ => .of_forall fun db hdb => (h db).mono (fun _ h => h) fun _ h => hdb.trans h

/-- A program that keeps what holds at its start. -/
theorem always_of_stays {p : Persist α} (h : Stays (ServedWith service.sourceId ids db) p) :
    p.Always (· = db) (ServedWith service.sourceId ids db) :=
  h.mono (by rintro _ rfl; exact .refl _) fun _ h => h

end Rules

theorem serves_requiredMedia (i : Nat) : service.Serves ids (requiredMedia i) := by
  refine serves_read_bind fun m db => ?_
  split
  exacts [.pure _, .fail _]

theorem serves_addReference {r : SourceMediaRef} (hsource : r.sourceId = service.sourceId)
    (hid : r.externalId ∈ ids) :
    service.Serves ids (addReference r) :=
  serves_read_bind fun _ => serves_ite (fun _ => .fail _) <| serves_read_bind fun _ =>
    serves_bind (serves_write fun _ => .insert hsource hid) fun _ _ => .pure _

/-- The flush of a reference that was found under one of the ids. -/
theorem stays_save {r : SourceMediaRef} {e : String}
    (hr : db.byExternalIdentity service.sourceId e = some r) (he : e ∈ ids)
    {f : Assignment SourceMediaRef.id} (hf : ∀ r, SameReference r (f r)) :
    Stays (ServedWith service.sourceId ids db)
    (Program.write fun db => db.saveSourceMediaRef service.now r.id f : Persist Unit) :=
  .write fun _ hdb' => hdb'.trans (.save (hdb'.known (known_of_byExternalIdentity hr he)) _ _ hf)

theorem stays_touchReference {r : SourceMediaRef} {e : String}
    (hr : db.byExternalIdentity service.sourceId e = some r) (he : e ∈ ids)
    (observedAt : Time) : Stays (ServedWith service.sourceId ids db)
    (service.touchReference r observedAt) :=
  service.stays_save hr he fun _ => ⟨rfl, rfl, rfl⟩

theorem serves_syncIdentifierValues (i : Nat) (identifiers : List ExternalIdentifier) :
    service.Serves ids (service.syncIdentifierValues i identifiers) := by
  have hflush : ∀ pending, service.Serves ids (service.flushIdentifiers i pending) := fun pending =>
    serves_read_bind fun _ =>
      serves_ite (fun _ => .fail _) <| serves_bind (serves_frame [.mediaIdentifiers] (fun db =>
      (insertIdentifiers_identified service.now i pending.added db).frame.trans
        (deleteMediaIdentifiers_frame _)) (by decide))
        fun _ _ => .pure _
  refine serves_read_bind fun _ => serves_ite (fun _ => .pure _) fun db =>
    .bind (.cached _) fun _ => .ite (fun _ => .pure _) fun _ => ?_
  refine .bind (.read _) fun existing => .bind (.foldlM _ (fun pending x => ?_) _) fun pending =>
    .bind (.enter _) fun _ =>
    .bind (hflush _ db) fun _ => .pure _
  refine .bind (.read _) fun _ => .bind (.ite (fun _ => hflush _ db) fun _ => .pure _) fun _ =>
    .ite (fun _ => .pure _) fun _ => .pure _

theorem serves_syncImage (i : Nat) (imageType : String) (path : Option String) :
    service.Serves ids (Program.write (service.syncImage i imageType path)) :=
  serves_frame _ (fun db => service.syncImage_frame i db _ _) (by decide)

theorem serves_mergeGenres (i : Nat) (names : List String) :
    service.Serves ids (Program.write (service.mergeGenres i names)) :=
  serves_frame _ (fun db => service.mergeGenres_frame i db _) (by decide)

variable {observedAt : Time}

theorem serves_bindReference (i : Nat) {externalId : String} (hid : externalId ∈ ids) :
    service.Serves ids (service.bindReference i externalId observedAt) := by
  refine serves_of_start fun db => .read_bind (by rintro _ rfl; exact .refl _) ?_
  rintro db rfl
  refine always_of_stays ?_
  split
  next r hr => exact .ite (fun _ => .fail _) fun _ => service.stays_touchReference hr hid observedAt
  next => exact serves_bind (service.serves_addReference rfl hid) (fun _ _ => .pure _) db

theorem serves_bindExistingContainer (i : Nat) {externalId : String} (hid : externalId ∈ ids)
    (path : Option String)
    (genres : List String) :
    service.Serves ids (service.bindExistingContainer i externalId path genres observedAt) :=
  serves_bind (service.serves_bindReference i hid) fun _ =>
    serves_bind (service.serves_syncImage _ _ _) fun _ => service.serves_mergeGenres _ _

theorem serves_matchContainer (c : Container) : service.Serves ids (service.matchContainer c) := by
  refine serves_bind (serves_read_bind fun found => serves_read_bind fun titled db => ?_)
    fun found => ?_
  · split
    exacts [.pure _, .pure _, .fail _]
  rcases found with _ | i
  · refine serves_ite (fun _ => .pure _)
      (serves_read_bind fun candidates => serves_read_bind fun owned db => ?_)
    split
    exacts [.pure _, .pure _, .pure _, .fail _]
  · exact fun _ => .pure _

theorem stays_ensureKnownContainer (c : Container) {r : SourceMediaRef} (hid : c.externalId ∈ ids)
    (hr : db.byExternalIdentity service.sourceId c.externalId = some r) :
    Stays (ServedWith service.sourceId ids db) (service.ensureKnownContainer c r observedAt) := by
  refine .bind (service.stays_touchReference hr hid observedAt) fun _ =>
    .bind (service.serves_requiredMedia _ db) fun media => ?_
  refine .ite (fun _ => .fail _) fun _ => .bind (service.serves_syncImage _ _ _ db) fun _ => ?_
  refine .bind (serves_frame detailTables (fun db => ?_) (by decide) db) fun _ =>
    .bind (service.serves_syncIdentifierValues _ _ db) fun _ => .pure _
  split
  exacts [.refl db, service.mergeGenres_frame media.id db _]

theorem serves_createContainer (c : Container) (hid : c.externalId ∈ ids) :
    service.Serves ids (service.createContainer c observedAt) :=
  serves_read_bind fun i =>
    serves_bind (serves_frame _ (fun _ => insertMediaItem_frame _) (by decide)) fun _ =>
    serves_bind (service.serves_addReference rfl hid) fun _ =>
      serves_bind (service.serves_syncImage _ _ _) fun _ =>
      serves_bind (service.serves_mergeGenres _ _) fun _ =>
        serves_bind (service.serves_syncIdentifierValues i _) fun _ _ => .pure _

theorem serves_ensureContainer (c : Container) (hid : c.externalId ∈ ids) :
    service.Serves ids (service.ensureContainer c observedAt) := by
  refine serves_of_start fun db => .read_bind (by rintro _ rfl; exact .refl _) ?_
  rintro db rfl
  refine always_of_stays ?_
  split
  next r hr => exact service.stays_ensureKnownContainer c hid hr
  next =>
    refine .bind (service.serves_matchContainer c db) fun found => ?_
    rcases found with _ | i
    · exact service.serves_createContainer c hid db
    · exact .bind (service.serves_bindExistingContainer i hid _ _ db) fun _ =>
        .bind (service.serves_syncIdentifierValues i _ db) fun _ => .pure _

theorem stays_ensureKnownAlbum (item : MediaFields) (t : TrackFields) {r : SourceMediaRef}
    (hid : t.albumExternalId ∈ ids)
    (hr : db.byExternalIdentity service.sourceId t.albumExternalId = some r) :
    Stays (ServedWith service.sourceId ids db) (service.ensureKnownAlbum item t r observedAt) := by
  refine .bind (service.stays_touchReference hr hid observedAt) fun _ =>
    .bind (service.serves_requiredMedia _ db) fun album => ?_
  refine .ite (fun _ => .fail _) fun _ =>
    .bind (serves_frame _ (fun _ => updateMediaItems_frame _ _) (by decide) db) fun _ => ?_
  exact .bind (service.serves_syncImage _ _ _ db) fun _ =>
    .bind (service.serves_mergeGenres _ _ db) fun _ => .pure _

theorem serves_ensureAlbum (item : MediaFields) (t : TrackFields) (halbum : t.albumExternalId ∈ ids)
    (hartist : t.artistExternalId ∈ ids) :
    service.Serves ids (service.ensureAlbum item t observedAt) := by
  refine serves_of_start fun db => .read_bind (by rintro _ rfl; exact .refl _) ?_
  rintro db rfl
  refine always_of_stays ?_
  split
  next r hr => exact service.stays_ensureKnownAlbum item t halbum hr
  next =>
    exact .bind (service.serves_ensureContainer (artistContainer item t) hartist db) fun artist =>
      service.serves_ensureContainer (albumContainer item t artist) halbum db

theorem serves_bindExistingEpisodeHierarchy (item : MediaFields) (e : EpisodeFields)
    (episode : MediaItem)
    (hshow : e.showExternalId ∈ ids) (hseason : item.seasonReferenceId e ∈ ids) :
    service.Serves ids (service.bindExistingEpisodeHierarchy item e episode observedAt) := by
  refine serves_bind (service.serves_requiredMedia _) fun season =>
    serves_bind (service.serves_requiredMedia _) fun «show» => ?_
  refine serves_ite (fun _ => .fail _)
    (serves_bind (serves_frame [.mediaItems] (fun db => ?_) (by decide)) fun _ => ?_)
  · split
    exacts [updateMediaItems_frame _ _, .refl db]
  · exact serves_bind (service.serves_bindExistingContainer _ hshow _ _) fun _ =>
      serves_bind (service.serves_bindExistingContainer _ hseason _ _) fun _ _ => .pure _

theorem serves_ensureHierarchy (item : MediaFields) (matched : Option MediaItem)
    (hids : ∀ id ∈ item.containerIds, id ∈ ids) :
    service.Serves ids (service.ensureHierarchy item observedAt matched) := by
  unfold MediaFields.containerIds at hids
  unfold ensureHierarchy
  cases ht : item.track? with
  | none =>
    cases he : item.episode? with
    | none => exact fun _ => .pure _
    | some e =>
      have hshow : e.showExternalId ∈ ids := hids _ (by simp [he])
      have hseason : item.seasonReferenceId e ∈ ids := hids _ (by simp [he])
      rcases matched with _ | episode
      · refine serves_bind (serves_bind (service.serves_ensureContainer
          (showContainer item e) hshow) fun «show» => ?_) fun _ _ => .pure _
        exact service.serves_ensureContainer (seasonContainer item e «show») hseason
      · exact serves_bind (service.serves_bindExistingEpisodeHierarchy item e episode hshow hseason)
          fun _ _ => .pure _
  | some t =>
    exact serves_bind (service.serves_ensureAlbum item t (hids _ (by simp [ht]))
      (hids _ (by simp [ht]))) fun _ _ => .pure _

theorem serves_syncShowMetadata (item : ExternalMediaItem) (parent : Option Nat) :
    service.Serves ids (service.syncShowMetadata item parent) := by
  unfold syncShowMetadata
  split
  next e metadata parent _ _ =>
    refine serves_ite (fun _ => .fail _)
      (serves_bind (service.serves_requiredMedia _) fun season => ?_)
    refine serves_bind (service.serves_requiredMedia _) fun «show» db => .bind (.cached _) fun _ =>
      .ite (fun _ => .pure _) fun _ => ?_
    refine .bind (.enter _) fun _ => .bind (.read _) fun _ => .ite (fun _ => ?_) fun _ => .pure _
    exact serves_frame _ (fun db => service.writeShowMetadata_frame metadata «show».id db)
      (by decide) db
  next => exact fun _ => .pure _

theorem serves_matchMedia (item : MediaFields) (known : Option SourceMediaRef) :
    service.Serves ids (service.matchMedia item known) := by
  refine serves_ite (fun _ => .pure _)
    (serves_bind (serves_read_bind fun matched => ?_) fun _ _ => .read _)
  rcases matched with _ | m
  · refine serves_read_bind fun found => ?_
    rcases found with _ | ⟨i, _ | ⟨j, rest⟩⟩
    · exact fun _ => .read _
    · exact serves_bind (service.serves_requiredMedia i) fun _ =>
        serves_read_bind fun _ _ => .pure _
    · exact serves_ite (fun _ => .pure _) fun _ => .fail _
  · exact fun _ => .pure _

theorem serves_updateMedia (item : MediaFields) (parent : Option Nat) (i : Nat) :
    service.Serves ids (Program.write (service.updateMedia item parent i)) := by
  refine serves_frame [.mediaItems] (fun db => ?_) (by decide)
  unfold updateMedia
  split
  exacts [updateMediaItems_frame _ _, .refl db]

theorem stays_storeMedia (item : MediaFields) {known : Option SourceMediaRef}
    (matched : Option MediaItem) (parent : Option Nat)
    (hid : item.externalId ∈ ids)
    (hknown : db.byExternalIdentity service.sourceId item.externalId = known) :
    Stays (ServedWith service.sourceId ids db)
    (service.storeMedia item observedAt known matched parent) := by
  rcases known with _ | r
  · rcases matched with _ | m
    · refine .bind (.read _) fun i =>
        .bind (serves_frame _ (fun _ => insertMediaItem_frame _) (by decide) db) fun _ => ?_
      exact .bind (service.serves_addReference rfl hid db) fun _ => .pure _
    · exact .bind (service.serves_updateMedia item parent m.id db) fun _ =>
        .bind (service.serves_addReference rfl hid db) fun _ => .pure _
  · refine .bind (service.serves_requiredMedia _ db) fun media =>
      .bind (.write fun db' hdb' => ?_) fun _ => ?_
    · split
      · exact hdb'
      · have hframe : Frame [.mediaItems] db' (service.updateMedia item parent media.id db') := by
          unfold updateMedia
          split
          exacts [updateMediaItems_frame _ _, .refl db']
        exact hdb'.trans (.of_frame hframe (by decide))
    · exact .bind (service.stays_save hknown hid fun _ => ⟨rfl, rfl, rfl⟩) fun _ => .pure _

theorem serves_persistDetails (item : MediaFields) (persisted : Persisted) :
    service.Serves ids (service.persistDetails item persisted) := by
  refine serves_bind (serves_frame [.mediaFilePaths] (fun db => ?_) (by decide)) fun _ => ?_
  · split
    exacts [.refl db, savePaths_frame _ _ db]
  refine serves_bind (service.serves_syncIdentifierValues _ _) fun _ => ?_
  refine serves_bind (serves_frame detailTables (fun db => ?_) (by decide)) fun _ => ?_
  · split
    exacts [service.syncGenres_frame persisted.media db _, .refl db]
  exact serves_bind (service.serves_syncImage _ _ _) fun _ => service.serves_syncImage _ _ _

end MediaPersistenceService

end Euvieouvi
