import Euvieouvi.Persist.Pages
import Euvieouvi.Persist.Trace
import Euvieouvi.Reconcile.Respects

/-!
# The references of a call

A call of `persist_media` that ends normally makes the references of its item and of its containers
available, and no others: a reference that is new belongs to the library of the call, and one that
was there keeps its library. The artist of an album that has a reference is not one of them.
-/

namespace Euvieouvi

open Database Program

namespace Database

/-- The library and the availability of a reference of the source. -/
def refView (db : Database) (source : Nat) (externalId : String) : Option (Nat × Bool) :=
  (db.byExternalIdentity source externalId).map fun r => (r.libraryId, r.available)

theorem byExternalIdentity_of_frame {db db' : Database} {written : List TableName}
    (h : Frame written db db')
    (hw : .sourceMediaRefs ∉ written) (source : Nat) (externalId : String) :
    db'.byExternalIdentity source externalId = db.byExternalIdentity source externalId := by
  have heq : db'.sourceMediaRefs = db.sourceMediaRefs := h .sourceMediaRefs hw
  unfold byExternalIdentity
  rw [heq]

end Database

/-- The references of the source with these ids became available; the others are what they were, but
for their items. -/
structure Touches (service : MediaPersistenceService) (ids : List String)
    (db db' : Database) : Prop where
  view : ∀ e, db'.refView service.sourceId e =
    if e ∈
      ids then some (((db.refView service.sourceId e).map Prod.fst).getD service.libraryId, true)
    else db.refView service.sourceId e
  keeps : ∀ e r, db.byExternalIdentity service.sourceId e = some r →
    ∃ r', db'.byExternalIdentity service.sourceId e = some r' ∧ r'.id = r.id
  others : ∀ r' ∈ db'.sourceMediaRefs.rows, r'.sourceId = service.sourceId → r'.externalId ∉ ids →
    ∃ r ∈ db.sourceMediaRefs.rows, r' = { r with mediaItemId := r'.mediaItemId }

namespace Touches
variable {service : MediaPersistenceService} {ids ids' : List String} {db db' db'' : Database}

theorem of_frame {written : List TableName} (h : Frame written db db')
    (hw : .sourceMediaRefs ∉ written) :
    Touches service [] db db' where
  view e := by
    unfold refView
    rw [byExternalIdentity_of_frame h hw, if_neg List.not_mem_nil]
  keeps e r hr := ⟨r, by rw [byExternalIdentity_of_frame h hw, hr], rfl⟩
  others r' hr' _ _ := ⟨r', by
    rwa [show db'.sourceMediaRefs = db.sourceMediaRefs from h .sourceMediaRefs hw] at hr', rfl⟩

theorem refl (db : Database) : Touches service [] db db :=
  .of_frame (Frame.refl db) List.not_mem_nil

theorem trans (h : Touches service ids db db') (h' : Touches service ids' db' db'') :
    Touches service (ids ++ ids') db db'' where
  view e := by
    rw [h'.view, h.view]
    by_cases h₁ : e ∈ ids <;> by_cases h₂ : e ∈ ids' <;> simp [h₁, h₂]
  keeps e r hr := by
    obtain ⟨r', hr', hid⟩ := h.keeps e r hr
    obtain ⟨r'', hr'', hid'⟩ := h'.keeps e r' hr'
    exact ⟨r'', hr'', hid'.trans hid⟩
  others r'' hr'' hsource he := by
    obtain ⟨r', hr', heq'⟩ :=
      h'.others r'' hr'' hsource fun hmem => he (List.mem_append_right _ hmem)
    obtain ⟨r, hr, heq⟩ := h.others r' hr' (by rwa [heq'] at hsource) fun hmem =>
      he (List.mem_append_left _ (by rwa [heq']))
    exact ⟨r, hr, by rw [heq', heq]⟩

theorem congr (h : Touches service ids db db') (hids : ∀ e, e ∈ ids ↔ e ∈ ids') :
    Touches service ids' db db' where
  view e := by
    rw [h.view e]
    simp only [hids]
  keeps := h.keeps
  others r' hr' hsource he := h.others r' hr' hsource fun hmem => he ((hids _).1 hmem)

/-- A reference that is there is made available. -/
theorem save {e : String} {r : SourceMediaRef}
    (hr : db.byExternalIdentity service.sourceId e = some r) (now : Time)
    (f : Assignment SourceMediaRef.id)
    (hf : ∀ r : SourceMediaRef, (f r).sourceId = r.sourceId ∧ (f r).externalId = r.externalId)
    (hm : ∀ r : SourceMediaRef, (f r).libraryId = r.libraryId ∧ (f r).available = true) :
    Touches service [e] db (db.saveSourceMediaRef now r.id f) := by
  have hrow := mem_of_byExternalIdentity hr
  refine ⟨fun e' => ?_, fun e' r' hr' => ?_, fun r' hr' _ he => ?_⟩
  · unfold refView
    rw [byExternalIdentity_save now r.id f hf, Option.map_map]
    by_cases he : e' = e
    · rw [he, if_pos (List.mem_singleton.2 rfl), hr]
      dsimp only [Option.map_some, Function.comp_apply, Option.getD_some]
      split
      next => exact congrArg some (Prod.ext (hm r).1 (hm r).2)
      next hsame =>
        have hsame : f r = r := by simpa using hsame
        have hav := (hm r).2
        rw [hsame] at hav
        rw [hav]
    · rw [if_neg (by simpa using he)]
      cases hr' : db.byExternalIdentity service.sourceId e' with
      | none => rfl
      | some r' =>
        have hne : (r'.id == r.id) = false := by
          rw [beq_eq_false_iff_ne]
          intro hid
          have hrow' := mem_of_byExternalIdentity hr'
          have heq := db.sourceMediaRefs.eq_of_key_eq hrow'.1 hrow.1 hid
          exact he (hrow'.2.2.symm.trans (heq ▸ hrow.2.2))
        rw [Option.map_some, Function.comp_apply, hne, Bool.false_and]
        rfl
  · refine ⟨_, (byExternalIdentity_save now r.id f hf).trans (congrArg _ hr'), ?_⟩
    dsimp only
    split
    exacts [f.key_apply r', rfl]
  · unfold saveSourceMediaRef at hr'
    rw [sourceMediaRefs_updateSourceMediaRefs] at hr'
    obtain ⟨r₀, hr₀, rfl⟩ := Table.mem_update.1 hr'
    split at he
    next hsaved =>
      have hid : r₀.id = r.id := beq_iff_eq.1 (Bool.and_eq_true_iff.1 hsaved).1
      obtain rfl := db.sourceMediaRefs.eq_of_key_eq hr₀ hrow.1 hid
      exact absurd (List.mem_singleton.2 ((hf r₀).2.trans hrow.2.2)) he
    next hsaved => exact ⟨r₀, hr₀, by rw [if_neg hsaved]⟩

/-- A reference is added. -/
theorem insert {r : SourceMediaRef}
    (hfree : db.byExternalIdentity service.sourceId r.externalId = none)
    (hid : r.id = db.sourceMediaRefs.nextId) (hsource : r.sourceId = service.sourceId)
    (hlib : r.libraryId = service.libraryId)
    (hav : r.available = true) : Touches service [r.externalId] db (db.insertSourceMediaRef r) := by
  refine ⟨fun e' => ?_, fun e' r' hr' => ⟨r', ?_, rfl⟩, fun r' hr' _ he => ?_⟩
  · unfold refView
    rw [byExternalIdentity_insert hid]
    by_cases he : e' = r.externalId
    · rw [he, if_pos (List.mem_singleton.2 rfl), hfree]
      simp [hsource, hlib, hav]
    · have hno : (r.sourceId == service.sourceId && r.externalId == e') = false := by
        rw [Bool.and_eq_false_iff]
        exact .inr (beq_eq_false_iff_ne.2 (Ne.symm he))
      rw [if_neg (mt List.mem_singleton.1 he), hno, if_neg Bool.false_ne_true, Option.or_none]
  · rw [byExternalIdentity_insert hid, hr']
    rfl
  · rw [sourceMediaRefs_insertSourceMediaRef] at hr'
    rcases Table.mem_insert hr' with hr' | rfl
    · exact ⟨r', hr', rfl⟩
    · exact absurd (List.mem_singleton.2 rfl) he

end Touches

namespace MediaPersistenceService

/-- From any database, the program touches exactly these references. -/
def Shows {α : Type} (service : MediaPersistenceService) (p : Persist α)
    (ids : List String) : Prop :=
  ∀ db, p.Ensures (· = db) fun _ => Touches service ids db

variable (service : MediaPersistenceService) {α β : Type} {p : Persist β} {f : β → Persist α}
  {ids ids' : List String}

section Shows
variable {service}

theorem shows_pure (a : α) : service.Shows (pure a : Persist α) [] :=
  fun _ => .pure (by rintro db rfl; exact .refl db)

theorem shows_fail (e : PersistError) (ids : List String) :
    service.Shows (.fail e : Persist α) ids := fun _ => .fail e

theorem Shows.bind (hp : service.Shows p ids) (hf : ∀ b, service.Shows (f b) ids') :
    service.Shows (p >>= f) (ids ++ ids') :=
  fun db => .bind (hp db) fun b => .of_forall fun db₁ h₁ =>
    (hf b db₁).mono (fun _ h => h) fun _ _ h₂ => h₁.trans h₂

theorem shows_read_bind {g : Database → β} (hf : ∀ b, service.Shows (f b) ids) :
    service.Shows (Program.read g >>= f) ids :=
  fun db => .read_bind (by rintro d rfl; exact hf (g d) d)

theorem shows_write (written : List TableName) {g : Database → Database}
    (h : ∀ db, Frame written db (g db))
    (hw : .sourceMediaRefs ∉ written) : service.Shows (Program.write g) [] :=
  fun db => .write (by rintro _ rfl; exact .of_frame (h _) hw)

theorem shows_ite {c : Prop} [Decidable c] {q r : Persist α} (hq : service.Shows q ids)
    (hr : service.Shows r ids) :
    service.Shows (if c then q else r) ids := by
  split
  exacts [hq, hr]

/-- A program that leaves the database as it was. -/
theorem shows_of_reads {q : Persist α} {F : α → Database → Database → Prop}
    (h : ∀ db, q.Ensures (· = db) fun a db' => db' = db ∧ F a db db') : service.Shows q [] :=
  fun db => (h db).mono (fun _ h => h) fun _ _ h => by rw [h.1]; exact .refl db

end Shows

theorem addReference_shows {r : SourceMediaRef} (hsource : r.sourceId = service.sourceId)
    (hlib : r.libraryId = service.libraryId)
    (hav : r.available = true) : service.Shows (addReference r) [r.externalId] := fun db =>
  (addReference_ensures r db).mono (fun _ h => h) fun _ _ h => by
    obtain ⟨hfree, -, rfl⟩ := h
    rw [hsource] at hfree
    exact Touches.insert (r := { r with id := db.sourceMediaRefs.nextId }) hfree rfl
      hsource hlib hav

theorem requiredMedia_shows (i : Nat) : service.Shows (requiredMedia i) [] := by
  refine shows_read_bind fun m => ?_
  split
  exacts [shows_pure _, shows_fail _ _]

theorem syncIdentifierValues_shows (i : Nat) (identifiers : List ExternalIdentifier) :
    service.Shows (service.syncIdentifierValues i identifiers) [] := fun db =>
  (service.syncIdentifierValues_ensures i identifiers).mono (fun _ h => h) fun _ db' h => by
    rcases h with rfl | ⟨-, h⟩
    exacts [.refl _, .of_frame h.frame (by decide)]

theorem touchReference_touches {e : String} {r : SourceMediaRef} {db : Database} (observedAt : Time)
    (hr : db.byExternalIdentity service.sourceId e = some r) :
    (service.touchReference r observedAt).Ensures (· = db) fun _ => Touches service [e] db := by
  refine .write ?_
  rintro _ rfl
  exact .save hr _ _ (fun _ => ⟨rfl, rfl⟩) fun _ => ⟨rfl, rfl⟩

theorem bindReference_shows (i : Nat) (externalId : String) (observedAt : Time) :
    service.Shows (service.bindReference i externalId observedAt) [externalId] := by
  intro db
  refine .read_bind ?_
  rintro db rfl
  split
  next r hr => exact .ite (fun _ => .fail _) fun _ => service.touchReference_touches observedAt hr
  next =>
    have hdone : service.Shows (pure () : Persist Unit) [] := shows_pure ()
    have hadd := (service.addReference_shows
      (r := service.containerReference i externalId observedAt) rfl rfl rfl).bind
      fun _ => hdone
    exact hadd db

theorem bindExistingContainer_shows (i : Nat) (externalId : String) (path : Option String)
    (genres : List String)
    (observedAt : Time) : service.Shows
      (service.bindExistingContainer i externalId path genres observedAt) [externalId] :=
  (service.bindReference_shows i externalId observedAt).bind fun _ =>
    (shows_write _ (fun db => service.syncImage_frame i db _ _) (by decide)).bind fun _ =>
      shows_write _ (fun db => service.mergeGenres_frame i db _) (by decide)

theorem matchContainer_shows (c : Container) : service.Shows (service.matchContainer c) [] :=
  shows_of_reads (F := fun _ _ _ => True) fun db =>
    (service.matchContainer_ensures c db).mono (fun _ h => h) fun _ _ h => ⟨h.1, trivial⟩

theorem createContainer_shows (c : Container) (observedAt : Time) :
    service.Shows (service.createContainer c observedAt) [c.externalId] :=
  shows_read_bind fun id =>
    (shows_write _ (fun _ => insertMediaItem_frame _) (by decide)).bind fun _ =>
    (service.addReference_shows (r := service.containerReference id c.externalId observedAt) rfl rfl
        rfl).bind fun _ =>
      (shows_write _ (fun db => service.syncImage_frame id db _ _) (by decide)).bind fun _ =>
        (shows_write _ (fun db => service.mergeGenres_frame id db _) (by decide)).bind fun _ =>
          (service.syncIdentifierValues_shows id _).bind fun _ => shows_pure _

/-- What comes after the reference of a container touches no reference. -/
theorem after_touch {q : Persist α} {e : String} {r : SourceMediaRef} {db : Database}
    (observedAt : Time)
    (hr : db.byExternalIdentity service.sourceId e = some r) (hq : service.Shows q []) :
    (service.touchReference r observedAt >>= fun _ => q).Ensures (· = db) fun _ =>
      Touches service [e] db :=
  .bind (service.touchReference_touches observedAt hr) fun _ => .of_forall fun db₁ h₁ =>
    (hq db₁).mono (fun _ h => h) fun _ _ h₂ => h₁.trans h₂

theorem ensureKnownContainer_touches (c : Container) {r : SourceMediaRef} {db : Database}
    (observedAt : Time) (hr : db.byExternalIdentity service.sourceId c.externalId = some r) :
    (service.ensureKnownContainer c r observedAt).Ensures (· = db) fun _ =>
      Touches service [c.externalId] db := by
  refine service.after_touch observedAt hr ((service.requiredMedia_shows _).bind fun media =>
    shows_ite (shows_fail _ _) ?_)
  refine (shows_write _ (fun db => service.syncImage_frame media.id db _ _) (by decide)).bind
    fun _ => ?_
  refine (shows_write detailTables (fun db => ?_) (by decide)).bind fun _ => ?_
  · split
    exacts [.refl db, service.mergeGenres_frame media.id db _]
  · exact (service.syncIdentifierValues_shows _ _).bind fun _ => shows_pure _

theorem ensureContainer_shows (c : Container) (observedAt : Time) :
    service.Shows (service.ensureContainer c observedAt) [c.externalId] := by
  intro db
  refine .read_bind ?_
  rintro db rfl
  split
  next r hr => exact service.ensureKnownContainer_touches c observedAt hr
  next =>
    refine (service.matchContainer_shows c).bind (fun found => ?_) db
    split
    · exact (service.bindExistingContainer_shows _ _ _ _ observedAt).bind fun _ =>
        (service.syncIdentifierValues_shows _ _).bind fun _ => shows_pure _
    · exact service.createContainer_shows c observedAt

theorem bindExistingEpisodeHierarchy_shows (item : MediaFields) (e : EpisodeFields)
    (episode : MediaItem) (observedAt : Time) :
    service.Shows (service.bindExistingEpisodeHierarchy item e episode observedAt)
      [e.showExternalId, item.seasonReferenceId e] := by
  refine (service.requiredMedia_shows _).bind fun season =>
    (service.requiredMedia_shows _).bind fun «show» => ?_
  refine shows_ite (shows_fail _ _) ?_
  refine (shows_write [.mediaItems] (fun db => ?_) (by decide)).bind fun _ => ?_
  · split
    exacts [updateMediaItems_frame _ _, .refl db]
  · exact (service.bindExistingContainer_shows _ _ _ _ observedAt).bind fun _ =>
      (service.bindExistingContainer_shows _ _ _ _ observedAt).bind fun _ => shows_pure _

theorem ensureSeason_shows (item : MediaFields) (e : EpisodeFields) (observedAt : Time) :
    service.Shows (service.ensureSeason item e observedAt)
    [e.showExternalId, item.seasonReferenceId e] :=
  (service.ensureContainer_shows (showContainer item e) observedAt).bind fun «show» =>
    service.ensureContainer_shows (seasonContainer item e «show») observedAt

theorem ensureKnownAlbum_touches (item : MediaFields) (t : TrackFields) {r : SourceMediaRef}
    {db : Database} (observedAt : Time)
    (hr : db.byExternalIdentity service.sourceId t.albumExternalId = some r) :
    (service.ensureKnownAlbum item t r observedAt).Ensures (· = db) fun _ =>
      Touches service [t.albumExternalId] db := by
  refine service.after_touch observedAt hr ((service.requiredMedia_shows _).bind fun album =>
    shows_ite (shows_fail _ _) ?_)
  refine (shows_write _ (fun _ => updateMediaItems_frame _ _) (by decide)).bind fun _ => ?_
  refine (shows_write _ (fun db => service.syncImage_frame album.id db _ _) (by decide)).bind
    fun _ => ?_
  exact (shows_write _ (fun db => service.mergeGenres_frame album.id db _) (by decide)).bind
    fun _ => shows_pure _

end MediaPersistenceService

/-- The containers that `_ensure_hierarchy` makes available: the artist only with an album that is
new. -/
def MediaFields.shownContainers (item : MediaFields) (db : Database) (source : Nat) : List String :=
  match item.track?, item.episode? with
  | some t, _ =>
    if (db.byExternalIdentity source t.albumExternalId).isSome then [t.albumExternalId]
    else [t.artistExternalId, t.albumExternalId]
  | none, some e => [e.showExternalId, item.seasonReferenceId e]
  | none, none => []

namespace MediaPersistenceService
variable (service : MediaPersistenceService)

theorem ensureHierarchy_touches (item : MediaFields) (observedAt : Time)
    (matched : Option MediaItem) (db : Database) :
    (service.ensureHierarchy item observedAt matched).Ensures (· = db)
      fun _ => Touches service (item.shownContainers db service.sourceId) db := by
  unfold ensureHierarchy MediaFields.shownContainers
  rcases item.track? with _ | t
  · rcases item.episode? with _ | e
    · exact shows_pure _ db
    · rcases matched with _ | episode
      · exact ((service.ensureSeason_shows item e observedAt).bind fun _ => shows_pure _) db
      · exact ((service.bindExistingEpisodeHierarchy_shows item e episode observedAt).bind fun _ =>
          shows_pure _) db
  · dsimp only
    refine .bind (M := fun _ => Touches service _ db) (.read_bind ?_) fun _ => .pure fun _ h => h
    rintro db rfl
    split
    next r hr =>
      rw [hr]
      exact service.ensureKnownAlbum_touches item t observedAt hr
    next hnone =>
      rw [hnone]
      exact ((service.ensureContainer_shows (artistContainer item t) observedAt).bind fun artist =>
        service.ensureContainer_shows (albumContainer item t artist) observedAt) db

/-! ### The item -/

theorem writeShowMetadata_frame (metadata : ShowMetadata) (i : Nat) (db : Database) :
    Frame (.mediaItems :: detailTables) db (service.writeShowMetadata metadata i db) := by
  unfold writeShowMetadata
  dsimp only
  have htitled : Frame (.mediaItems :: detailTables) db
      (db.saveMediaItem service.now i ⟨applyShowMetadata metadata, fun _ => rfl⟩) :=
    (updateMediaItems_frame _ _).mono (by decide)
  generalize db.saveMediaItem service.now i ⟨applyShowMetadata metadata, fun _ => rfl⟩ =
    titled at htitled ⊢
  have hgenred : Frame (.mediaItems :: detailTables) titled
      (if metadata.genres = [] then titled else service.syncGenres i metadata.genres titled) := by
    split
    exacts [.refl _, (service.syncGenres_frame i titled _).mono (by decide)]
  refine (htitled.trans hgenred).trans ?_
  exact ((service.syncImage_frame i _ _ _).mono (by decide)).trans
    ((service.syncImage_frame i _ _ _).mono (by decide))

theorem syncShowMetadata_shows (item : ExternalMediaItem) (parent : Option Nat) :
    service.Shows (service.syncShowMetadata item parent) [] := by
  unfold syncShowMetadata
  split
  · refine shows_ite (shows_fail _ _) ?_
    refine (service.requiredMedia_shows _).bind fun season =>
      (service.requiredMedia_shows _).bind fun «show» => fun db => ?_
    refine .bind (M := fun _ => (· = db)) (.cached fun _ _ h => h) fun known =>
      .ite (fun _ => shows_pure _ db) fun _ => ?_
    refine .bind (M := fun _ => (· = db)) (.enter fun _ h => h) fun _ => .read_bind ?_
    rintro db rfl
    refine .ite (fun _ => ?_) fun _ => shows_pure _ db
    exact shows_write _ (fun db => service.writeShowMetadata_frame _ «show».id db) (by decide) db
  · exact shows_pure _

theorem updateMedia_frame (item : MediaFields) (parent : Option Nat) (i : Nat) (db : Database) :
    Frame [.mediaItems] db (service.updateMedia item parent i db) := by
  unfold updateMedia
  split
  exacts [updateMediaItems_frame _ _, .refl db]

theorem addMedia_shows (item : MediaFields) (observedAt : Time) (matched : Option MediaItem)
    (parent : Option Nat) :
    service.Shows (service.addMedia item observedAt matched parent) [item.externalId] := by
  unfold addMedia
  split
  next media =>
    refine (shows_write _ (fun db => service.updateMedia_frame item parent media.id db)
      (by decide)).bind fun _ => ?_
    exact (service.addReference_shows (r := service.leafReference item media.id observedAt) rfl rfl
      rfl).bind fun _ => shows_pure _
  next =>
    refine shows_read_bind fun id =>
      (shows_write _ (fun _ => insertMediaItem_frame _) (by decide)).bind fun _ => ?_
    exact (service.addReference_shows (r := service.leafReference item id observedAt) rfl rfl
      rfl).bind fun _ => shows_pure _

theorem observeMedia_touches (item : MediaFields) (observedAt : Time) {r r' : SourceMediaRef}
    (parent : Option Nat) {db : Database}
    (hr : db.byExternalIdentity service.sourceId item.externalId = some r') (hid : r'.id = r.id) :
    (service.observeMedia item observedAt r parent).Ensures (· = db) fun _ =>
      Touches service [item.externalId] db := by
  refine .bind (requiredMedia_ensures r.mediaItemId db) fun media => .of_forall ?_
  rintro db ⟨rfl, -⟩
  set unchanged := r.rawHash == some (service.mediaSignature item)
  have hupdated : Frame [.mediaItems] db
      (if unchanged then db else service.updateMedia item parent media.id db) := by
    split
    exacts [.refl db, service.updateMedia_frame item parent media.id db]
  have hr' :=
    (byExternalIdentity_of_frame hupdated (by decide) service.sourceId item.externalId).trans hr
  refine .bind
    (M := fun _ => (· = if unchanged then db else service.updateMedia item parent media.id db))
    (.write (by rintro _ rfl; rfl)) fun _ => ?_
  refine .bind (M := fun _ => Touches service [item.externalId] db) (.write ?_) fun _ =>
    .pure fun _ h => h
  rintro _ rfl
  refine (Touches.of_frame hupdated (by decide)).trans (?_ : Touches service [item.externalId] _ _)
  rw [← hid]
  exact .save hr' _ _ (fun _ => ⟨rfl, rfl⟩) fun _ => ⟨rfl, rfl⟩

theorem persistDetails_shows (item : MediaFields) (persisted : Persisted) :
    service.Shows (service.persistDetails item persisted) [] := by
  refine (shows_write [.mediaFilePaths] (fun db => ?_) (by decide)).bind fun _ => ?_
  · split
    exacts [.refl db, savePaths_frame _ _ db]
  refine (service.syncIdentifierValues_shows persisted.media item.identifiers).bind fun _ => ?_
  refine (shows_write detailTables (fun db => ?_) (by decide)).bind fun _ => ?_
  · split
    exacts [service.syncGenres_frame persisted.media db _, .refl db]
  exact (shows_write _ (fun db => service.syncImage_frame persisted.media db _ _) (by decide)).bind
      fun _ =>
    shows_write _ (fun db => service.syncImage_frame persisted.media db _ _) (by decide)

theorem persistEvent_shows (event : ExternalWatchEvent) (origin : EventOrigin) :
    service.Shows (service.persistEvent event origin) [] :=
  fun db => (service.persistEvent_ensures event origin db).mono (fun _ h => h) fun _ db' h => by
    rcases h with rfl | h
    exacts [.refl _, .of_frame h.frame (by decide)]

theorem persistPlayback_shows (item : MediaFields) (observedAt : Time) (persisted : Persisted) :
    service.Shows (service.persistPlayback item observedAt persisted) [] := by
  have hwebhooks : service.Shows (service.reconcileWebhookEvents item) [] := by
    refine shows_read_bind fun pending db => ?_
    refine Program.Ensures.mono (.forM (P := Touches service [] db) pending fun w _ => ?_)
      (by rintro _ rfl; exact .refl _)
      fun _ _ h => h
    refine .of_forall fun db₁ h₁ => ?_
    exact (((service.persistEvent_shows _ _).bind fun _ => shows_pure _) db₁).mono (fun _ h => h)
      fun _ _ h₂ => h₁.trans h₂
  refine hwebhooks.bind fun _ => shows_read_bind fun regression => ?_
  refine (shows_write _ (fun db => service.syncWatchState_frame persisted.media observedAt db)
    (by decide)).bind fun _ => ?_
  have hevent : service.Shows (service.persistStateEvent item) [] := by
    unfold persistStateEvent
    split
    exacts [service.persistEvent_shows _ _, shows_pure _]
  exact hevent.bind fun _ => shows_pure _

end MediaPersistenceService

/-- The references that `persist_media` makes available. -/
def MediaFields.shownIds (item : MediaFields) (db : Database) (source : Nat) : List String :=
  item.shownContainers db source ++ [item.externalId]

theorem MediaPersistenceService.persistMedia_touches (service : MediaPersistenceService)
    (item : ExternalMediaItem)
    (observedAt : Time) (db : Database) : (service.persistMedia item observedAt).Ensures (· = db)
      fun _ => Touches service (item.shownIds db service.sourceId) db := by
  refine .read_bind ?_
  rintro db rfl
  refine .bind (service.matchMedia_ensures _ db) fun matched => .of_forall ?_
  rintro db ⟨⟨rfl, -⟩, -⟩
  refine .bind (service.ensureHierarchy_touches item.toMediaFields observedAt matched db)
    fun parent => .of_forall fun db₁ h₁ => ?_
  refine .bind (service.syncShowMetadata_shows item parent db₁) fun _ => .of_forall fun db₂ h₂ => ?_
  have h₁₂ := h₁.trans h₂
  have hstore : (service.storeMedia item.toMediaFields observedAt
      (db.byExternalIdentity service.sourceId item.externalId) matched
      parent).Ensures (· = db₂) fun _ => Touches service [item.externalId] db₂ := by
    unfold storeMedia
    split
    next => exact service.addMedia_shows item.toMediaFields observedAt matched parent db₂
    next r hr =>
      obtain ⟨r', hr', hid⟩ := h₁₂.keeps _ r hr
      exact service.observeMedia_touches item.toMediaFields observedAt parent hr' hid
  refine .bind hstore fun persisted => .of_forall fun db₃ h₃ => ?_
  refine .bind (service.persistDetails_shows item.toMediaFields persisted db₃) fun _ =>
    .of_forall fun db₄ h₄ => ?_
  refine (service.persistPlayback_shows item.toMediaFields observedAt persisted db₄).mono
    (fun _ h => h) fun _ db₅ h₅ => ?_
  refine (((h₁₂.trans h₃).trans h₄).trans h₅).congr fun e => ?_
  simp [MediaFields.shownIds]

/-! ### A page -/

section Pages
variable (service : MediaPersistenceService)

/-- A merge leaves the references of a source where they are, but for their items. -/
theorem Touches.of_repoint {db : Database} {p : SourceMediaRef → Bool}
    {f : Assignment SourceMediaRef.id}
    (hf : ∀ r : SourceMediaRef, ∃ i, f r = { r with mediaItemId := i }) :
    Touches service [] db (db.updateSourceMediaRefs p f) := by
  have hget : ∀ source e, (db.updateSourceMediaRefs p f).byExternalIdentity source e =
      (db.byExternalIdentity source e).map fun r => if p r then f r else r := fun source e =>
    byExternalIdentity_update p f fun r => by
      obtain ⟨i, hi⟩ := hf r
      rw [hi]
      exact ⟨rfl, rfl⟩
  have hrow : ∀ r : SourceMediaRef, (if p r then f r else r).id = r.id ∧
      (if p r then f r else r).libraryId = r.libraryId ∧
        (if p r then f r else r).available = r.available := by
    intro r
    obtain ⟨i, hi⟩ := hf r
    split
    exacts [by rw [hi]; exact ⟨rfl, rfl, rfl⟩, ⟨rfl, rfl, rfl⟩]
  refine ⟨fun e => ?_, fun e r hr => ⟨_, (hget _ _).trans (congrArg _ hr), (hrow r).1⟩,
    fun r' hr' _ _ => ?_⟩
  · unfold refView
    rw [hget, if_neg List.not_mem_nil, Option.map_map]
    exact congrArg (Option.map · _) (funext fun r => Prod.ext (hrow r).2.1 (hrow r).2.2)
  · rw [sourceMediaRefs_updateSourceMediaRefs] at hr'
    obtain ⟨r, hr, rfl⟩ := Table.mem_update.1 hr'
    obtain ⟨i, hi⟩ := hf r
    refine ⟨r, hr, ?_⟩
    split
    exacts [by rw [hi], rfl]

theorem mergeItem_touches (db : Database) (now : Time) (w l : Nat) :
    Touches service [] db (db.mergeItem now w l) := by
  unfold mergeItem
  have hfill : Touches service [] db (db.fillMissing now w l) :=
    .of_frame (db.fillMissing_spec now w l).1 (by decide)
  generalize db.fillMissing now w l = d₁ at hfill ⊢
  have hdrop : Touches service [] d₁ (d₁.dropContradictedIdentifiers w l) :=
    .of_frame (d₁.dropContradictedIdentifiers_frame w l) (by decide)
  generalize d₁.dropContradictedIdentifiers w l = d₂ at hdrop ⊢
  have hmeta : Touches service [] d₂ (d₂.moveMetadata w l) :=
    .of_frame (d₂.moveMetadata_frame w l) (by decide)
  generalize d₂.moveMetadata w l = d₃ at hmeta ⊢
  have hstates : Touches service [] d₃ (d₃.mergeWatchStates w l) :=
    .of_frame (d₃.mergeWatchStates_frame w l) (by decide)
  generalize d₃.mergeWatchStates w l = d₄ at hstates ⊢
  have hevents : Touches service [] d₄ (d₄.moveWatchEvents w l) :=
    .of_frame (updateWatchEvents_frame _ _) (by decide)
  generalize d₄.moveWatchEvents w l = d₅ at hevents ⊢
  have hrefs : Touches service [] d₅ (d₅.moveReferences w l) :=
    .of_repoint service fun r => ⟨w, rfl⟩
  generalize d₅.moveReferences w l = d₆ at hrefs ⊢
  have hchildren : Touches service [] d₆ (d₆.moveChildren w l) :=
    .of_frame (updateMediaItems_frame _ _) (by decide)
  generalize d₆.moveChildren w l = d₇ at hchildren ⊢
  have hdelete : Touches service [] d₇ (d₇.deleteMediaItem l) :=
    .of_frame (deleteMediaItem_frame d₇ l) (by decide)
  exact ((((((hfill.trans hdrop).trans hmeta).trans hstates).trans hevents).trans hrefs).trans
    hchildren).trans hdelete

theorem respects_touches : Respects (Touches service []) where
  refl := .refl
  trans h h' := h.trans h'
  merge := mergeItem_touches service
  move db now parent i := .of_frame (updateMediaItems_frame _ _) (by decide)
  stale db :=
    .of_frame (fun name (_ : name ∉ ([] : List TableName)) => by cases name <;> rfl) (by decide)

namespace MediaPersistenceService

theorem reconciled_shows {call : Database → Database × List MergeStep}
    (h : ∀ db, Touches service [] db (call db).1) :
    service.Shows (reconciled call) [] := by
  intro db s n s' hs hr
  obtain ⟨rfl, rfl⟩ : n = (call s.store).2.length ∧ s' = { s with store := (call s.store).1 } := by
    have hpair := Prod.ext_iff.1 (show (Except.ok (call s.store).2.length,
      ({ s with store := (call s.store).1 } : PersistSession)) =
      (.ok n, s') from hr)
    exact ⟨(Except.ok.inj hpair.1).symm, hpair.2.symm⟩
  rw [← show s.store = db from hs]
  exact h s.store

theorem reconcileIdentityOnce_shows (kind : MediaKind) (identifiers : List ExternalIdentifier) :
    service.Shows (service.reconcileIdentityOnce kind identifiers) [] := by
  refine shows_ite (shows_pure _) fun db => ?_
  refine .bind (M := fun _ => (· = db)) (.cached fun _ _ h => h) fun known =>
    .ite (fun _ => shows_pure _ db) fun _ => ?_
  refine .bind (M := fun _ => (· = db)) (.enter fun _ h => h) fun _ => ?_
  exact service.reconciled_shows
    (fun db => (respects_touches service).reconcileMatchingItems _ _ _ _ db) db

theorem reconcilePersistedItem_shows (item : MediaFields) (includeLeaf : Bool) :
    service.Shows (service.reconcilePersistedItem item includeLeaf) [] := by
  have hleaf : service.Shows (if includeLeaf then service.reconcileIdentityOnce item.kind
      item.identifiers else pure 0) [] :=
    shows_ite (service.reconcileIdentityOnce_shows _ _) (shows_pure _)
  refine hleaf.bind fun leaf => ?_
  have hshow : service.Shows (if item.kind =
      .episode then service.reconcileIdentityOnce .show item.showIdentifiers else pure 0) [] :=
    shows_ite (service.reconcileIdentityOnce_shows _ _) (shows_pure _)
  exact hshow.bind fun _ => shows_pure _

theorem reconcileNow_shows (item : MediaFields) (media : Nat) :
    service.Shows (service.reconcileNow item media) [] := by
  have hphysical : service.Shows (if item.filePaths =
      [] then pure 0 else reconciled (·.reconcilePhysicalItem service.now media)) [] :=
    shows_ite (shows_pure _)
      (service.reconciled_shows fun db => (respects_touches service).reconcilePhysicalItem _ _ db)
  exact hphysical.bind fun _ => (service.reconcilePersistedItem_shows item _).bind fun _ =>
    shows_pure _

/-- The references that an item makes available: those of `persist_media`, unless it fails. -/
def outcomeIds (item : MediaFields) (db : Database) (outcome : PageOutcome) : List String :=
  if outcome.result.isSome then item.shownIds db service.sourceId else []

/-- Touching nothing, an item would still touch the same references. -/
theorem shownIds_of_touches {item : MediaFields} {db db' : Database}
    (h : Touches service [] db db') :
    item.shownIds db' service.sourceId = item.shownIds db service.sourceId := by
  have hsome : ∀ e, (db'.byExternalIdentity service.sourceId e).isSome =
      (db.byExternalIdentity service.sourceId e).isSome := by
    intro e
    have hview := congrArg Option.isSome (h.view e)
    rw [if_neg List.not_mem_nil] at hview
    unfold refView at hview
    rwa [Option.isSome_map, Option.isSome_map] at hview
  unfold MediaFields.shownIds MediaFields.shownContainers
  simp only [hsome]

/-- What an attempt to persist an item leaves. -/
def Attempted (ids : List String) (db : Database) : Except PersistError PersistResult →
    Database → Prop
  | .ok _, db' => Touches service ids db db'
  | .error _, db' => db' = db

theorem retry_touches (x : PagedItem) (repaired : Nat) (db : Database) :
    (service.retry x repaired).Ensures (· = db)
    fun outcome => Touches service (service.outcomeIds x.item.toMediaFields db outcome) db := by
  refine .bind (M := service.Attempted (x.item.shownIds db service.sourceId) db)
    (.attempt (service.persistMedia_touches x.item x.retriedAt db) fun _ => rfl) fun r => ?_
  rcases r with e | result
  · exact .pure (by rintro _ rfl; exact .refl _)
  · exact .pure fun _ h => h

theorem repair_touches (x : PagedItem) (original : PersistError) (db : Database) :
    (service.repair x original).Ensures (· = db)
    fun outcome => Touches service (service.outcomeIds x.item.toMediaFields db outcome) db := by
  refine .bind (M := fun _ => Touches service [] db)
    (.attempt (service.reconcilePersistedItem_shows _ true db) fun _ => .refl db)
    fun r => ?_
  split
  · exact .pure fun _ h => h
  · refine .of_forall fun db₁ h₁ =>
      (service.retry_touches x _ db₁).mono (fun _ h => h) fun outcome db₂ h₂ => ?_
    refine (h₁.trans h₂).congr fun e => ?_
    unfold outcomeIds
    rw [service.shownIds_of_touches h₁]
    exact Iff.rfl

theorem persistMediaWithRepair_touches (x : PagedItem) (db : Database) :
    (service.persistMediaWithRepair x).Ensures (· = db)
    fun outcome => Touches service (service.outcomeIds x.item.toMediaFields db outcome) db := by
  refine .bind (M := service.Attempted (x.item.shownIds db service.sourceId) db)
    (.attempt (service.persistMedia_touches x.item x.observedAt db) fun _ => rfl) fun r => ?_
  rcases r with original | result
  · refine .of_forall ?_
    rintro _ rfl
    exact service.repair_touches x original _
  · refine .of_forall fun db₁ h₁ => ?_
    have hafter : (service.reconcileAfter x.item.toMediaFields result).Ensures (· = db₁)
        fun outcome db₂ => Touches service [] db₁ db₂ ∧ outcome.result = some result := by
      refine .bind (M := fun _ => Touches service [] db₁)
        (.attempt (service.reconcileNow_shows _ _ db₁) fun _ => .refl db₁)
        fun r => ?_
      rcases r with e | repaired
      exacts [.pure fun _ h => ⟨h, rfl⟩, .pure fun _ h => ⟨h, rfl⟩]
    refine hafter.mono (fun _ h => h) fun outcome db₂ h₂ => ?_
    refine (h₁.trans h₂.1).congr fun e => ?_
    unfold outcomeIds
    rw [h₂.2, List.append_nil]
    exact Iff.rfl

end MediaPersistenceService

end Pages

end Euvieouvi
