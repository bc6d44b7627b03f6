import Euvieouvi.Catalog.Layers

/-!
# Places of the catalog

The place of an item is its kind, its parent and its season number. A catalog is numbered when every
episode has the number of the season it is below and no two seasons have the same place. Most of
`persist_media` leaves the places alone (`Quiet`); what is left is a container that is found or
made, and the item itself.
-/

namespace Euvieouvi

open Database Program

structure Place where
  kind : MediaKind
  parent : Option Nat
  number : Option Nat
deriving DecidableEq, Repr

def MediaItem.place (m : MediaItem) : Place := ⟨m.kind, m.parentId, m.seasonNumber⟩

namespace Place
variable {a : Place} {w l : Nat}

/-- The place after `l` has been merged into `w`. -/
def merged (w l : Nat) (a : Place) : Place := { a with parent := a.parent.map (mergeInto w l) }

theorem merged_of_ne (h : a.parent ≠ some l) : a.merged w l = a := by
  rcases a with ⟨kind, _ | p, number⟩
  · rfl
  · unfold merged
    rw [Option.map_some, mergeInto_of_ne fun heq => h (congrArg some heq)]

theorem merged_of_eq (h : a.parent = some l) : a.merged w l = { a with parent := some w } := by
  unfold merged
  rw [h, Option.map_some, mergeInto_loser]

end Place

/-- The places of the items that there are. -/
abbrev Places := Nat → Option Place

namespace Places
variable {f g : Places} {w l i : Nat} {a : Place}

structure Numbered (f : Places) : Prop where
  episodes : ∀ i p a b, f i = some a → a.kind = .episode → a.parent = some p → f p = some b →
    b.number = a.number
  once : ∀ i j a, f i = some a → f j = some a → a.kind = .season → i = j

/-- One item gets a place: its children have its number, it has that of its parent, and no season is
there. -/
theorem Numbered.set (h : Numbered f) (hg : ∀ j, g j = if j = i then some a else f j)
    (hchildren : ∀ j b, f j = some b → b.kind = .episode → b.parent = some i → a.number = b.number)
    (hparent : ∀ p b, a.kind = .episode → a.parent = some p → f p = some b → b.number = a.number)
    (hseason : ∀ j, a.kind = .season → f j = some a → j = i) : Numbered g where
  episodes j p b c hj hkind hp hc := by
    rw [hg] at hj hc
    split at hj <;> split at hc
    · cases hj
      cases hc
      rfl
    · cases hj
      exact hparent p c hkind hp hc
    next hpi =>
      cases hc
      exact hchildren j b hj hkind (hpi ▸ hp)
    · exact h.episodes j p b c hj hkind hp hc
  once j k b hj hk hkind := by
    rw [hg] at hj hk
    split at hj <;> split at hk
    next hji hki => rw [hji, hki]
    next hji _ =>
      cases hj
      rw [hji, hseason k hkind hk]
    next _ hki =>
      cases hk
      rw [hki, hseason j hkind hj]
    · exact h.once j k b hj hk hkind

/-- An item goes, and its children go to another. -/
theorem Numbered.merge (h : Numbered f)
    (hg : ∀ j, g j = if j = l then none else (f j).map (Place.merged w l))
    (hepisodes : ∀ i a b, f i = some a → a.kind = .episode → a.parent = some l → f w = some b →
      b.number = a.number)
    (hseasons : ∀ i j a b, f i = some a → f j = some b → a.kind = .season → b.kind = .season →
      a.parent = some l →
      b.parent = some w → a.number ≠ b.number) : Numbered g where
  episodes i p a' b' hi hkind hp hb := by
    rw [hg] at hi hb
    split at hi
    · cases hi
    split at hb
    · cases hb
    obtain ⟨a, ha, rfl⟩ := Option.map_eq_some_iff.1 hi
    obtain ⟨b, hrow, rfl⟩ := Option.map_eq_some_iff.1 hb
    show b.number = a.number
    by_cases hal : a.parent = some l
    · rw [Place.merged_of_eq hal, Option.some_inj] at hp
      exact hepisodes i a b ha hkind hal (hp ▸ hrow)
    · rw [Place.merged_of_ne hal] at hp
      exact h.episodes i p a b ha hkind hp hrow
  once i j c hi hj hkind := by
    rw [hg] at hi hj
    split at hi
    · cases hi
    split at hj
    · cases hj
    obtain ⟨a, ha, rfl⟩ := Option.map_eq_some_iff.1 hi
    obtain ⟨b, hb, heq⟩ := Option.map_eq_some_iff.1 hj
    obtain ⟨hk, hp, hn⟩ := Place.mk.inj heq
    have hbkind : b.kind = .season := hk.trans hkind
    by_cases hal : a.parent = some l <;> by_cases hbl : b.parent = some l
    · obtain rfl : b = a := by
        rcases a with ⟨_, _, _⟩
        rcases b with ⟨_, _, _⟩
        exact Place.mk.injEq .. ▸ ⟨hk, hbl.trans hal.symm, hn⟩
      exact h.once i j b ha hb hbkind
    · rw [Place.merged_of_eq hal, Place.merged_of_ne hbl] at heq
      exact absurd hn.symm (hseasons i j a b ha hb hkind hbkind hal (congrArg Place.parent heq))
    · rw [Place.merged_of_ne hal, Place.merged_of_eq hbl] at heq
      exact absurd hn (hseasons j i b a hb ha hbkind hkind hbl (congrArg Place.parent heq).symm)
    · rw [Place.merged_of_ne hal, Place.merged_of_ne hbl] at heq
      exact h.once i j a ha (heq ▸ hb) hkind

end Places

namespace Database
variable {db db' db'' : Database} {now : Time} {i : Nat}

def places (db : Database) : Places := fun i => (db.mediaItems.get? i).map (·.place)

/-- The item that a source shows under an id. -/
def targetOf (db : Database) (source : Nat) (externalId : String) : Option Nat :=
  (db.byExternalIdentity source externalId).map (·.mediaItemId)

/-- A catalog of layers that is numbered. -/
structure Shelved (db : Database) : Prop where
  layered : db.Layered
  numbered : db.places.Numbered

theorem places_of_get? {m : MediaItem} (h : db.mediaItems.get? i = some m) :
    db.places i = some m.place :=
  congrArg (Option.map MediaItem.place) h

theorem kindOf_of_places {a : Place} (h : db.places i = some a) :
    db.identityRows.kindOf i = some a.kind := by
  obtain ⟨m, hm, rfl⟩ := Option.map_eq_some_iff.1 h
  exact Option.map_eq_some_iff.2 ⟨m, hm, rfl⟩

theorem parentOf_of_places {a : Place} (h : db.places i = some a) :
    db.identityRows.parentOf i = a.parent := by
  obtain ⟨m, hm, rfl⟩ := Option.map_eq_some_iff.1 h
  exact congrArg (Option.bind · MediaItem.parentId) hm

theorem places_insertMediaItem {m : MediaItem} (hid : m.id = db.mediaItems.nextId) (j : Nat) :
    (db.insertMediaItem m).places j = if j = m.id then some m.place else db.places j := by
  unfold places
  rw [mediaItems_insertMediaItem]
  split
  next hj =>
    rw [hj, Table.get?_insert_self (by rw [hid]; exact db.mediaItems.get?_nextId)]
    rfl
  next hj => rw [Table.get?_insert_ne fun heq => hj heq.symm]

/-- A flush that leaves the places alone. -/
theorem places_saveMediaItem (db : Database) (now : Time) (i : Nat) (f : Assignment MediaItem.id)
    (hf : ∀ m : MediaItem, (f m).place = m.place) :
    (db.saveMediaItem now i f).places = db.places := by
  funext j
  obtain ⟨g, hget, hg⟩ := db.saveMediaItem_row now i j f
  have hplace : ∀ m, (g m).place = m.place := by
    intro m
    rcases hg m with heq | ⟨-, heq⟩ <;> rw [heq]
    exact hf m
  unfold places
  rw [hget, Option.map_map]
  exact congrArg (Option.map · _) (funext hplace)

theorem targetOf_saveSourceMediaRef (db : Database) (now : Time) (i : Nat)
    (f : Assignment SourceMediaRef.id)
    (hf : ∀ r, SameReference r (f r)) : (db.saveSourceMediaRef now i f).targetOf = db.targetOf := by
  funext source externalId
  unfold targetOf
  rw [byExternalIdentity_save now i f fun r => ⟨(hf r).1, (hf r).2.1⟩, Option.map_map]
  refine congrArg (Option.map · _) (funext fun r => ?_)
  dsimp only [Function.comp]
  split
  exacts [(hf r).2.2, rfl]

theorem targetOf_insertSourceMediaRef {r : SourceMediaRef} (hid : r.id = db.sourceMediaRefs.nextId)
    (source : Nat)
    (externalId : String) :
    (db.insertSourceMediaRef r).targetOf source externalId = (db.targetOf source externalId).or
      (if r.sourceId == source &&
        r.externalId == externalId then some r.mediaItemId else none) := by
  unfold targetOf
  rw [byExternalIdentity_insert hid, Option.map_or]
  split <;> rfl

theorem ParentFits.of_places {kind kp : MediaKind} {p : Nat} {a : Place}
    (hkp : kind.parentKind = some kp)
    (ha : db.places p = some a) (hkind : a.kind = kp) : db.ParentFits kind (some p) :=
  parentFits_some.2 ⟨kp, hkp, hkind ▸ kindOf_of_places ha⟩

theorem parentFits_congr (hplaces : db'.places = db.places) {kind : MediaKind}
    {parent : Option Nat} :
    db'.ParentFits kind parent ↔ db.ParentFits kind parent := by
  have hkind : db'.identityRows.kindOf = db.identityRows.kindOf := by
    funext j
    have hj := congrArg (Option.map Place.kind) (congrFun hplaces j)
    unfold places at hj
    rw [Option.map_map, Option.map_map] at hj
    exact hj
  unfold ParentFits
  rw [hkind]

theorem Shelved.of_places (h : db.Shelved) (hplaces : db'.places = db.places) : db'.Shelved where
  layered := by
    intro j m' hm'
    have hj := congrFun hplaces j
    rw [places_of_get? hm'] at hj
    obtain ⟨m, hm, heq⟩ := Option.map_eq_some_iff.1 hj.symm
    have hfits := h.layered j m hm
    rw [show m.kind = m'.kind from congrArg Place.kind heq,
      show m.parentId = m'.parentId from congrArg Place.parent heq] at hfits
    exact (parentFits_congr hplaces).2 hfits
  numbered := hplaces ▸ h.numbered

/-- An item without children gets a place that is free. -/
theorem Shelved.set {a : Place} (h : db.Shelved)
    (hg : ∀ j, db'.places j = if j = i then some a else db.places j)
    (hold : ∀ b, db.places i = some b → b.kind.isContainer = false ∧ a.kind.isContainer = false)
    (hfits : db.ParentFits a.kind a.parent)
    (hparent : ∀ p b, a.kind = .episode → a.parent = some p → db.places p = some b →
      b.number = a.number)
    (hseason : a.kind = .season → ∀ j, db.places j ≠ some a) : db'.Shelved where
  layered := by
    have hkinds : KindsStay db db' := by
      intro j k hk
      obtain ⟨m, hm, rfl⟩ := Option.map_eq_some_iff.1 hk
      by_cases hji : j = i
      · have hleaf := hold m.place (hji ▸ places_of_get? hm)
        refine ⟨a.kind, kindOf_of_places (by rw [hg, if_pos hji]), hleaf.2.trans hleaf.1.symm,
          fun hc => ?_⟩
        exact absurd (hleaf.1.symm.trans hc) Bool.false_ne_true
      · refine ⟨m.kind, kindOf_of_places (a := m.place) ?_, rfl, fun _ => rfl⟩
        rw [hg, if_neg hji, places_of_get? hm]
    refine h.layered.step hkinds fun j m' hm' => ?_
    have hplace := hg j
    rw [places_of_get? hm'] at hplace
    split at hplace
    · have heq := Option.some_inj.1 hplace
      rw [show m'.kind = a.kind from congrArg Place.kind heq,
        show m'.parentId = a.parent from congrArg Place.parent heq]
      exact .inr hfits
    · obtain ⟨m, hm, heq⟩ := Option.map_eq_some_iff.1 hplace.symm
      exact .inl ⟨m, hm, (congrArg Place.kind heq).symm, (congrArg Place.parent heq).symm⟩
  numbered := by
    refine h.numbered.set hg (fun j b hj _ hp => ?_) hparent fun j hkind hj =>
      absurd hj (hseason hkind j)
    have hjp := (parentOf_of_places hj).trans hp
    obtain ⟨_, kp, _, _, hkind⟩ := h.layered.parentOf hjp
    obtain ⟨m, hm, rfl⟩ := Option.map_eq_some_iff.1 hkind
    exact absurd hjp (h.layered.leaf_childless hkind (hold m.place (places_of_get? hm)).1)

/-- The places and what the sources show are what they were. -/
structure Quiet (db db' : Database) : Prop where
  places : db'.places = db.places
  targets : db'.targetOf = db.targetOf

namespace Quiet

theorem refl (db : Database) : Quiet db db := ⟨rfl, rfl⟩

theorem trans (h : Quiet db db') (h' : Quiet db' db'') : Quiet db db'' :=
  ⟨h'.places.trans h.places, h'.targets.trans h.targets⟩

theorem of_frame {written : List TableName} (h : Frame written db db')
    (hitems : .mediaItems ∉ written) (hrefs : .sourceMediaRefs ∉ written) : Quiet db db' := by
  have heq : db'.mediaItems = db.mediaItems := h .mediaItems hitems
  have heqRefs : db'.sourceMediaRefs = db.sourceMediaRefs := h .sourceMediaRefs hrefs
  constructor
  · unfold Database.places
    rw [heq]
  · unfold targetOf byExternalIdentity
    rw [heqRefs]

theorem save_item (db : Database) (now : Time) (i : Nat) (f : Assignment MediaItem.id)
    (hf : ∀ m : MediaItem, (f m).place = m.place) : Quiet db (db.saveMediaItem now i f) where
  places := db.places_saveMediaItem now i f hf
  targets := by
    have hrefs : (db.saveMediaItem now i f).sourceMediaRefs = db.sourceMediaRefs :=
      updateMediaItems_frame _ _ .sourceMediaRefs (by decide)
    unfold targetOf byExternalIdentity
    rw [hrefs]

theorem save_reference (db : Database) (now : Time) (i : Nat) (f : Assignment SourceMediaRef.id)
    (hf : ∀ r, SameReference r (f r)) : Quiet db (db.saveSourceMediaRef now i f) where
  places := by
    have hitems : (db.saveSourceMediaRef now i f).mediaItems = db.mediaItems :=
      saveSourceMediaRef_frame db now i f .mediaItems (by decide)
    unfold Database.places
    rw [hitems]
  targets := db.targetOf_saveSourceMediaRef now i f hf

end Quiet

end Database

/-! ### What leaves the places alone -/

theorem quiet_write {db₀ : Database} {g : Database → Database} (h : ∀ db, Quiet db (g db)) :
    Keeps (Quiet db₀) (Program.write g : Persist Unit) := .write fun db hdb => hdb.trans (h db)

/-- A program that is quiet after any start. -/
theorem quiet_ensures {α : Type} {p : Persist α} (h : ∀ db₀, Keeps (Quiet db₀) p) (db : Database) :
    p.Ensures (· = db) fun _ => Quiet db :=
  Ensures.mono (h db) (by rintro _ rfl; exact .refl _) fun _ _ h => h

theorem keeps_of_quiet {α : Type} {p : Persist α} {I : Database → Prop}
    (hI : ∀ db db', Quiet db db' → I db → I db') (h : ∀ db₀, Keeps (Quiet db₀) p) : Keeps I p :=
  .of_ensures (quiet_ensures h) fun db _ db' hquiet => hI db db' hquiet

namespace MediaPersistenceService
variable (service : MediaPersistenceService) {db₀ : Database}

theorem quiet_requiredMedia (i : Nat) : Keeps (Quiet db₀) (requiredMedia i) := by
  refine .bind (.read _) fun m => ?_
  split
  exacts [.pure _, .fail _]

theorem quiet_touchReference (r : SourceMediaRef) (observedAt : Time) :
    Keeps (Quiet db₀) (service.touchReference r observedAt) :=
  quiet_write fun db => .save_reference db _ _ _ fun _ => ⟨rfl, rfl, rfl⟩

theorem quiet_syncIdentifierValues (i : Nat) (identifiers : List ExternalIdentifier) :
    Keeps (Quiet db₀) (service.syncIdentifierValues i identifiers) := by
  refine .of_ensures (fun db => service.syncIdentifierValues_ensures i identifiers)
    fun db _ db' h hdb => ?_
  rcases h with rfl | ⟨-, h⟩
  · exact hdb
  · exact hdb.trans (.of_frame h.frame (by decide) (by decide))

theorem quiet_syncImage (i : Nat) (imageType : String) (path : Option String) :
    Keeps (Quiet db₀) (Program.write (service.syncImage i imageType path) : Persist Unit) :=
  quiet_write fun db =>
    .of_frame (service.syncImage_frame i db imageType path) (by decide) (by decide)

theorem quiet_mergeGenres (i : Nat) (names : List String) :
    Keeps (Quiet db₀) (Program.write (service.mergeGenres i names) : Persist Unit) :=
  quiet_write fun db => .of_frame (service.mergeGenres_frame i db names) (by decide) (by decide)

theorem quiet_ensureKnownAlbum (item : MediaFields) (t : TrackFields) (r : SourceMediaRef)
    (observedAt : Time) :
    Keeps (Quiet db₀) (service.ensureKnownAlbum item t r observedAt) := by
  refine .bind (service.quiet_touchReference r observedAt) fun _ =>
    .bind (quiet_requiredMedia _) fun album => .ite (.fail _) ?_
  refine .bind (quiet_write fun db => .save_item db _ _ _ fun _ => rfl) fun _ => ?_
  exact .bind (service.quiet_syncImage _ _ _) fun _ =>
    .bind (service.quiet_mergeGenres _ _) fun _ => .pure _

theorem writeShowMetadata_quiet (metadata : ShowMetadata) (i : Nat) (db : Database) :
    Quiet db (service.writeShowMetadata metadata i db) := by
  have htitled :
      Quiet db (db.saveMediaItem service.now i ⟨applyShowMetadata metadata, fun _ => rfl⟩) :=
    .save_item db _ i _ fun _ => rfl
  unfold writeShowMetadata
  dsimp only
  generalize db.saveMediaItem service.now i _ = titled at htitled ⊢
  have hgenred : Quiet db
      (if metadata.genres = [] then titled else service.syncGenres i metadata.genres titled) := by
    split
    exacts [htitled,
      htitled.trans (.of_frame (service.syncGenres_frame i titled _) (by decide) (by decide))]
  generalize (if metadata.genres =
    [] then titled else service.syncGenres i metadata.genres titled) = genred at hgenred ⊢
  have hposter : Quiet db (service.syncImage i "poster" metadata.thumbPath genred) :=
    hgenred.trans (.of_frame (service.syncImage_frame i genred _ _) (by decide) (by decide))
  exact hposter.trans (.of_frame (service.syncImage_frame i _ _ _) (by decide) (by decide))

theorem quiet_syncShowMetadata (item : ExternalMediaItem) (parent : Option Nat) :
    Keeps (Quiet db₀) (service.syncShowMetadata item parent) := by
  unfold syncShowMetadata
  split
  next e metadata parent _ _ =>
    refine .ite (.fail _)
      (.bind (quiet_requiredMedia _) fun season => .bind (quiet_requiredMedia _) fun «show» => ?_)
    refine .bind (.cached _) fun known =>
      .ite (.pure _) (.bind (.enter _) fun _ => .bind (.read _) fun open? => ?_)
    exact .ite (quiet_write (service.writeShowMetadata_quiet metadata «show».id)) (.pure _)
  next => exact .pure _

theorem quiet_persistDetails (item : MediaFields) (persisted : Persisted) :
    Keeps (Quiet db₀) (service.persistDetails item persisted) := by
  refine .bind (quiet_write fun db => ?_) fun _ => ?_
  · split
    exacts [.refl db, .of_frame (savePaths_frame _ _ db) (by decide) (by decide)]
  refine .bind (service.quiet_syncIdentifierValues persisted.media item.identifiers) fun _ => ?_
  refine .bind (quiet_write fun db => ?_) fun _ => ?_
  · split
    exacts [.of_frame (service.syncGenres_frame persisted.media db _) (by decide)
      (by decide), .refl db]
  exact .bind (service.quiet_syncImage _ _ _) fun _ => service.quiet_syncImage _ _ _

theorem quiet_persistEvent (event : ExternalWatchEvent) (origin : EventOrigin) :
    Keeps (Quiet db₀) (service.persistEvent event origin) := by
  refine .of_ensures (service.persistEvent_ensures event origin) fun db _ db' h hdb => ?_
  rcases h with rfl | h
  · exact hdb
  · exact hdb.trans (.of_frame h.frame (by decide) (by decide))

theorem quiet_persistPlayback (item : MediaFields) (observedAt : Time) (persisted : Persisted) :
    Keeps (Quiet db₀) (service.persistPlayback item observedAt persisted) := by
  refine .bind (.bind (.read _) fun pending => .forM pending fun w => ?_) fun _ =>
    .bind (.read _) fun regression => ?_
  · exact .bind (service.quiet_persistEvent _ _) fun _ => .pure _
  refine .bind (quiet_write fun db => ?_) fun _ => .bind ?_ fun _ => .pure _
  · exact .of_frame (service.syncWatchState_frame persisted.media observedAt db)
      (by decide) (by decide)
  · unfold persistStateEvent
    split
    exacts [service.quiet_persistEvent _ _, .pure _]

end MediaPersistenceService

end Euvieouvi
