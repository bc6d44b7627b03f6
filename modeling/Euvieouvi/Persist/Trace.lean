import Euvieouvi.Persist.Writes

/-!
# The writes of a call

A call of `persist_media` that ends normally has done nothing but the writes of `Persist/Writes`:
one lemma for each function, in the order in which they call each other. The lemmas about the
hierarchy also say what it leaves: a parent of the right kind, and the containers shown by the
source.
-/

namespace Euvieouvi

open Database Program

/-- The tables that `_sync_genres` writes. -/
abbrev Database.genreTables : List Database.TableName := [.genres, .mediaGenres]

namespace MediaPersistenceService
variable (service : MediaPersistenceService) {item : MediaFields} {s s' : PersistSession}

section Details
variable (i : Nat) (db : Database)

theorem syncImage_frame (imageType : String) (path : Option String) :
    Frame detailTables db (service.syncImage i imageType path db) := by
  have himages : ∀ t, Frame detailTables db { db with mediaImages := t } :=
    fun t name h => by cases name <;> first | rfl | exact absurd (by decide) h
  unfold syncImage
  split
  · exact .refl db
  · split
    · exact .refl db
    · dsimp only
      split
      · exact himages _
      · split
        · exact .refl db
        · split
          · exact himages _
          · exact .refl db

theorem linkGenre_frame (entry : String × String) : Frame genreTables db (linkGenre i db entry) :=
  fun name h => by cases name <;> first | rfl | exact absurd (by decide) h

theorem syncGenres_genres (names : List String) :
    Frame genreTables db (service.syncGenres i names db) := by
  have hlinks : ∀ (entries : List (String × String)) (db : Database),
      Frame genreTables db (entries.foldl (linkGenre i) db) := by
    intro entries
    induction entries with
    | nil => exact fun db => .refl db
    | cons entry entries ih => exact fun db => (linkGenre_frame i db entry).trans (ih _)
  have hgenres : ∀ (db : Database) t, Frame genreTables db { db with mediaGenres := t } :=
    fun db t name h => by cases name <;> first | rfl | exact absurd (by decide) h
  exact (hlinks _ db).trans (hgenres _ _)

theorem syncGenres_frame (names : List String) :
    Frame detailTables db (service.syncGenres i names db) :=
  (service.syncGenres_genres i db names).mono (by decide)

theorem mergeGenres_genres (names : List String) :
    Frame genreTables db (service.mergeGenres i names db) := by
  unfold mergeGenres
  split
  · exact .refl db
  · exact service.syncGenres_genres i db _

theorem mergeGenres_frame (names : List String) :
    Frame detailTables db (service.mergeGenres i names db) :=
  (service.mergeGenres_genres i db names).mono (by decide)

end Details

section Identifiers
variable (i : Nat) {db₀ : Database}

/-- The rows to be deleted belonged to the item at first. -/
def PendingIdentifiers.Of (pending : PendingIdentifiers) (i : Nat) (db : Database) : Prop :=
  ∀ id ∈ pending.deleted, ∃ r ∈ db.mediaIdentifiers.rows, r.id = id ∧ r.mediaItemId = i

theorem flushIdentifiers_ensures {pending : PendingIdentifiers} (hp : pending.Of i db₀) :
    (service.flushIdentifiers i pending).Ensures (Identified i db₀) fun pending db =>
      pending.Of i db₀ ∧ Identified i db₀ db := by
  refine .read_bind fun db hdb => .ite (fun _ => .fail _) fun _ => ?_
  refine .bind (M := fun _ => Identified i db₀) (.write ?_) fun _ => .pure fun db hdb =>
    ⟨fun id hid => absurd hid List.not_mem_nil, hdb⟩
  rintro _ rfl
  have hins := hdb.trans (insertIdentifiers_identified service.now i pending.added _)
  refine hins.trans ⟨deleteMediaIdentifiers_frame _, ?_⟩
  rw [mediaIdentifiers_deleteMediaIdentifiers]
  refine Table.filter_delete fun r hr hsel => ?_
  -- a row of another item was there at first, so it has none of these ids
  obtain ⟨r₀, hr₀, hid, hi⟩ := hp r.id (by simpa using hsel)
  by_contra hother
  have hmem : r ∈ db₀.mediaIdentifiers.rows.filter (·.mediaItemId != i) := by
    rw [← hins.others]
    exact List.mem_filter.2 ⟨hr, by simpa using hother⟩
  obtain ⟨hrow, hne⟩ := List.mem_filter.1 hmem
  rw [← db₀.mediaIdentifiers.eq_of_key_eq hr₀ hrow hid, hi] at hne
  simp at hne

theorem syncIdentifier_ensures {pending : PendingIdentifiers} {existing : List MediaIdentifier}
    (hexisting : ∀ r ∈ existing, r ∈ db₀.mediaIdentifiers.rows ∧ r.mediaItemId = i)
    (identifier : ExternalIdentifier) :
    (service.syncIdentifier i existing pending identifier).Ensures
      (fun db => pending.Of i db₀ ∧ Identified i db₀ db)
      fun pending db => pending.Of i db₀ ∧ Identified i db₀ db := by
  refine .read_bind fun db hdb => ?_
  refine .bind (M := fun (pending : PendingIdentifiers) db => pending.Of i db₀ ∧
    Identified i db₀ db) (.ite (fun _ => ?_) fun _ => ?_) fun pending => ?_
  · exact (service.flushIdentifiers_ensures i hdb.1).mono (by rintro _ rfl; exact hdb.2)
      fun _ _ h => h
  · exact .pure (by rintro _ rfl; exact hdb)
  refine .ite (fun _ => .pure fun _ h => h) fun _ => .pure fun _ h => ⟨fun id hid => ?_, h.2⟩
  dsimp only at hid
  split at hid
  · rcases List.mem_append.1 hid with hid | hid
    · exact h.1 id hid
    · obtain ⟨r, hr, rfl⟩ := List.mem_map.1 hid
      obtain ⟨hrow, hi⟩ := hexisting r (List.mem_of_mem_filter (List.mem_of_mem_filter hr))
      exact ⟨r, hrow, rfl, hi⟩
  · exact h.1 id hid

/-- `_sync_identifier_values` writes identifiers of its item, and none of an item that was matched
by hand. -/
theorem syncIdentifierValues_ensures (identifiers : List ExternalIdentifier) :
    (service.syncIdentifierValues i identifiers).Ensures (· = db₀) fun _ db =>
      db = db₀ ∨ db₀.identityRows.manualMatchOf i = none ∧ Identified i db₀ db := by
  refine .read_bind ?_
  rintro db rfl
  refine .ite (fun _ => .pure fun _ h => .inl h) fun hopen => ?_
  refine .bind (M := fun _ => (· = db)) (.cached fun _ _ h => h) fun known => ?_
  refine .ite (fun _ => .pure fun _ h => .inl h) fun _ => ?_
  have hmanual : db.identityRows.manualMatchOf i = none := by
    rw [← Option.not_isSome_iff_eq_none]
    intro h
    exact hopen (by rw [h]; rfl)
  refine .read_bind ?_
  rintro db rfl
  refine .bind (M := fun (pending : PendingIdentifiers) db' => pending.Of i db ∧
    Identified i db db') ?_ fun pending => ?_
  · refine Program.Ensures.mono (.foldlM
      (M := fun (pending : PendingIdentifiers) db' => pending.Of i db ∧ Identified i db db')
      identifiers (fun pending x _ => service.syncIdentifier_ensures i (fun r hr => ?_) x) {}) ?_
        fun _ _ h => h
    · obtain ⟨hrow, hi⟩ := List.mem_filter.1 hr
      exact ⟨hrow, by simpa using hi⟩
    · rintro _ rfl
      exact ⟨fun id hid => absurd hid List.not_mem_nil, .refl i _⟩
  refine .of_forall fun db' hdb' => ?_
  refine .bind (M := fun _ => Identified i db) (.enter (by rintro _ rfl; exact hdb'.2)) fun _ => ?_
  exact .bind (service.flushIdentifiers_ensures i hdb'.1) fun _ => .pure fun _ h =>
    .inr ⟨hmanual, h.2⟩

end Identifiers

theorem manualMatchOf_of_mayUpdate {service : MediaPersistenceService} {db : Database} {i : Nat}
    (h : service.canonicalSourceMayUpdate db i = true) :
    db.identityRows.manualMatchOf i = none := by
  unfold canonicalSourceMayUpdate at h
  split at h
  next => cases h
  next hopen => simpa using hopen

/-! ### Containers -/

section Containers
variable {db₀ : Database} {F : Database → Prop} {α : Type} {p : Persist α}

/-- A fact no write of the hierarchy takes away. -/
def Stable (service : MediaPersistenceService) (item : MediaFields) (F : Database → Prop) : Prop :=
  ∀ db db', HierarchyWrites service item db db' → F db → F db'

/-- Writes of the hierarchy, after which `F` holds. -/
abbrev Reaches (service : MediaPersistenceService) (item : MediaFields) (db₀ : Database)
    (F : Database → Prop) (db : Database) :
    Prop := HierarchyWrites service item db₀ db ∧ F db

theorem ensures_keeps (hF : Stable service item F)
    (h : ∀ db, p.Ensures (· = db) fun _ => HierarchyWrites service item db) :
    p.Ensures (Reaches service item db₀ F) fun _ => Reaches service item db₀ F :=
  .of_forall fun db hdb => (h db).mono (fun _ h => h) fun _ db' hw =>
    ⟨hdb.1.trans hw, hF db db' hw hdb.2⟩

theorem write_ensures {g : Database → Database} (h : ∀ db, HierarchyWrite service item db (g db))
    (db : Database) :
    (Program.write g : Persist Unit).Ensures (· = db) fun _ => HierarchyWrites service item db :=
  .write (by rintro _ rfl; exact .single (h _))

theorem syncIdentifierValues_writes (i : Nat) (identifiers : List ExternalIdentifier)
    (db : Database) :
    (service.syncIdentifierValues i identifiers).Ensures (· = db) fun _ =>
      HierarchyWrites service item db :=
  (service.syncIdentifierValues_ensures i identifiers).mono (fun _ h => h) fun _ db' h => by
    rcases h with rfl | ⟨hmanual, hids⟩
    exacts [.refl, .single (.identify i hmanual hids)]

variable {service}

theorem stable_shown (externalId : String) (i : Nat) :
    Stable service item (·.Shown service.sourceId externalId i) :=
  fun _ _ hw h => hw.shown h

theorem stable_kindOf (i : Nat) (kind : MediaKind) :
    Stable service item fun db => db.identityRows.kindOf i = some kind :=
  fun _ _ hw h => hw.itemsKept.kindOf h

theorem Stable.and {G : Database → Prop} (hF : Stable service item F) (hG : Stable service item G) :
    Stable service item fun db => F db ∧ G db :=
  fun _ _ hw h => ⟨hF _ _ hw h.1, hG _ _ hw h.2⟩

variable (service)

theorem addReference_ensures (r : SourceMediaRef) (db : Database) :
    (addReference r).Ensures (· = db) fun id db' =>
    db.byExternalIdentity r.sourceId r.externalId = none ∧ id = db.sourceMediaRefs.nextId ∧
      db' = db.insertSourceMediaRef { r with id := db.sourceMediaRefs.nextId } := by
  refine .read_bind ?_
  rintro db rfl
  refine .ite (fun _ => .fail _) fun hfree => .read_bind ?_
  rintro db rfl
  refine .bind
    (M := fun _ db' => db' = db.insertSourceMediaRef { r with id := db.sourceMediaRefs.nextId })
    (.write (by rintro _ rfl; rfl)) fun _ => .pure fun db' hdb' => ⟨?_, rfl, hdb'⟩
  simpa using hfree

theorem requiredMedia_ensures (i : Nat) (db : Database) :
    (requiredMedia i).Ensures (· = db) fun m db' =>
    db' = db ∧ db.mediaItems.get? i = some m := by
  refine .read_bind ?_
  rintro db rfl
  split
  next m hm => exact .pure (by rintro _ rfl; exact ⟨rfl, hm⟩)
  next => exact .fail _

/-- A container that was touched is shown. -/
theorem touchReference_ensures {r : SourceMediaRef} {externalId : String} (observedAt : Time)
    {db : Database}
    (hr : db.byExternalIdentity service.sourceId externalId = some r)
    (hid : externalId ∈ item.containerIds) :
    (service.touchReference r observedAt).Ensures (· = db)
      fun _ => Reaches service item db (·.Shown service.sourceId externalId r.mediaItemId) := by
  obtain ⟨hrow, hsource, rfl⟩ := mem_of_byExternalIdentity hr
  refine .write ?_
  rintro db rfl
  exact ⟨.single (.touch r observedAt hrow hsource hid),
    shown_save hr _ _ (fun _ => ⟨rfl, rfl⟩) fun _ => ⟨rfl, rfl⟩⟩

/-- A reference that was added is shown. -/
theorem shown_insert {db : Database} {r : SourceMediaRef}
    (hfree : db.byExternalIdentity r.sourceId r.externalId = none)
    (hid : r.id = db.sourceMediaRefs.nextId) (hav : r.available = true) :
    (db.insertSourceMediaRef r).Shown r.sourceId r.externalId r.mediaItemId := by
  refine ⟨r, ?_, hav, rfl⟩
  rw [byExternalIdentity_insert hid, hfree]
  simp

theorem bindReference_ensures {i : Nat} {externalId : String} (observedAt : Time) {db : Database}
    {kind : MediaKind}
    (hid : externalId ∈ item.containerIds) (hkind : db.identityRows.kindOf i = some kind)
    (hcontainer : kind.isContainer = true) :
    (service.bindReference i externalId observedAt).Ensures (· = db)
      fun _ => Reaches service item db (·.Shown service.sourceId externalId i) := by
  refine .read_bind ?_
  rintro db rfl
  split
  next r hr =>
    refine .ite (fun _ => .fail _) fun hsame => ?_
    rw [not_not] at hsame
    rw [← hsame]
    exact service.touchReference_ensures observedAt hr hid
  next =>
    refine .bind (addReference_ensures _ db) fun _ => .pure ?_
    rintro _ ⟨hfree, -, rfl⟩
    exact ⟨.single (.refer i externalId observedAt kind hfree hid hkind hcontainer),
      shown_insert hfree rfl rfl⟩

theorem bindExistingContainer_ensures {i : Nat} {externalId : String} (path : Option String)
    (genres : List String)
    (observedAt : Time) {db : Database} {kind : MediaKind} (hid : externalId ∈ item.containerIds)
    (hkind : db.identityRows.kindOf i = some kind) (hcontainer : kind.isContainer = true) :
    (service.bindExistingContainer i externalId path genres observedAt).Ensures (· = db)
      fun _ => Reaches service item db (·.Shown service.sourceId externalId i) := by
  have hs : Stable service item (·.Shown service.sourceId externalId i) := stable_shown externalId i
  refine .bind (service.bindReference_ensures observedAt hid hkind hcontainer) fun _ => ?_
  refine .bind (service.ensures_keeps hs
    (service.write_ensures fun db => .detail (service.syncImage_frame i db _ _))) fun _ => ?_
  exact service.ensures_keeps hs
    (service.write_ensures fun db => .detail (service.mergeGenres_frame i db _))

theorem mem_mediaIdsForKind {db : Database} {kind : MediaKind}
    {identifiers : List ExternalIdentifier} {i : Nat}
    (h : i ∈ db.mediaIdsForKind kind identifiers) : db.identityRows.kindOf i = some kind := by
  obtain ⟨r, hr, rfl⟩ := List.mem_map.1 (List.mem_eraseDups.1 h)
  have hsel := (List.mem_filter.1 hr).2
  rw [Bool.and_eq_true, Option.any_eq_true] at hsel
  obtain ⟨⟨m, hm, hk⟩, -⟩ := hsel
  exact Option.map_eq_some_iff.2 ⟨m, hm, beq_iff_eq.1 hk⟩

/-- What the matches of a container have in common. -/
abbrev Found (kind : MediaKind) (db : Database) (found : Option Nat) (db' : Database) : Prop :=
  db' = db ∧ ∀ i, found = some i → db.identityRows.kindOf i = some kind

theorem ensures_none (kind : MediaKind) (db : Database) :
    (pure none : Persist (Option Nat)).Ensures (· = db) (Found kind db) :=
  .pure (by rintro _ rfl; exact ⟨rfl, fun i h => by cases h⟩)

theorem ensures_some {kind : MediaKind} {db : Database} {i : Nat}
    (h : db.identityRows.kindOf i = some kind) :
    (pure (some i) : Persist (Option Nat)).Ensures (· = db) (Found kind db) :=
  .pure (by rintro _ rfl; exact ⟨rfl, fun j hj => by cases hj; exact h⟩)

theorem matchContainerByIdentifiers_ensures (c : Container) (db : Database) :
    (service.matchContainerByIdentifiers c).Ensures (· = db) (Found c.kind db) := by
  refine .read_bind ?_
  rintro db rfl
  refine .read_bind ?_
  rintro db rfl
  have hfound : ∀ i, i ∈ (if 1 < (db.mediaIdsForKind c.kind c.identifiers).length then
      (db.mediaIdsForKind c.kind c.identifiers).filter fun i => (db.mediaItems.get? i).any fun m =>
        service.py.normalizedTitle m.title == service.py.normalizedTitle c.title
      else db.mediaIdsForKind c.kind c.identifiers) → db.identityRows.kindOf i = some c.kind := by
    intro i hi
    split at hi
    exacts [mem_mediaIdsForKind (List.mem_of_mem_filter hi), mem_mediaIdsForKind hi]
  split
  next => exact ensures_none _ _
  next i hi => exact ensures_some (hfound i (by rw [hi]; exact List.mem_singleton.2 rfl))
  next => exact .fail _

theorem matchHistoricalContainer_ensures (c : Container) (db : Database) :
    (service.matchHistoricalContainer c).Ensures (· = db) (Found c.kind db) := by
  refine .ite (fun _ => ensures_none _ _) fun _ => .read_bind ?_
  rintro db rfl
  refine .read_bind ?_
  rintro db rfl
  set candidates :=
    (db.mediaItems.rows.filter fun m => m.kind == c.kind && m.parentId == c.parentId &&
    if c.kind = .show then service.py.normalizedTitle m.title == service.py.normalizedTitle c.title
    else m.seasonNumber == c.seasonNumber).map (·.id) with hcandidates
  have hkind : ∀ i ∈ candidates, db.identityRows.kindOf i = some c.kind := by
    intro i hi
    obtain ⟨m, hm, rfl⟩ := List.mem_map.1 (hcandidates ▸ hi)
    obtain ⟨hrow, hsel⟩ := List.mem_filter.1 hm
    simp only [Bool.and_eq_true, beq_iff_eq] at hsel
    rw [IdentityRows.kindOf_of_mem hrow, hsel.1.1]
  split
  next => exact ensures_none _ _
  next _ _ i hi => exact ensures_some (hkind i (by rw [hi]; exact List.mem_singleton.2 rfl))
  next _ _ i hi _ _ =>
    exact ensures_some
      (hkind i (List.mem_of_mem_filter (by rw [hi]; exact List.mem_singleton.2 rfl)))
  next => exact .fail _

theorem matchContainer_ensures (c : Container) (db : Database) :
    (service.matchContainer c).Ensures (· = db) (Found c.kind db) := by
  refine .bind (service.matchContainerByIdentifiers_ensures c db) fun found => ?_
  split
  next i => exact .pure fun _ h => h
  next => exact (service.matchHistoricalContainer_ensures c db).mono (fun _ h => h.1) fun _ _ h => h

/-- What `_ensure_container` leaves. -/
abbrev Ensured (service : MediaPersistenceService) (item : MediaFields) (externalId : String)
    (kind : MediaKind) (db : Database) (i : Nat) : Database → Prop :=
  Reaches service item db fun db => db.Shown service.sourceId externalId i ∧
    db.identityRows.kindOf i = some kind

section Ensured
variable {c : Container} {observedAt : Time} {db : Database}

theorem stable_ensured (externalId : String) (kind : MediaKind) (i : Nat) :
    Stable service item fun db =>
    db.Shown service.sourceId externalId i ∧ db.identityRows.kindOf i = some kind :=
  (stable_shown externalId i).and (stable_kindOf i kind)

theorem ensureKnownContainer_ensures {r : SourceMediaRef}
    (hr : db.byExternalIdentity service.sourceId c.externalId = some r)
    (hid : c.externalId ∈ item.containerIds) :
    (service.ensureKnownContainer c r observedAt).Ensures (· = db)
    (Ensured service item c.externalId c.kind db) := by
  refine .bind (service.touchReference_ensures observedAt hr hid) fun _ =>
    .of_forall fun db₁ hdb₁ => ?_
  refine .bind (requiredMedia_ensures _ db₁) fun media => .ite (fun _ => .fail _) fun hkind =>
    .of_forall ?_
  rintro db₂ ⟨rfl, hmedia⟩
  have hid : media.id = r.mediaItemId := Table.key_of_get? hmedia
  have hfits : media.kind = c.kind := by
    by_contra hne
    exact hkind (.inl hne)
  have hs : Stable service item _ := stable_ensured service c.externalId c.kind media.id
  refine .bind (M := fun _ => Reaches service item db _)
      (Program.Ensures.mono (service.ensures_keeps hs (service.write_ensures fun db =>
    .detail (service.syncImage_frame media.id db _ _))) ?_ fun _ _ h => h) fun _ => ?_
  · rintro _ rfl
    refine ⟨hdb₁.1, by rw [hid]; exact hdb₁.2, ?_⟩
    rw [hid, ← hfits]
    exact Option.map_eq_some_iff.2 ⟨media, hmedia, rfl⟩
  refine .bind (service.ensures_keeps hs (service.write_ensures fun db => .detail ?_)) fun _ => ?_
  · split
    exacts [.refl db, service.mergeGenres_frame media.id db _]
  exact .bind (service.ensures_keeps hs (service.syncIdentifierValues_writes media.id _)) fun _ =>
    .pure fun _ h => h

theorem createContainer_ensures (hid : c.externalId ∈ item.containerIds)
    (hcontainer : c.kind.isContainer = true) (hfits : db.ParentFits c.kind c.parentId) :
    (service.createContainer c observedAt).Ensures (· = db)
    (Ensured service item c.externalId c.kind db) := by
  refine .read_bind ?_
  rintro db rfl
  let m := service.newContainer db.mediaItems.nextId c
  have hs : Stable service item _ := stable_ensured service c.externalId c.kind m.id
  have hcreate : HierarchyWrite service item db (db.insertMediaItem m) :=
    .create m rfl rfl hcontainer hfits
  have hkind : (db.insertMediaItem m).identityRows.kindOf m.id = some c.kind := by
    refine Option.map_eq_some_iff.2 ⟨m, ?_, rfl⟩
    show (db.insertMediaItem m).mediaItems.get? m.id = some m
    rw [mediaItems_insertMediaItem]
    exact Table.get?_insert_self db.mediaItems.get?_nextId
  refine .bind (M := fun _ => (· = db.insertMediaItem m)) (.write (by rintro _ rfl; rfl)) fun _ =>
    ?_
  refine .bind (addReference_ensures _ _) fun _ => .of_forall ?_
  rintro _ ⟨hfree, -, rfl⟩
  have hrefer : HierarchyWrite service item (db.insertMediaItem m) _ :=
    .refer m.id c.externalId observedAt c.kind hfree hid hkind hcontainer
  refine .bind (M := fun _ => Reaches service item db _)
      (Program.Ensures.mono (service.ensures_keeps hs (service.write_ensures fun db =>
    .detail (service.syncImage_frame m.id db _ _))) ?_ fun _ _ h => h) fun _ => ?_
  · rintro _ rfl
    exact ⟨.tail (.single hcreate) hrefer, shown_insert hfree rfl rfl,
      hrefer.itemsKept.kindOf hkind⟩
  refine .bind (service.ensures_keeps hs
    (service.write_ensures fun db => .detail (service.mergeGenres_frame m.id db _))) fun _ => ?_
  exact .bind (service.ensures_keeps hs (service.syncIdentifierValues_writes m.id _)) fun _ =>
    .pure fun _ h => h

theorem ensureContainer_ensures (hid : c.externalId ∈ item.containerIds)
    (hcontainer : c.kind.isContainer = true) (hfits : db.ParentFits c.kind c.parentId) :
    (service.ensureContainer c observedAt).Ensures (· = db)
    (Ensured service item c.externalId c.kind db) := by
  refine .read_bind ?_
  rintro db rfl
  split
  next r hr => exact service.ensureKnownContainer_ensures hr hid
  next =>
    refine .bind (service.matchContainer_ensures c db) fun found => ?_
    split
    next i =>
      refine .of_forall ?_
      rintro _ ⟨rfl, hkind⟩
      have hs : Stable service item _ := stable_ensured service c.externalId c.kind i
      have hkind := hkind i rfl
      refine .bind
        (service.bindExistingContainer_ensures _ _ observedAt hid hkind hcontainer) fun _ => ?_
      refine .bind (Program.Ensures.mono
        (service.ensures_keeps hs (service.syncIdentifierValues_writes i _)) ?_ fun _ _ h => h)
        fun _ => .pure fun _ h => h
      rintro db' ⟨hw, hshown⟩
      exact ⟨hw, hshown, hw.itemsKept.kindOf hkind⟩
    next =>
      exact (service.createContainer_ensures hid hcontainer hfits).mono (fun _ h => h.1)
        fun _ _ h => h

end Ensured

end Containers

/-! ### The hierarchy -/

/-- The containers a source shows after it has shown an item. -/
structure ContainersShown (source : Nat) (item : MediaFields) (db₀ db : Database) : Prop where
  album : ∀ t, item.track? = some t → ∃ i, db.Shown source t.albumExternalId i
  artist : ∀ t, item.track? = some t → db₀.byExternalIdentity source t.albumExternalId = none →
    ∃ i, db.Shown source t.artistExternalId i
  «show» : ∀ e, item.episode? = some e → ∃ i, db.Shown source e.showExternalId i
  season : ∀ e, item.episode? = some e → ∃ i, db.Shown source (item.seasonReferenceId e) i

section Hierarchy
variable {t : TrackFields} {e : EpisodeFields} {observedAt : Time} {db : Database}

theorem album_mem_containerIds (ht : item.track? = some t) :
    t.artistExternalId ∈ item.containerIds ∧ t.albumExternalId ∈ item.containerIds := by
  unfold MediaFields.containerIds
  rw [ht]
  exact ⟨List.mem_append_left _ List.mem_cons_self,
    List.mem_append_left _ (List.mem_cons_of_mem _ List.mem_cons_self)⟩

theorem season_mem_containerIds (he : item.episode? = some e) :
    e.showExternalId ∈ item.containerIds ∧ item.seasonReferenceId e ∈ item.containerIds := by
  unfold MediaFields.containerIds
  rw [he]
  exact ⟨List.mem_append_right _ List.mem_cons_self,
    List.mem_append_right _ (List.mem_cons_of_mem _ List.mem_cons_self)⟩

theorem kindOf_of_get? {i : Nat} {m : MediaItem} (h : db.mediaItems.get? i = some m) :
    db.identityRows.kindOf i = some m.kind := Option.map_eq_some_iff.2 ⟨m, h, rfl⟩

theorem ensureKnownAlbum_ensures {r : SourceMediaRef} (ht : item.track? = some t)
    (hr : db.byExternalIdentity service.sourceId t.albumExternalId = some r) :
    (service.ensureKnownAlbum item t r observedAt).Ensures (· = db)
    (Ensured service item t.albumExternalId .album db) := by
  refine .bind (service.touchReference_ensures observedAt hr (album_mem_containerIds ht).2) fun _ =>
    .of_forall fun db₁ hdb₁ => ?_
  refine .bind (requiredMedia_ensures _ db₁) fun album => .ite (fun _ => .fail _) fun hkind =>
    .of_forall ?_
  rintro db₂ ⟨rfl, halbum⟩
  rw [not_not] at hkind
  have hid : album.id = r.mediaItemId := Table.key_of_get? halbum
  have hof : db₂.identityRows.kindOf album.id = some .album := by
    rw [hid, ← hkind]
    exact kindOf_of_get? halbum
  have hs : Stable service item _ := stable_ensured service t.albumExternalId .album album.id
  refine .bind (M := fun _ => Ensured service item t.albumExternalId .album db album.id)
    (.write ?_) fun _ => ?_
  · rintro _ rfl
    have hretitle : HierarchyWrite service item _ _ := .retitle album.id
      ⟨fun m => { m with title := t.albumTitle }, fun _ => rfl⟩
        (fun _ => ⟨rfl, rfl, rfl⟩) (.inr hof)
    exact ⟨hdb₁.1.tail hretitle, hretitle.shown (by rw [hid]; exact hdb₁.2),
      hretitle.itemsKept.kindOf hof⟩
  refine .bind (service.ensures_keeps hs
    (service.write_ensures fun db => .detail (service.syncImage_frame album.id db _ _))) fun _ => ?_
  exact .bind (service.ensures_keeps hs
    (service.write_ensures fun db => .detail (service.mergeGenres_frame album.id db _)))
    fun _ => .pure fun _ h => h

theorem ensureAlbum_ensures (ht : item.track? = some t) :
    (service.ensureAlbum item t observedAt).Ensures (· = db) fun i =>
      Reaches service item db fun db' =>
      (∃ i, db'.Shown service.sourceId t.albumExternalId i) ∧
        (db.byExternalIdentity service.sourceId t.albumExternalId = none →
          ∃ i, db'.Shown service.sourceId t.artistExternalId i) ∧
          db'.identityRows.kindOf i = some .album := by
  refine .read_bind ?_
  rintro db rfl
  split
  next r hr =>
    refine (service.ensureKnownAlbum_ensures ht hr).mono (fun _ h => h) fun i _ h =>
      ⟨h.1, ⟨i, h.2.1⟩, fun hfree => ?_, h.2.2⟩
    rw [hfree] at hr; cases hr
  next =>
    refine .bind (service.ensureContainer_ensures (c := artistContainer item t)
      (album_mem_containerIds ht).1 rfl rfl) fun artist => ?_
    refine .of_forall fun db₁ hdb₁ => ?_
    have hfits : db₁.ParentFits .album (some artist) := congrArg some hdb₁.2.2
    refine (service.ensureContainer_ensures (c := albumContainer item t artist)
      (album_mem_containerIds ht).2 rfl hfits).mono
      (fun _ h => h) fun i db₂ h =>
        ⟨hdb₁.1.trans h.1, ⟨i, h.2.1⟩, fun _ => ⟨artist, h.1.shown hdb₁.2.1⟩, h.2.2⟩

/-- The show and the season of an episode. -/
abbrev SeasonEnsured (service : MediaPersistenceService) (item : MediaFields) (e : EpisodeFields)
    (db : Database) (i : Nat) :
    Database → Prop :=
  Reaches service item db fun db' => (∃ i, db'.Shown service.sourceId e.showExternalId i) ∧
    (∃ i, db'.Shown service.sourceId (item.seasonReferenceId e) i) ∧
      db'.identityRows.kindOf i = some .season

theorem ensureSeason_ensures (he : item.episode? = some e) :
    (service.ensureSeason item e observedAt).Ensures (· = db)
    (SeasonEnsured service item e db) := by
  refine .bind (service.ensureContainer_ensures (c := showContainer item e)
    (season_mem_containerIds he).1 rfl rfl) fun «show» => ?_
  refine .of_forall fun db₁ hdb₁ => ?_
  have hfits : db₁.ParentFits .season (some «show») := congrArg some hdb₁.2.2
  exact (service.ensureContainer_ensures (c := seasonContainer item e «show»)
    (season_mem_containerIds he).2 rfl hfits).mono
    (fun _ h => h) fun i db₂ h =>
      ⟨hdb₁.1.trans h.1, ⟨«show», h.1.shown hdb₁.2.1⟩, ⟨i, h.2.1⟩, h.2.2⟩

theorem bindExistingEpisodeHierarchy_ensures (he : item.episode? = some e) (episode : MediaItem) :
    (service.bindExistingEpisodeHierarchy item e episode observedAt).Ensures (· = db)
    (SeasonEnsured service item e db) := by
  refine .bind (requiredMedia_ensures _ db) fun season => .of_forall ?_
  rintro db₁ ⟨rfl, hseason⟩
  refine .bind (requiredMedia_ensures _ db₁) fun «show» => .of_forall ?_
  rintro db₂ ⟨rfl, hshow⟩
  refine .ite (fun _ => .fail _) fun hkinds => ?_
  simp only [not_or, not_not] at hkinds
  have hseasonId : season.id = episode.parentId.getD 0 := Table.key_of_get? hseason
  have hshowId : «show».id = season.parentId.getD 0 := Table.key_of_get? hshow
  have hseasonKind : db₂.identityRows.kindOf season.id = some .season := by
    rw [hseasonId, ← hkinds.2.1]
    exact kindOf_of_get? hseason
  have hshowKind : db₂.identityRows.kindOf «show».id = some .show := by
    rw [hshowId, ← hkinds.2.2.1]
    exact kindOf_of_get? hshow
  refine .bind (M := fun _ => HierarchyWrites service item db₂) (.write ?_) fun _ =>
    .of_forall fun db₃ hdb₃ => ?_
  · rintro _ rfl
    split
    next hopen =>
      refine .single (.retitle «show».id ⟨fun m => { m with title := e.showTitle }, fun _ => rfl⟩
        (fun _ => ⟨rfl, rfl, rfl⟩) (.inl ?_))
      exact manualMatchOf_of_mayUpdate hopen
    next => exact .refl
  refine .bind (service.bindExistingContainer_ensures _ _ observedAt (season_mem_containerIds he).1
    (hdb₃.itemsKept.kindOf hshowKind) rfl) fun _ => .of_forall fun db₄ hdb₄ => ?_
  have hkept := HierarchyWrites.itemsKept (hdb₃.trans hdb₄.1)
  refine .bind (service.bindExistingContainer_ensures _ _ observedAt (season_mem_containerIds he).2
    (hkept.kindOf hseasonKind) rfl) fun _ => .pure fun db₅ hdb₅ => ?_
  exact ⟨(hdb₃.trans hdb₄.1).trans hdb₅.1, ⟨_, hdb₅.1.shown hdb₄.2⟩, ⟨_, hdb₅.2⟩,
    hdb₅.1.itemsKept.kindOf (hkept.kindOf hseasonKind)⟩

/-- `_ensure_hierarchy`: the parent fits the item, and the source shows its containers. -/
theorem ensureHierarchy_ensures (item : ExternalMediaItem) (hleaf : item.kind.isContainer = false)
    (matched : Option MediaItem) :
    (service.ensureHierarchy item.toMediaFields observedAt matched).Ensures (· = db) fun parent =>
      Reaches service item.toMediaFields db fun db' =>
        db'.ParentFits item.kind parent ∧
        ContainersShown service.sourceId item.toMediaFields db db' := by
  have htrack := item.isSome_track?
  have hepisode := item.isSome_episode?
  unfold ensureHierarchy
  rcases ht : item.track? with _ | t
  · rcases he : item.episode? with _ | e
    · refine .pure ?_
      rintro db rfl
      refine ⟨.refl, ?_, fun _ h => ?_, fun _ h => ?_, fun _ h => ?_, fun _ h => ?_⟩
      · unfold ParentFits
        cases hk : item.kind with
        | movie => rfl
        | track => rw [ht, hk] at htrack; simp at htrack
        | episode => rw [he, hk] at hepisode; simp at hepisode
        | «show» | season | artist | album => rw [hk] at hleaf; cases hleaf
      · rw [ht] at h; cases h
      · rw [ht] at h; cases h
      · rw [he] at h; cases h
      · rw [he] at h; cases h
    · have hk := MediaFields.kind_of_episode? he
      have hdone : ∀ i db', SeasonEnsured service item.toMediaFields e db i db' →
          Reaches service item.toMediaFields db
          (fun db' => db'.ParentFits item.kind (some i) ∧
            ContainersShown service.sourceId item.toMediaFields db db') db' := by
        intro i db' h
        refine ⟨h.1, by
          rw [hk]; exact congrArg some h.2.2.2, fun _ h => ?_, fun _ h => ?_, fun e' he' => ?_,
            fun e' he' => ?_⟩
        · rw [ht] at h; cases h
        · rw [ht] at h; cases h
        · cases he.symm.trans he'; exact h.2.1
        · cases he.symm.trans he'; exact h.2.2.1
      rcases matched with _ | episode
      · exact .bind (service.ensureSeason_ensures he) fun i => .pure fun db' h => hdone i db' h
      · exact .bind (service.bindExistingEpisodeHierarchy_ensures he episode) fun i =>
          .pure fun db' h => hdone i db' h
  · have hk := MediaFields.kind_of_track? ht
    refine .bind (service.ensureAlbum_ensures ht) fun i => .pure fun db' h =>
      ⟨h.1, ?_, fun t' ht' => ?_, fun t' ht' => ?_,
      fun e he => ?_, fun e he => ?_⟩
    · rw [hk]; exact congrArg some h.2.2.2
    · cases ht.symm.trans ht'; exact h.2.1
    · cases ht.symm.trans ht'; exact h.2.2.1
    · have := MediaFields.kind_of_episode? he; rw [hk] at this; cases this
    · have := MediaFields.kind_of_episode? he; rw [hk] at this; cases this

theorem writeShowMetadata_writes (metadata : ShowMetadata) {i : Nat}
    (hopen : service.canonicalSourceMayUpdate db i = true) :
    HierarchyWrites service item db (service.writeShowMetadata metadata i db) := by
  have hretitle : HierarchyWrite service item db _ :=
    .retitle i ⟨applyShowMetadata metadata, fun _ => rfl⟩
    (fun _ => ⟨rfl, rfl, rfl⟩) (.inl (manualMatchOf_of_mayUpdate hopen))
  have hposter := service.syncImage_frame i
    (if metadata.genres =
      [] then db.saveMediaItem service.now i ⟨applyShowMetadata metadata, fun _ => rfl⟩
      else service.syncGenres i metadata.genres
        (db.saveMediaItem service.now i ⟨applyShowMetadata metadata, fun _ => rfl⟩))
    "poster" metadata.thumbPath
  refine .tail (.tail (.tail (.single hretitle) (.detail ?_)) (.detail hposter))
    (.detail (service.syncImage_frame i _ _ _))
  split
  exacts [.refl _, service.syncGenres_frame i _ _]

theorem syncShowMetadata_writes (item : ExternalMediaItem) (parent : Option Nat) (db : Database) :
    (service.syncShowMetadata item parent).Ensures (· = db) fun _ =>
      HierarchyWrites service item.toMediaFields db := by
  unfold syncShowMetadata
  split
  next e metadata parent _ _ =>
    refine .ite (fun _ => .fail _) fun _ => ?_
    refine .bind (requiredMedia_ensures _ db) fun season =>
      .bind (M := fun _ => (· = db)) ?_ fun «show» => ?_
    · exact .of_forall fun db' hdb' =>
        (requiredMedia_ensures _ db').mono (fun _ h => h) fun _ _ h => h.1.trans hdb'.1
    refine .bind (M := fun _ => (· = db)) (.cached fun _ _ h => h) fun known => ?_
    refine .ite (fun _ => .pure (by rintro _ rfl; exact .refl)) fun _ => ?_
    refine .bind (M := fun _ => (· = db)) (.enter fun _ h => h) fun _ => .read_bind ?_
    rintro db rfl
    refine .ite (fun hopen => .write ?_) fun _ => .pure (by rintro _ rfl; exact .refl)
    rintro _ rfl
    exact service.writeShowMetadata_writes metadata hopen
  next => exact .pure (by rintro _ rfl; exact .refl)

end Hierarchy

section Matches
variable {db : Database} {m : MediaItem}

theorem row_of_single {p : MediaItem → Bool} (h : single (db.mediaItems.rows.filter p) = some m)
    (hp : ∀ m, p m = true → m.kind = item.kind) : db.mediaItems.get? m.id = some m ∧
    m.kind = item.kind := by
  obtain ⟨hrow, hsel⟩ := List.mem_filter.1 (mem_of_single h)
  exact ⟨Table.get?_of_mem hrow, hp m hsel⟩

theorem matchByPhysicalPath_row (h : service.matchByPhysicalPath db item = some m) :
    db.mediaItems.get? m.id = some m ∧ m.kind = item.kind := by
  unfold matchByPhysicalPath at h
  dsimp only at h
  split at h
  · cases h
  · obtain ⟨hm, -⟩ := Option.filter_eq_some_iff.1 h
    refine row_of_single hm fun m hm => ?_
    rw [Bool.and_eq_true, beq_iff_eq] at hm
    exact hm.1

theorem matchWithoutIdentifiers_row (h : service.matchWithoutIdentifiers db item = some m) :
    db.mediaItems.get? m.id = some m ∧ m.kind = item.kind := by
  unfold matchWithoutIdentifiers at h
  split at h
  next e he =>
    have hk := MediaFields.kind_of_episode? he
    split at h
    · refine row_of_single h fun m hm => ?_
      simp only [Bool.and_eq_true, beq_iff_eq] at hm
      exact hm.1.1.1.1.trans hk.symm
    · refine row_of_single h fun m hm => ?_
      simp only [Bool.and_eq_true, beq_iff_eq] at hm
      exact hm.1.1.1.1.trans hk.symm
  next =>
    split at h
    next hk =>
      refine row_of_single h fun m hm => ?_
      simp only [Bool.and_eq_true, beq_iff_eq] at hm
      exact hm.1.1.1.trans hk.symm
    next => cases h

/-- What the matches of an item have in common. -/
abbrev Matched (item : MediaFields) (db : Database) (matched : Option MediaItem)
    (db' : Database) : Prop :=
  db' = db ∧ ∀ m, matched = some m → db.mediaItems.get? m.id = some m ∧ m.kind = item.kind

theorem matchByIdentifiers_ensures (db : Database) :
    (service.matchByIdentifiers item).Ensures (· = db) (Matched item db) := by
  refine .read_bind ?_
  rintro db rfl
  split
  next =>
    exact .read (by rintro db rfl; exact ⟨rfl, fun m hm => service.matchWithoutIdentifiers_row hm⟩)
  next i hi =>
    refine .bind (requiredMedia_ensures i db) fun m => .of_forall ?_
    rintro db ⟨rfl, hm⟩
    have hkind : db.identityRows.kindOf i = some item.kind := by
      have hmem : i ∈ service.identifierMatches db item := by
        rw [hi]; exact List.mem_singleton.2 rfl
      unfold identifierMatches at hmem
      dsimp only at hmem
      split at hmem
      exacts [mem_mediaIdsForKind (List.mem_of_mem_filter hmem), mem_mediaIdsForKind hmem]
    refine .read_bind ?_
    rintro db rfl
    refine .pure ?_
    rintro db rfl
    refine ⟨rfl, fun m' hm' => ?_⟩
    split at hm'
    · cases hm'
      rw [Table.key_of_get? hm]
      exact ⟨hm, Option.some_inj.1 ((kindOf_of_get? hm).symm.trans hkind)⟩
    · cases hm'
  next =>
    exact .ite (fun _ => .pure (by rintro _ rfl; exact ⟨rfl, fun m hm => by cases hm⟩))
      fun _ => .fail _

theorem matchMedia_ensures (known : Option SourceMediaRef) (db : Database) :
    (service.matchMedia item known).Ensures (· = db) fun matched db' =>
      Matched item db matched db' ∧ (known.isSome = true → matched = none) := by
  refine .ite (fun _ =>
    .pure (by rintro _ rfl; exact ⟨⟨rfl, fun m hm => by cases hm⟩, fun _ => rfl⟩)) fun hnew => ?_
  refine .bind (M := Matched item db) (.read_bind ?_) fun matched => .read ?_
  · rintro db rfl
    split
    next m hm =>
      refine .pure ?_
      rintro db rfl
      exact ⟨rfl, fun m' hm' => by cases hm'; exact service.matchByPhysicalPath_row hm⟩
    next => exact service.matchByIdentifiers_ensures db
  · rintro db' ⟨rfl, hmatched⟩
    exact ⟨⟨rfl, fun m hm => hmatched m (Option.filter_eq_some_iff.1 hm).1⟩, fun h => absurd h hnew⟩

end Matches

/-! ### The item and its reference -/

section Store
variable {observedAt : Time} {db : Database} {parent : Option Nat}

/-- The reference `id` of the source stands for the item `i`. -/
def Refers (db : Database) (source : Nat) (externalId : String) (id i : Nat) : Prop :=
  ∃ r, db.byExternalIdentity source externalId = some r ∧ r.id = id ∧ r.mediaItemId = i

theorem HierarchyWrite.refers {db' : Database} {externalId : String} {id i : Nat}
    (hw : HierarchyWrite service item db db')
    (h : Refers db service.sourceId externalId id i) :
    Refers db' service.sourceId externalId id i := by
  obtain ⟨r, hr, hid, hi⟩ := h
  have hsame : ∀ {written : List TableName}, Frame written db db' → .sourceMediaRefs ∉ written →
      Refers db' service.sourceId externalId id i := by
    intro written hframe hwritten
    have heq : db'.sourceMediaRefs = db.sourceMediaRefs := hframe .sourceMediaRefs hwritten
    refine ⟨r, ?_, hid, hi⟩
    unfold byExternalIdentity at hr ⊢
    rw [heq]; exact hr
  cases hw with
  | touch r' t =>
    refine ⟨_, (byExternalIdentity_save _ _ _ fun _ => ⟨rfl, rfl⟩).trans (congrArg _ hr), ?_⟩
    dsimp only
    split
    exacts [⟨hid, hi⟩, ⟨hid, hi⟩]
  | refer =>
    refine ⟨r, ?_, hid, hi⟩
    rw [byExternalIdentity_insert rfl, hr]
    rfl
  | create m => exact hsame (insertMediaItem_frame m) (by decide)
  | retitle => exact hsame (updateMediaItems_frame _ _) (by decide)
  | identify _ _ h => exact hsame h.frame (by decide)
  | detail h => exact hsame h (by decide)

theorem HierarchyWrites.refers {db' : Database} {externalId : String} {id i : Nat}
    (hw : HierarchyWrites service item db db')
    (h : Refers db service.sourceId externalId id i) :
    Refers db' service.sourceId externalId id i := by
  induction hw with
  | refl => exact h
  | tail _ hstep ih => exact HierarchyWrite.refers service hstep ih

/-- What `persist_media` leaves of the item and its reference. -/
abbrev Stored (service : MediaPersistenceService) (item : MediaFields) (db : Database)
    (persisted : Persisted) (db' : Database) : Prop :=
  CatalogWrites service item db db' ∧ db'.Shown service.sourceId item.externalId persisted.media

theorem addMedia_ensures {matched : Option MediaItem}
    (hmatched : ∀ m, matched = some m → db.identityRows.kindOf m.id = some item.kind)
    (hfits : db.ParentFits item.kind parent) :
    (service.addMedia item observedAt matched parent).Ensures (· = db)
    (Stored service item db) := by
  -- in both cases the new reference points at an item of the right kind
  have hrefer : ∀ (db₁ : Database) (i : Nat) (c : ItemClassification),
      CatalogWrites service item db db₁ →
      db₁.identityRows.kindOf i = some item.kind →
      (do let reference ← addReference (service.leafReference item i observedAt)
          return (⟨c, i, reference⟩ : Persisted) : Persist Persisted).Ensures (· = db₁)
            (Stored service item db) := by
    intro db₁ i c hw hkind
    refine .bind (addReference_ensures _ db₁) fun reference => .pure ?_
    rintro _ ⟨hfree, rfl, rfl⟩
    exact ⟨hw.tail (.refer i observedAt hfree hkind), shown_insert hfree rfl rfl⟩
  unfold addMedia
  rcases matched with _ | m
  · refine .read_bind ?_
    rintro db rfl
    set m := applyMedia item parent { id := db.mediaItems.nextId, kind := item.kind,
                                      updatedAt := service.now } with hm
    refine .bind (M := fun _ => (· = db.insertMediaItem m)) (.write (by rintro _ rfl; rfl)) fun _ =>
      ?_
    refine hrefer _ _ _ (.single (.create m rfl rfl rfl hfits)) (kindOf_of_get? (m := m) ?_)
    rw [mediaItems_insertMediaItem]
    exact Table.get?_insert_self db.mediaItems.get?_nextId
  · have hkind := hmatched m rfl
    refine .bind (M := fun _ db₁ => CatalogWrites service item db db₁ ∧
      db₁.identityRows.kindOf m.id = some item.kind)
      (.write ?_) fun _ => .of_forall fun db₁ hdb₁ => hrefer db₁ m.id .updated hdb₁.1 hdb₁.2
    rintro _ rfl
    unfold updateMedia
    split
    next hopen =>
      refine ⟨.single (.update m.id parent (manualMatchOf_of_mayUpdate hopen) hfits (.inl hkind)),
        ?_⟩
      obtain ⟨row, hrow, hrowKind⟩ := Option.map_eq_some_iff.1 hkind
      refine Option.map_eq_some_iff.2
        ⟨_, (get?_saveMediaItem _ _ _ _ _).trans (congrArg _ hrow), ?_⟩
      dsimp only
      split
      exacts [rfl, hrowKind]
    next => exact ⟨.refl, hkind⟩

theorem observeMedia_ensures {r : SourceMediaRef}
    (hr : Refers db service.sourceId item.externalId r.id r.mediaItemId)
    (hfits : db.ParentFits item.kind parent) :
    (service.observeMedia item observedAt r parent).Ensures (· = db) (Stored service item db) := by
  refine .bind (requiredMedia_ensures _ db) fun media => .of_forall ?_
  rintro db ⟨rfl, hmedia⟩
  have hid : media.id = r.mediaItemId := Table.key_of_get? hmedia
  obtain ⟨r', hr', hrid, hri⟩ := hr
  refine .bind (M := fun _ db₁ => CatalogWrites service item db db₁ ∧
    db₁.sourceMediaRefs = db.sourceMediaRefs) (.write ?_) fun _ => ?_
  · rintro _ rfl
    unfold updateMedia
    split
    · exact ⟨.refl, rfl⟩
    · split
      next hopen =>
        refine ⟨.single (.update media.id parent (manualMatchOf_of_mayUpdate hopen) hfits
          (.inr ⟨r', hr', hri.trans hid.symm⟩)), ?_⟩
        exact updateMediaItems_frame _ _ .sourceMediaRefs (by decide)
      · exact ⟨.refl, rfl⟩
  refine .of_forall fun db₁ hdb₁ => ?_
  have hr₁ : db₁.byExternalIdentity service.sourceId item.externalId = some r' := by
    unfold byExternalIdentity at hr' ⊢
    rw [hdb₁.2]; exact hr'
  obtain ⟨hrow, hsource, hext⟩ := mem_of_byExternalIdentity hr₁
  refine .bind (M := fun _ => Stored service item db ⟨.updated, media.id, r.id⟩) (.write ?_)
    fun _ => .pure fun _ h => h
  rintro _ rfl
  rw [← hrid]
  refine ⟨hdb₁.1.tail (.observe r' observedAt hrow hsource hext), ?_⟩
  rw [hid, ← hri]
  exact shown_save hr₁ _ _ (fun _ => ⟨rfl, rfl⟩) fun _ => ⟨rfl, rfl⟩

theorem savePaths_frame (reference : Nat) (keys : PathKeys) (db : Database) :
    Frame [.mediaFilePaths] db (db.savePaths reference keys) := writeMediaFilePaths_frame _

theorem persistDetails_writes (persisted : Persisted) (db : Database) :
    (service.persistDetails item persisted).Ensures (· = db) fun _ =>
      HierarchyWrites service item db := by
  have hstep : ∀ {p : Persist Unit},
      (∀ db, p.Ensures (· = db) fun _ => HierarchyWrites service item db) →
      p.Ensures (HierarchyWrites service item db) fun _ =>
        HierarchyWrites service item db := fun hp =>
    .of_forall fun db₁ hdb₁ => (hp db₁).mono (fun _ h => h) fun _ _ h => hdb₁.trans h
  refine Program.Ensures.mono (P := HierarchyWrites service item db) ?_
    (by rintro _ rfl; exact .refl) fun _ _ h => h
  refine .bind (hstep (service.write_ensures fun db => .detail ?_)) fun _ => ?_
  · split
    exacts [.refl db, (savePaths_frame _ _ db).mono (by decide)]
  refine .bind (hstep (service.syncIdentifierValues_writes persisted.media _)) fun _ => ?_
  refine .bind (hstep (service.write_ensures fun db => .detail ?_)) fun _ => ?_
  · split
    exacts [service.syncGenres_frame persisted.media db _, .refl db]
  refine .bind (hstep (service.write_ensures fun db =>
    .detail (service.syncImage_frame persisted.media db _ _))) fun _ => ?_
  exact hstep
    (service.write_ensures fun db => .detail (service.syncImage_frame persisted.media db _ _))

end Store

section Playback
variable {db : Database} {observedAt : Time}

theorem persistEvent_ensures (event : ExternalWatchEvent) (origin : EventOrigin) (db : Database) :
    (service.persistEvent event origin).Ensures (· = db) fun _ db' => db' = db ∨
    EventWrite service event origin db db' := by
  refine .ite (fun _ => .pure fun _ h => .inl h) fun hcompleted => ?_
  have hcompleted : event.completed = true := by simpa using hcompleted
  refine .read_bind ?_
  rintro db rfl
  split
  next => exact .fail _
  next r hr =>
    refine .read_bind ?_
    rintro db rfl
    split
    next existing hknown =>
      refine .ite (fun _ => .fail _) fun hsame => .read_bind ?_
      rintro db rfl
      refine .ite (fun _ => .fail _) fun hfree => ?_
      refine .bind (M := fun _ db' => EventWrite service event origin db db') (.write ?_) fun _ =>
        .pure fun _ h => .inr h
      rintro _ rfl
      refine .refresh existing r hcompleted hr hknown (not_not.1 hsame) fun other hother => ?_
      by_contra hne
      exact hfree (by rw [hother, Option.any_some, bne_iff_ne]; exact hne)
    next hknown =>
      refine .read_bind ?_
      rintro db rfl
      refine .ite (fun _ => .pure fun _ h => .inl h) fun hnew => ?_
      rw [Bool.or_eq_true, not_or] at hnew
      refine .bind (M := fun _ db' => EventWrite service event origin db db') (.write ?_) fun _ =>
        .pure fun _ h => .inr h
      rintro _ rfl
      exact .record r hcompleted hr hknown (by simpa using hnew.1) (by simpa using hnew.2)

/-- Writes of playback, which leave the references alone. -/
abbrev Played (service : MediaPersistenceService) (item : MediaFields) (db db' : Database) : Prop :=
  PlaybackWrites service item db db'

theorem played_event {event : ExternalWatchEvent} (hid : event.mediaExternalId = item.externalId)
    (origin : EventOrigin) :
    (service.persistEvent event origin).Ensures (Played service item db) fun _ =>
      Played service item db :=
  .of_forall fun db₁ hdb₁ => (service.persistEvent_ensures event origin db₁).mono (fun _ h => h)
      fun _ db₂ h => by
    rcases h with rfl | h
    exacts [hdb₁, hdb₁.tail (.event event origin hid h)]

theorem stateEvent_mediaExternalId {event : ExternalWatchEvent}
    (h : service.stateEvent item = some event) :
    event.mediaExternalId = item.externalId := by
  unfold stateEvent at h
  split at h
  · cases h; rfl
  · cases h

theorem persistPlayback_ensures {r : SourceMediaRef}
    (hr : db.byExternalIdentity service.sourceId item.externalId = some r)
    (persisted : Persisted) (hmedia : persisted.media = r.mediaItemId) :
    (service.persistPlayback item observedAt persisted).Ensures (· = db) fun result db' =>
      Played service item db db' ∧ result.mediaItemId = r.mediaItemId := by
  refine .bind (M := fun _ => Played service item db)
    (Program.Ensures.mono (P := Played service item db) (.read_bind fun db₁ hdb₁ => ?_)
    (by rintro _ rfl; exact .refl) fun _ _ h => h) fun _ => .read_bind fun db₁ hdb₁ => ?_
  · refine Program.Ensures.mono (.forM _ fun w _ => ?_) (by rintro _ rfl; exact hdb₁) fun _ _ h => h
    exact .bind (service.played_event rfl _) fun _ => .pure fun _ h => h
  refine .bind (M := fun _ => Played service item db) (.write ?_) fun _ => ?_
  · rintro db₁ rfl
    have heq : db₁.sourceMediaRefs = db.sourceMediaRefs := hdb₁.frame .sourceMediaRefs (by decide)
    rw [hmedia]
    refine hdb₁.tail (.observe r observedAt ?_)
    unfold byExternalIdentity at hr ⊢
    rw [heq]; exact hr
  refine .bind (M := fun _ => Played service item db) ?_ fun _ => .pure fun _ h => ⟨h, hmedia⟩
  unfold persistStateEvent
  split
  next event hevent => exact service.played_event (service.stateEvent_mediaExternalId hevent) _
  next => exact .pure fun _ h => h

end Playback

/-- What a call of `persist_media` that ends normally has done. -/
structure MediaPersisted (service : MediaPersistenceService) (item : MediaFields) (db : Database)
    (i : Nat) (db' : Database) :
    Prop where
  writes : ∃ mid, CatalogWrites service item db mid ∧ PlaybackWrites service item mid db'
  shown : db'.Shown service.sourceId item.externalId i
  containers : ContainersShown service.sourceId item db db'

theorem persistMedia_ensures (item : ExternalMediaItem) (hleaf : item.kind.isContainer = false)
    (observedAt : Time)
    (db : Database) : (service.persistMedia item observedAt).Ensures (· = db) fun result db' =>
      MediaPersisted service item.toMediaFields db result.mediaItemId db' := by
  refine .read_bind ?_
  rintro db rfl
  refine .bind (service.matchMedia_ensures _ db) fun matched => .of_forall ?_
  rintro db ⟨⟨rfl, hmatched⟩, -⟩
  refine .bind (service.ensureHierarchy_ensures item hleaf matched) fun parent =>
    .of_forall fun db₁ hdb₁ => ?_
  obtain ⟨hw₁, hfits, hcontainers⟩ := hdb₁
  refine .bind (service.syncShowMetadata_writes item parent db₁) fun _ =>
    .of_forall fun db₂ hw₂ => ?_
  have hw := hw₁.trans hw₂
  refine .bind (M := Stored service item.toMediaFields db₂) ?_ fun persisted =>
    .of_forall fun db₃ hdb₃ => ?_
  · have hfits₂ : db₂.ParentFits item.kind parent :=
      HierarchyWrites.itemsKept hw₂ |>.parentFits hfits
    unfold storeMedia
    split
    next hnew =>
      refine service.addMedia_ensures (fun m hm => ?_) hfits₂
      obtain ⟨hrow, hkind⟩ := hmatched m hm
      exact (HierarchyWrites.itemsKept hw).kindOf (hkind ▸ kindOf_of_get? hrow)
    next r hr =>
      refine service.observeMedia_ensures ?_ hfits₂
      have hrefers : Refers db service.sourceId item.externalId r.id r.mediaItemId :=
        ⟨r, hr, rfl, rfl⟩
      exact HierarchyWrites.refers service hw hrefers
  refine .bind (service.persistDetails_writes persisted db₃) fun _ => .of_forall fun db₄ hw₄ => ?_
  have hcatalog : CatalogWrites service item.toMediaFields db db₄ :=
    ((CatalogWrites.of_hierarchy hw).trans hdb₃.1).trans (CatalogWrites.of_hierarchy hw₄)
  have hrest : CatalogWrites service item.toMediaFields db₁ db₄ :=
    ((CatalogWrites.of_hierarchy hw₂).trans hdb₃.1).trans (CatalogWrites.of_hierarchy hw₄)
  obtain ⟨r, hr, hav, hi⟩ := CatalogWrites.shown (.of_hierarchy hw₄) hdb₃.2
  refine (service.persistPlayback_ensures hr persisted hi.symm).mono (fun _ h => h)
    fun result db₅ h => ?_
  have hshown : ∀ {e i}, db₄.Shown service.sourceId e i →
      db₅.Shown service.sourceId e i := fun hs =>
    hs.of_frame (PlaybackWrites.frame h.1) (by decide)
  refine ⟨⟨db₄, hcatalog, h.1⟩, hshown ⟨r, hr, hav, h.2.symm⟩, fun t ht => ?_, fun t ht hfree => ?_,
    fun e he => ?_, fun e he => ?_⟩
  · exact (hcontainers.album t ht).imp fun _ hs => hshown (hrest.shown hs)
  · exact (hcontainers.artist t ht hfree).imp fun _ hs => hshown (hrest.shown hs)
  · exact (hcontainers.show e he).imp fun _ hs => hshown (hrest.shown hs)
  · exact (hcontainers.season e he).imp fun _ hs => hshown (hrest.shown hs)

end MediaPersistenceService

end Euvieouvi
