import Euvieouvi.Catalog.Places

/-!
# Listings and places

A container that `_ensure_container` finds by its number or makes is the only season of its show
with that number; one that it finds by its reference has the number it had. So a listing keeps a
numbered catalog numbered where the reference of the season agrees with it (`ListingAgrees`).
-/

namespace Euvieouvi

open Database Program

namespace MediaPersistenceService
variable (service : MediaPersistenceService)

/-! ### Containers -/

/-- What `_ensure_container` does to the places: nothing, with the season found by its number or by
its reference, or a new one that no season has. -/
inductive HousedPlaces (service : MediaPersistenceService) (c : Container) (db : Database) (i : Nat)
    (db' : Database) : Prop
  | old : db'.places = db.places →
      (c.kind = .season → ∃ a, db.places i = some a ∧ (a.number = c.seasonNumber ∨
        db.targetOf service.sourceId c.externalId = some i)) → HousedPlaces service c db i db'
  | new : db.places i = none →
      (∀ j,
        db'.places j = if j = i then some ⟨c.kind, c.parentId, c.seasonNumber⟩ else db.places j) →
      (c.kind = .season → ∀ j, db.places j ≠ some ⟨c.kind, c.parentId, c.seasonNumber⟩) →
        HousedPlaces service c db i db'

/-- The source shows the item under one more id, perhaps. -/
structure Bound (i : Nat) (db db' : Database) : Prop where
  places : db'.places = db.places
  targets : ∀ source externalId, db'.targetOf source externalId = db.targetOf source externalId ∨
    db'.targetOf source externalId = some i

theorem Bound.refl (i : Nat) (db : Database) : Bound i db db := ⟨rfl, fun _ _ => .inl rfl⟩

theorem Bound.quiet {i : Nat} {db db' db'' : Database} (hquiet : Quiet db' db'')
    (h : Bound i db db') : Bound i db db'' where
  places := hquiet.places.trans h.places
  targets source externalId := by
    rw [hquiet.targets]
    exact h.targets source externalId

theorem Bound.insert {i : Nat} {db : Database} {r : SourceMediaRef}
    (hid : r.id = db.sourceMediaRefs.nextId)
    (hi : r.mediaItemId = i) : Bound i db (db.insertSourceMediaRef r) where
  places := by
    have hitems : (db.insertSourceMediaRef r).mediaItems = db.mediaItems :=
      insertSourceMediaRef_frame r .mediaItems (by decide)
    unfold Database.places
    rw [hitems]
  targets source externalId := by
    rw [targetOf_insertSourceMediaRef hid, hi]
    rcases db.targetOf source externalId with _ | j
    · rw [Option.none_or]
      split
      exacts [.inr rfl, .inl rfl]
    · exact .inl rfl

theorem bound_addReference {i : Nat} {db₀ : Database} {r : SourceMediaRef}
    (hi : r.mediaItemId = i) :
    (addReference r).Ensures (Quiet db₀) fun _ => Bound i db₀ := by
  refine .of_forall fun db hdb => (addReference_ensures r db).mono (fun _ h => h) ?_
  rintro _ _ ⟨-, -, rfl⟩
  have hbound : Bound i db (db.insertSourceMediaRef { r with id := db.sourceMediaRefs.nextId }) :=
    .insert rfl hi
  refine ⟨hbound.places.trans hdb.places, fun source externalId => ?_⟩
  rw [← hdb.targets]
  exact hbound.targets source externalId

theorem bindExistingContainer_bound (i : Nat) (externalId : String) (path : Option String)
    (genres : List String) (observedAt : Time) (db : Database) :
    (service.bindExistingContainer i externalId path genres observedAt).Ensures (· = db) fun _ =>
      Bound i db := by
  have hkeep : ∀ {p : Persist Unit}, (∀ db₀, Keeps (Quiet db₀) p) → Keeps (Bound i db) p := fun h =>
    keeps_of_quiet (fun _ _ hquiet => Bound.quiet hquiet) h
  refine .bind (M := fun _ => Bound i db) (.read_bind ?_) fun _ => ?_
  · rintro db rfl
    split
    next r _ =>
      refine .ite (fun _ => .fail _) fun _ =>
        Ensures.mono (hkeep fun _ => service.quiet_touchReference r observedAt) ?_ fun _ _ h => h
      rintro _ rfl
      exact .refl i _
    next =>
      have hadd : (addReference (service.containerReference i externalId observedAt)).Ensures
          (Quiet db) fun _ => Bound i db :=
        bound_addReference rfl
      refine .bind (hadd.mono ?_ fun _ _ h => h) fun _ => .pure fun _ h => h
      rintro _ rfl
      exact .refl _
  · exact .bind (hkeep fun _ => service.quiet_syncImage _ _ _) fun _ => hkeep fun _ =>
      service.quiet_mergeGenres _ _

structure Housed (service : MediaPersistenceService) (c : Container) (db : Database) (i : Nat)
    (db' : Database) : Prop where
  places : HousedPlaces service c db i db'
  kind : ∃ a, db'.places i = some a ∧ a.kind = c.kind
  targets : ∀ source externalId, db'.targetOf source externalId = db.targetOf source externalId ∨
    db'.targetOf source externalId = some i

section Ensure
variable {c : Container} {observedAt : Time} {db : Database}

theorem ensureKnownContainer_housed {r : SourceMediaRef}
    (hr : db.byExternalIdentity service.sourceId c.externalId = some r) :
    (service.ensureKnownContainer c r observedAt).Ensures (· = db) (Housed service c db) := by
  refine .bind (quiet_ensures (fun _ => service.quiet_touchReference r observedAt) db) fun _ =>
    .of_forall fun db₁ hdb₁ => ?_
  refine .bind (requiredMedia_ensures _ db₁) fun media => .ite (fun _ => .fail _) fun hkind =>
    .of_forall ?_
  rintro db₁ ⟨rfl, hmedia⟩
  have hid : media.id = r.mediaItemId := Table.key_of_get? hmedia
  have hfits : media.kind = c.kind := by
    by_contra hne
    exact hkind (.inl hne)
  have hplace : db.places media.id = some media.place := by
    rw [hid, ← hdb₁.places]
    exact places_of_get? hmedia
  refine .bind (M := fun _ => Quiet db)
    (Ensures.mono (service.quiet_syncImage _ _ _) (by rintro _ rfl; exact hdb₁) fun _ _ h => h)
    fun _ => ?_
  refine .bind (quiet_write fun db => ?_) fun _ =>
    .bind (service.quiet_syncIdentifierValues _ _) fun _ => .pure fun db' hquiet => ?_
  · split
    exacts [.refl db, .of_frame (service.mergeGenres_frame media.id db _) (by decide) (by decide)]
  · refine ⟨.old hquiet.places fun _ => ⟨media.place, hplace, .inr ?_⟩,
      ⟨media.place, hquiet.places ▸ hplace, hfits⟩, fun _ _ => ?_⟩
    · exact (congrArg (Option.map _) hr).trans (congrArg some hid.symm)
    · rw [hquiet.targets]
      exact .inl rfl

/-- A season is looked for by its number alone. -/
theorem matchContainer_season (hkind : c.kind = .season) (hids : c.identifiers = [])
    (db : Database) :
    (service.matchContainer c).Ensures (· = db) fun found db' => db' = db ∧
      (∀ i, found = some i → db.places i = some ⟨c.kind, c.parentId, c.seasonNumber⟩) ∧
        (found = none → ∀ j, db.places j ≠ some ⟨c.kind, c.parentId, c.seasonNumber⟩) := by
  have hnone : (service.matchContainerByIdentifiers c).Ensures (· = db) fun found db' =>
      found = none ∧ db' = db := by
    have hempty : ∀ d : Database, d.mediaIdsForKind c.kind c.identifiers = [] := by
      intro d
      unfold mediaIdsForKind
      rw [hids]
      simp
    refine .read_bind ?_
    rintro db rfl
    rw [hempty]
    exact .read_bind (by rintro db rfl; exact .pure (by rintro _ rfl; exact ⟨rfl, rfl⟩))
  refine .bind hnone fun found => .of_forall ?_
  rintro _ ⟨rfl, rfl⟩
  have hneither : ¬ (c.kind ≠ .show ∧ c.kind ≠ .season) := fun h => h.2 hkind
  have hshow : c.kind ≠ .show := by rw [hkind]; decide
  unfold matchHistoricalContainer
  rw [if_neg hneither]
  refine .read_bind ?_
  rintro db rfl
  refine .read_bind ?_
  rintro db rfl
  set candidates :=
    (db.mediaItems.rows.filter fun m => m.kind == c.kind && m.parentId == c.parentId &&
    if c.kind = .show then service.py.normalizedTitle m.title == service.py.normalizedTitle c.title
    else m.seasonNumber == c.seasonNumber).map (·.id) with hcandidates
  have hmem : ∀ i, i ∈ candidates ↔ db.places i = some ⟨c.kind, c.parentId, c.seasonNumber⟩ := by
    intro i
    rw [hcandidates]
    simp only [if_neg hshow, List.mem_map, List.mem_filter, Bool.and_eq_true, beq_iff_eq]
    constructor
    · rintro ⟨m, ⟨hrow, ⟨hk, hp⟩, hn⟩, rfl⟩
      rw [places_of_get? (Table.get?_of_mem hrow), MediaItem.place, hk, hp, hn]
    · intro hplace
      obtain ⟨m, hm, hplace⟩ := Option.map_eq_some_iff.1 hplace
      obtain ⟨hk, hp, hn⟩ := Place.mk.inj hplace
      exact ⟨m, ⟨Table.mem_of_get? hm, ⟨hk, hp⟩, hn⟩, Table.key_of_get? hm⟩
  clear_value candidates
  split
  next =>
    refine .pure ?_
    rintro _ rfl
    exact ⟨rfl, fun i h => (by cases h), fun _ j hj => absurd ((hmem j).2 hj) List.not_mem_nil⟩
  next i =>
    refine .pure ?_
    rintro _ rfl
    refine ⟨rfl, fun j hj => ?_, fun h => (by cases h)⟩
    exact (hmem j).1 (by cases hj; exact List.mem_singleton.2 rfl)
  next i _ howned =>
    refine .pure ?_
    rintro _ rfl
    refine ⟨rfl, fun j hj => ?_, fun h => (by cases h)⟩
    exact (hmem j).1
      (List.mem_of_mem_filter (by rw [howned]; cases hj; exact List.mem_singleton.2 rfl))
  next => exact .fail _

theorem createContainer_housed
    (hfree : c.kind = .season → ∀ j, db.places j ≠ some ⟨c.kind, c.parentId, c.seasonNumber⟩) :
    (service.createContainer c observedAt).Ensures (· = db) (Housed service c db) := by
  refine .read_bind ?_
  rintro db rfl
  set m := service.newContainer db.mediaItems.nextId c with hm
  have hplaces := places_insertMediaItem (m := m) (rfl : m.id = db.mediaItems.nextId)
  have htargets : (db.insertMediaItem m).targetOf = db.targetOf := by
    have hrefs : (db.insertMediaItem m).sourceMediaRefs = db.sourceMediaRefs :=
      insertMediaItem_frame m .sourceMediaRefs (by decide)
    unfold targetOf byExternalIdentity
    rw [hrefs]
  have hnew : ∀ db', Bound m.id (db.insertMediaItem m) db' → Housed service c db m.id db' := by
    intro db' hbound
    refine ⟨.new ?_ (fun j => ?_) hfree, ⟨m.place, ?_, rfl⟩, fun source externalId => ?_⟩
    · exact congrArg (Option.map _) db.mediaItems.get?_nextId
    · rw [hbound.places, hplaces]
      rfl
    · rw [hbound.places, hplaces, if_pos rfl]
    · rw [← htargets]
      exact hbound.targets source externalId
  have hkeep : ∀ {p : Persist Unit}, (∀ db₀, Keeps (Quiet db₀) p) →
      Keeps (Bound m.id (db.insertMediaItem m)) p := fun h =>
    keeps_of_quiet (fun _ _ hquiet => Bound.quiet hquiet) h
  refine .bind (M := fun _ => Quiet (db.insertMediaItem m))
    (.write (by rintro _ rfl; exact .refl _)) fun _ => ?_
  refine .bind (bound_addReference (i := m.id) rfl) fun _ =>
    .bind (hkeep fun _ => service.quiet_syncImage _ _ _) fun _ => ?_
  refine .bind (hkeep fun _ => service.quiet_mergeGenres _ _) fun _ => ?_
  exact .bind (hkeep fun _ => service.quiet_syncIdentifierValues _ _) fun _ =>
    .pure fun db' hbound => hnew db' hbound

theorem ensureContainer_housed (hids : c.kind = .season → c.identifiers = []) :
    (service.ensureContainer c observedAt).Ensures (· = db) (Housed service c db) := by
  refine .read_bind ?_
  rintro db rfl
  split
  next r hr => exact service.ensureKnownContainer_housed hr
  next =>
    have hmatch : (service.matchContainer c).Ensures (· = db) fun found db' =>
        Found c.kind db found db' ∧ (c.kind = .season →
        (∀ i, found = some i → db.places i = some ⟨c.kind, c.parentId, c.seasonNumber⟩) ∧
          (found = none → ∀ j, db.places j ≠ some ⟨c.kind, c.parentId, c.seasonNumber⟩)) := by
      refine (service.matchContainer_ensures c db).and ?_
      by_cases hkind : c.kind = .season
      · exact (service.matchContainer_season hkind (hids hkind) db).mono (fun _ h => h)
          fun _ _ h _ => h.2
      · exact (service.matchContainer_ensures c db).mono (fun _ h => h) fun _ _ _ h =>
          absurd h hkind
    refine .bind hmatch fun found => .of_forall ?_
    rintro _ ⟨⟨rfl, hkind⟩, hseason⟩
    rcases found with _ | i
    · exact service.createContainer_housed fun h => (hseason h).2 rfl
    · obtain ⟨m, hm, hmk⟩ := Option.map_eq_some_iff.1 (hkind i rfl)
      refine .bind (service.bindExistingContainer_bound i _ _ _ observedAt _) fun _ => ?_
      refine .bind (keeps_of_quiet (fun _ _ hquiet => Bound.quiet hquiet) fun _ =>
        service.quiet_syncIdentifierValues i _) fun _ => ?_
      refine .pure fun db' hbound =>
        ⟨.old hbound.places fun h => ?_, ⟨m.place, ?_, hmk⟩, hbound.targets⟩
      · exact ⟨_, (hseason h).1 i rfl, .inl rfl⟩
      · rw [hbound.places]
        exact places_of_get? hm

end Ensure

namespace Housed
variable {service} {c : Container} {i : Nat} {db db' : Database}

theorem shelved (h : Housed service c db i db') (hs : db.Shelved) (hc : c.kind.isContainer = true)
    (hfits : db.ParentFits c.kind c.parentId) : db'.Shelved := by
  rcases h.places with ⟨hplaces, -⟩ | ⟨hfree, hplaces, hseason⟩
  · exact hs.of_places hplaces
  · refine hs.set hplaces (fun b hb => ?_) hfits (fun p b hkind => ?_) hseason
    · rw [hfree] at hb
      cases hb
    · rw [show c.kind = .episode from hkind] at hc
      cases hc

/-- Every place that was there is there. -/
theorem kept (h : Housed service c db i db') {j : Nat} {a : Place} (ha : db.places j = some a) :
    db'.places j = some a := by
  rcases h.places with ⟨hplaces, -⟩ | ⟨hfree, hplaces, -⟩
  · rw [hplaces, ha]
  · rw [hplaces, if_neg, ha]
    rintro rfl
    rw [hfree] at ha
    cases ha

end Housed

/-! ### The hierarchy -/

/-- What the source shows under the id of the season of an item is no season of another number. -/
def SeasonAgrees (service : MediaPersistenceService) (item : MediaFields) (db : Database) : Prop :=
  ∀ e ∈ item.episode?, ∀ i ∈ db.targetOf service.sourceId (item.seasonReferenceId e),
    ∀ a ∈ db.places i,
    a.kind = .season → a.number = some e.seasonNumber

/-- The parent of an item fits its kind and its season number. -/
structure ParentAgrees (item : MediaFields) (parent : Option Nat) (db : Database) : Prop where
  fits : db.ParentFits item.kind parent
  number : item.kind = .episode → ∀ p b, parent = some p → db.places p = some b →
    b.number = item.seasonNumber

/-- The places that were there are there, and the catalog is as it should be. -/
abbrev Enlarged (db db' : Database) : Prop :=
  db'.Shelved ∧ ∀ j a, db.places j = some a → db'.places j = some a

theorem enlarged_of_places {db db' : Database} (h : db.Shelved) (hplaces : db'.places = db.places) :
    Enlarged db db' :=
  ⟨h.of_places hplaces, fun j a ha => by rw [hplaces, ha]⟩

theorem Housed.enlarged {service : MediaPersistenceService} {c : Container} {i : Nat}
    {db db' : Database}
    (h : Housed service c db i db') (hs : db.Shelved) (hc : c.kind.isContainer = true)
    (hfits : db.ParentFits c.kind c.parentId) : Enlarged db db' :=
  ⟨h.shelved hs hc hfits, fun _ _ => h.kept⟩

/-- A show that is found or made hides no season. -/
theorem Housed.seasonAgrees {service : MediaPersistenceService} {item : MediaFields}
    {c : Container} {i : Nat}
    {db db' : Database} (h : Housed service c db i db') (hkind : c.kind ≠ .season)
    (hseason : SeasonAgrees service item db) :
    SeasonAgrees service item db' := by
  intro e he j hj a ha hak
  obtain ⟨b, hb, hbk⟩ := h.kind
  have hji : j ≠ i := by
    rintro rfl
    rw [show db'.places j = some a from ha, Option.some_inj] at hb
    exact hkind (hbk.symm.trans (hb ▸ hak))
  refine hseason e he j ?_ a ?_ hak
  · rcases h.targets service.sourceId (item.seasonReferenceId e) with hold | hnew
    · exact hold ▸ hj
    · rw [show db'.targetOf _ _ = some j from hj, Option.some_inj] at hnew
      exact absurd hnew hji
  · rcases h.places with ⟨hplaces, -⟩ | ⟨-, hplaces, -⟩
    · exact hplaces ▸ ha
    · rw [hplaces, if_neg hji] at ha
      exact ha

section Hierarchy
variable {item : MediaFields} {t : TrackFields} {e : EpisodeFields} {observedAt : Time}
  {db : Database}

theorem seasonNumber_of_episode? (he : item.episode? = some e) :
    item.seasonNumber = some e.seasonNumber := by
  unfold MediaFields.episode? at he
  split at he
  · obtain ⟨_, -, he⟩ := Option.bind_eq_some_iff.1 he
    obtain ⟨_, -, he⟩ := Option.bind_eq_some_iff.1 he
    obtain ⟨number, hnumber, he⟩ := Option.bind_eq_some_iff.1 he
    obtain ⟨_, -, he⟩ := Option.bind_eq_some_iff.1 he
    cases he
    exact hnumber
  · cases he

theorem parentAgrees_season {i : Nat} {a : Place} (he : item.episode? = some e)
    (ha : db.places i = some a)
    (hkind : a.kind = .season) (hnumber : a.number = some e.seasonNumber) :
    ParentAgrees item (some i) db where
  fits := by
    rw [MediaFields.kind_of_episode? he]
    exact .of_places rfl ha hkind
  number _ p b hp hb := by
    cases hp
    rw [ha, Option.some_inj] at hb
    rw [← hb, hnumber, seasonNumber_of_episode? he]

theorem ensureAlbum_places (hs : db.Shelved) (ht : item.track? = some t) :
    (service.ensureAlbum item t observedAt).Ensures (· = db) fun i db' => Enlarged db db' ∧
    ParentAgrees item (some i) db' := by
  have hkind := MediaFields.kind_of_track? ht
  have hnumber : item.kind ≠ .episode := by rw [hkind]; decide
  refine ((service.ensureAlbum_ensures ht).and ?_).mono (fun _ h => h) fun i db' h =>
    ⟨h.2, ⟨by rw [hkind]; exact congrArg some h.1.2.2.2, fun h => absurd h hnumber⟩⟩
  refine .read_bind ?_
  rintro db rfl
  split
  next r _ =>
    exact (quiet_ensures (fun _ => service.quiet_ensureKnownAlbum item t r observedAt) db).mono
      (fun _ h => h)
      fun _ _ hquiet => enlarged_of_places hs hquiet.places
  next =>
    refine .bind (service.ensureContainer_housed (c := artistContainer item t) fun h => by cases h)
      fun artist => ?_
    refine .of_forall fun db₁ hartist => ?_
    have henlarged := hartist.enlarged hs rfl (parentFits_none.2 rfl)
    obtain ⟨a, ha, hak⟩ := hartist.kind
    refine (service.ensureContainer_housed (c := albumContainer item t artist) fun h => by
      cases h).mono
      (fun _ h => h) fun i db₂ halbum => ?_
    have hlater := halbum.enlarged henlarged.1 rfl (.of_places rfl ha hak)
    exact ⟨hlater.1, fun j b hb => hlater.2 j b (henlarged.2 j b hb)⟩

theorem ensureSeason_places (hs : db.Shelved) (he : item.episode? = some e)
    (hseason : SeasonAgrees service item db) :
    (service.ensureSeason item e observedAt).Ensures (· = db) fun i db' => Enlarged db db' ∧
    ParentAgrees item (some i) db' := by
  refine .bind (service.ensureContainer_housed (c := showContainer item e) fun h => by cases h)
    fun «show» => ?_
  refine .of_forall fun db₁ hshow => ?_
  have henlarged := hshow.enlarged hs rfl (parentFits_none.2 rfl)
  have hseason₁ := hshow.seasonAgrees (fun h => by cases h) hseason
  obtain ⟨a, ha, hak⟩ := hshow.kind
  refine (service.ensureContainer_housed (c := seasonContainer item e «show») fun _ => rfl).mono
    (fun _ h => h) fun i db₂ hhoused => ?_
  have hlater := hhoused.enlarged henlarged.1 rfl (.of_places rfl ha hak)
  refine ⟨⟨hlater.1, fun j b hb => hlater.2 j b (henlarged.2 j b hb)⟩, ?_⟩
  obtain ⟨b, hb, hbk⟩ := hhoused.kind
  refine parentAgrees_season he hb hbk ?_
  rcases hhoused.places with ⟨hplaces, hold⟩ | ⟨-, hplaces, -⟩
  · obtain ⟨b', hb', hnumber⟩ := hold rfl
    rw [hplaces, hb', Option.some_inj] at hb
    subst hb
    rcases hnumber with hnumber | htarget
    · exact hnumber
    · exact hseason₁ e he i htarget b' hb' hbk
  · rw [hplaces, if_pos rfl] at hb
    rw [← Option.some_inj.1 hb]
    rfl

theorem bindExistingEpisodeHierarchy_places (hs : db.Shelved) (he : item.episode? = some e)
    (episode : MediaItem) :
    (service.bindExistingEpisodeHierarchy item e episode observedAt).Ensures (· = db) fun i db' =>
      Enlarged db db' ∧ ParentAgrees item (some i) db' := by
  refine .bind (requiredMedia_ensures _ db) fun season => .of_forall ?_
  rintro db₁ ⟨rfl, hseason⟩
  refine .bind (requiredMedia_ensures _ db₁) fun «show» => .of_forall ?_
  rintro db₂ ⟨rfl, -⟩
  refine .ite (fun _ => .fail _) fun hkinds => ?_
  simp only [not_or, not_not] at hkinds
  have hplace : db₂.places season.id = some season.place := by
    rw [Table.key_of_get? hseason]
    exact places_of_get? hseason
  refine .bind (M := fun _ db' => db'.places = db₂.places) (.write ?_) fun _ => ?_
  · rintro _ rfl
    split
    exacts [places_saveMediaItem _ _ _ _ fun _ => rfl, rfl]
  have hbind : ∀ (i : Nat) (externalId : String) (path : Option String),
      (service.bindExistingContainer i externalId path item.genres observedAt).Ensures
        (fun db' => db'.places = db₂.places)
        fun _ db' => db'.places = db₂.places := fun i externalId path =>
    .of_forall fun db₃ hdb₃ =>
      (service.bindExistingContainer_bound i externalId path _ observedAt db₃).mono (fun _ h => h)
      fun _ _ hbound => hbound.places.trans hdb₃
  refine .bind (hbind _ _ _) fun _ => .bind (hbind _ _ _) fun _ => .pure fun db' hplaces => ?_
  refine ⟨enlarged_of_places hs hplaces,
    parentAgrees_season (a := season.place) he ?_ hkinds.2.1 hkinds.2.2.2⟩
  rw [hplaces, hplace]

theorem ensureHierarchy_places (item : ExternalMediaItem) (hleaf : item.kind.isContainer = false)
    (hs : db.Shelved)
    (hseason : SeasonAgrees service item.toMediaFields db) (matched : Option MediaItem) :
    (service.ensureHierarchy item.toMediaFields observedAt matched).Ensures
      (· = db) fun parent db' =>
      Enlarged db db' ∧ ParentAgrees item.toMediaFields parent db' := by
  have hfits : (service.ensureHierarchy item.toMediaFields observedAt matched).Ensures (· = db) _ :=
    service.ensureHierarchy_ensures item hleaf matched
  have hepisode := item.isSome_episode?
  unfold ensureHierarchy at hfits ⊢
  rcases ht : item.track? with _ | t
  · rcases he : item.episode? with _ | e
    · rw [ht, he] at hfits
      refine (hfits.and (.pure (Q := fun _ db' => db' = db) fun _ h => h)).mono (fun _ h => h) ?_
      rintro parent db' ⟨⟨-, hparent, -⟩, rfl⟩
      refine ⟨enlarged_of_places hs rfl, hparent, fun hkind => ?_⟩
      rw [he, hkind] at hepisode
      simp at hepisode
    · rcases matched with _ | episode
      · exact .bind (service.ensureSeason_places hs he hseason) fun i => .pure fun _ h => h
      · exact .bind (service.bindExistingEpisodeHierarchy_places hs he episode) fun i =>
          .pure fun _ h => h
  · exact .bind (service.ensureAlbum_places hs ht) fun i => .pure fun _ h => h

end Hierarchy

section Store
variable {item : MediaFields} {observedAt : Time} {parent : Option Nat} {db db' : Database}

/-- The item has the place of its listing, or everything is where it was. -/
def Placed (item : MediaFields) (parent : Option Nat) (db db' : Database) : Prop :=
  db'.places = db.places ∨ ∃ i, (∀ b, db.places i = some b → b.kind.isContainer = false) ∧
    ∀ j, db'.places j = if j = i then some ⟨item.kind, parent, item.seasonNumber⟩ else db.places j

theorem Placed.of_places {db'' : Database} (h : Placed item parent db db')
    (hplaces : db''.places = db'.places) :
    Placed item parent db db'' := by
  rcases h with h | ⟨i, hold, h⟩
  · exact .inl (hplaces.trans h)
  · exact .inr ⟨i, hold, fun j => by rw [hplaces, h]⟩

theorem Placed.shelved (h : Placed item parent db db') (hs : db.Shelved)
    (hleaf : item.kind.isContainer = false)
    (hparent : ParentAgrees item parent db) : db'.Shelved := by
  rcases h with h | ⟨i, hold, h⟩
  · exact hs.of_places h
  · refine hs.set h (fun b hb => ⟨hold b hb, hleaf⟩) hparent.fits
      (fun p b hkind hp hb => hparent.number hkind p b hp hb)
      fun hkind => ?_
    rw [show item.kind = .season from hkind] at hleaf
    cases hleaf

theorem updateMedia_placed {i : Nat} {b : Place} (hi : db.places i = some b)
    (hb : b.kind.isContainer = false) :
    Placed item parent db (service.updateMedia item parent i db) := by
  unfold updateMedia
  split
  · refine .inr ⟨i, fun b' hb' => ?_, fun j => ?_⟩
    · rw [hi, Option.some_inj] at hb'
      rw [← hb', hb]
    · obtain ⟨m, hm, -⟩ := Option.map_eq_some_iff.1 hi
      unfold Database.places
      rw [get?_saveMediaItem]
      split
      next hji =>
        rw [hji, hm, Option.map_some, Option.map_some]
        congr 1
        split
        next => rfl
        next hsame =>
          simp only [Table.key_of_get? hm, beq_self_eq_true, Bool.true_and, decide_eq_true_eq,
            not_not] at hsame
          exact congrArg MediaItem.place hsame.symm
      next hji =>
        rw [Option.map_map]
        cases hmj : db.mediaItems.get? j with
        | none => rfl
        | some m' =>
          have hid : m'.id = j := Table.key_of_get? hmj
          rw [Option.map_some, Option.map_some, Function.comp, if_neg (by simp [hid, hji])]
  · exact .inl rfl

theorem addReference_places (r : SourceMediaRef) {db₀ : Database} :
    (addReference r).Ensures (Placed item parent db₀)
    fun _ => Placed item parent db₀ :=
  .of_forall fun db hdb =>
    Ensures.mono (bound_addReference (r := r) rfl) (by rintro _ rfl; exact .refl _)
    fun _ _ hbound => hdb.of_places (Bound.places hbound)

theorem storeMedia_placed {known : Option SourceMediaRef} {matched : Option MediaItem}
    (hknown : ∀ r, known = some r → ∃ b, db.places r.mediaItemId = some b ∧
      b.kind.isContainer = false)
    (hmatched : ∀ m, matched = some m → ∃ b, db.places m.id = some b ∧ b.kind.isContainer = false) :
    (service.storeMedia item observedAt known matched parent).Ensures (· = db) fun _ =>
      Placed item parent db := by
  rcases known with _ | r
  · rcases matched with _ | m
    · refine .read_bind ?_
      rintro db rfl
      refine .bind (M := fun _ => Placed item parent db) (.write ?_) fun _ => ?_
      · rintro _ rfl
        refine .inr ⟨_, fun b hb => ?_, fun j => (places_insertMediaItem rfl j).trans rfl⟩
        obtain ⟨m, hm, -⟩ := Option.map_eq_some_iff.1 hb
        exact absurd ((Table.get?_nextId _).symm.trans hm) (by simp)
      · exact .bind (addReference_places _) fun _ => .pure fun _ h => h
    · obtain ⟨b, hb, hleaf⟩ := hmatched m rfl
      refine .bind (M := fun _ => Placed item parent db) (.write ?_) fun _ => ?_
      · rintro _ rfl
        exact service.updateMedia_placed hb hleaf
      · exact .bind (addReference_places _) fun _ => .pure fun _ h => h
  · obtain ⟨b, hb, hleaf⟩ := hknown r rfl
    refine .bind (requiredMedia_ensures _ db) fun media => .of_forall ?_
    rintro db ⟨rfl, hmedia⟩
    refine .bind (M := fun _ => Placed item parent db) (.write ?_) fun _ => ?_
    · rintro _ rfl
      split
      · exact .inl rfl
      · rw [Table.key_of_get? hmedia]
        exact service.updateMedia_placed hb hleaf
    · refine .bind (M := fun _ => Placed item parent db) (.write fun db₁ hdb₁ => hdb₁.of_places ?_)
        fun _ => .pure fun _ h => h
      exact (Quiet.save_reference db₁ _ _ _ fun _ => ⟨rfl, rfl, rfl⟩).places

end Store

/-- A listing of a leaf, whose id stands for a leaf and the id of whose season for no season of
another number. -/
structure ListingAgrees (service : MediaPersistenceService) (item : MediaFields)
    (db : Database) : Prop where
  leaf : item.kind.isContainer = false
  reference : ∀ i ∈ db.targetOf service.sourceId item.externalId, ∃ a ∈ db.places i,
    a.kind.isContainer = false
  season : SeasonAgrees service item db

theorem persistMedia_shelved (item : ExternalMediaItem) (observedAt : Time) {db : Database}
    (hs : db.Shelved) (h : ListingAgrees service item.toMediaFields db) :
    (service.persistMedia item observedAt).Ensures (· = db) fun _ => Database.Shelved := by
  refine .read_bind ?_
  rintro db rfl
  refine .bind (service.matchMedia_ensures _ db) fun matched => .of_forall ?_
  rintro db ⟨⟨rfl, hmatched⟩, -⟩
  refine .bind (service.ensureHierarchy_places item h.leaf hs h.season matched) fun parent =>
    .of_forall fun db₁ hdb₁ => ?_
  obtain ⟨⟨hs₁, hkept⟩, hparent⟩ := hdb₁
  refine .bind (quiet_ensures (fun _ => service.quiet_syncShowMetadata item parent) db₁) fun _ =>
    .of_forall fun db₂ hquiet => ?_
  have hs₂ := hs₁.of_places hquiet.places
  have hkept₂ : ∀ j a, db.places j = some a → db₂.places j = some a := fun j a ha => by
    rw [hquiet.places]
    exact hkept j a ha
  refine .bind (M := fun _ => Database.Shelved) ?_ fun persisted => ?_
  · refine (service.storeMedia_placed (fun r hr => ?_) fun m hm => ?_).mono (fun _ h => h)
        fun _ db₃ hplaced =>
      hplaced.shelved hs₂ h.leaf ⟨?_, ?_⟩
    · obtain ⟨a, ha, hleaf⟩ := h.reference r.mediaItemId (congrArg (Option.map _) hr)
      exact ⟨a, hkept₂ _ a ha, hleaf⟩
    · obtain ⟨hrow, hkind⟩ := hmatched m hm
      exact ⟨m.place, hkept₂ _ _ (places_of_get? hrow),
        (congrArg MediaKind.isContainer hkind).trans h.leaf⟩
    · exact (parentFits_congr hquiet.places).2 hparent.fits
    · intro hkind p b hp hb
      exact hparent.number hkind p b hp (hquiet.places ▸ hb)
  · have hkeep : ∀ {α : Type} {p : Persist α}, (∀ db₀, Keeps (Quiet db₀) p) →
        Keeps Database.Shelved p := fun h =>
      keeps_of_quiet (fun _ _ hquiet hs => hs.of_places hquiet.places) h
    exact .bind (hkeep fun _ => service.quiet_persistDetails _ persisted) fun _ =>
      hkeep fun _ => service.quiet_persistPlayback _ observedAt persisted

end MediaPersistenceService

end Euvieouvi
