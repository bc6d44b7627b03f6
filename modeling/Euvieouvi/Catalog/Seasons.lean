import Euvieouvi.Catalog.Forest
import Euvieouvi.Catalog.Listings
import Euvieouvi.Catalog.Shelves

/-!
# Seasons and their numbers

The groups that the reconciliation finds by itself hold no seasons, so only a merge that names its
seasons can mix two numbers. `_ensure_container` can too: it never compares the number of a season
that it reaches by its reference. In a run without either, every episode has the number of its
season, and no show has two seasons of one number.
-/

namespace Euvieouvi

open MediaPersistenceService

namespace Database
variable {db db' : Database} {now : Time} {py : PyLib}

theorem OneNumber.of_oneKind {ids : List Nat} (h : db.OneKind ids)
    (hseason : ∀ i ∈ ids, db.identityRows.kindOf i ≠ some .season) : db.OneNumber ids := by
  obtain ⟨k, hk⟩ := h
  intro i hi j hj a b ha hb
  have hak := hk i hi _ (kindOf_of_places ha)
  refine ⟨(hk j hj _ (kindOf_of_places hb)).trans hak.symm, fun hs => absurd ?_ (hseason i hi)⟩
  rw [kindOf_of_places ha, hs]

/-- A file counts for a movie, a track or a show. -/
theorem physicalOwner_ne_season (hl : db.Layered) {only : Option Nat}
    {row : PhysicalRow × Nat × Option Nat} {i : Nat}
    (hrow : row ∈ db.physicalRows only) (hi : row.2.2 = some i) :
    db.identityRows.kindOf i ≠ some .season := by
  unfold physicalRows at hrow
  obtain ⟨f, -, hrow⟩ := List.mem_filterMap.1 hrow
  obtain ⟨r, -, hrow⟩ := Option.bind_eq_some_iff.1 hrow
  obtain ⟨source, -, hrow⟩ := Option.bind_eq_some_iff.1 hrow
  obtain ⟨m, hm, hrow⟩ := Option.bind_eq_some_iff.1 hrow
  dsimp only at hrow
  split at hrow
  next hsel =>
    obtain rfl := Option.some_inj.1 hrow
    simp only [Bool.and_eq_true, Bool.or_eq_true, decide_eq_true_eq] at hsel
    intro hseason
    have hkind := kindOf_physicalOwner hl hm hi hseason
    rcases hsel.1.2 with (hk | hk) | hk <;> rw [hk] at hkind <;> cases hkind
  · cases hrow

theorem oneNumber_physicalGroups (hl : db.Layered) {only : Option Nat} {ids : List Nat}
    (h : ids ∈ db.physicalGroups only) :
    db.OneNumber ids := by
  refine .of_oneKind (oneKind_physicalGroups hl h) fun i hi => ?_
  unfold physicalGroups at h
  simp only [List.mem_insertionSort, List.mem_eraseDups, List.mem_map, List.mem_filter] at h
  obtain ⟨rows, ⟨⟨⟨key, rows'⟩, hgroup, rfl⟩, -⟩, rfl⟩ := h
  obtain ⟨rfl, -⟩ := mem_groupBy hgroup
  simp only [List.mem_insertionSort, List.mem_eraseDups, List.mem_filterMap, List.mem_filter] at hi
  obtain ⟨row, ⟨hrow, -⟩, howner⟩ := hi
  exact physicalOwner_ne_season hl hrow howner

theorem identifierRows_ne_season {row : List Nat} {i : Nat} (h : row ∈ db.identifierRows)
    (hi : i ∈ row) :
    db.identityRows.kindOf i ≠ some .season := by
  unfold identifierRows at h
  obtain ⟨hrow, -⟩ := List.mem_filter.1 h
  obtain ⟨⟨key, rows⟩, hgroup, rfl⟩ := List.mem_map.1 hrow
  obtain ⟨rfl, -⟩ := mem_groupBy hgroup
  simp only [List.mem_eraseDups, List.mem_map, List.mem_filter, List.mem_filterMap] at hi
  obtain ⟨pair, ⟨⟨r, -, hpair⟩, -⟩, rfl⟩ := hi
  obtain ⟨m, hm, hpair⟩ := Option.bind_eq_some_iff.1 hpair
  split at hpair
  next hsel =>
    rw [← Option.some_inj.1 hpair]
    show db.identityRows.kindOf m.id ≠ _
    rw [IdentityRows.kindOf_of_mem (Table.mem_of_get? hm)]
    rintro heq
    rw [Option.some_inj.1 heq] at hsel
    simp [isMergeKind] at hsel
  · cases hpair

theorem oneNumber_duplicateGroups {ids : List Nat} (h : ids ∈ db.duplicateGroups) :
    db.OneNumber ids := by
  refine .of_oneKind (oneKind_duplicateGroups h) fun i hi => ?_
  unfold duplicateGroups at h
  obtain ⟨hmem, -⟩ := List.mem_filter.1 h
  obtain ⟨⟨root, members⟩, hgroup, rfl⟩ := List.mem_map.1 hmem
  obtain ⟨rfl, -⟩ := mem_groupBy hgroup
  simp only [List.mem_insertionSort, List.mem_filter, List.mem_eraseDups, List.mem_flatten] at hi
  obtain ⟨⟨row, hrow, hi⟩, -⟩ := hi
  exact identifierRows_ne_season hrow hi

/-! ### Entry points -/

theorem markProjectionStale_places (db : Database) :
    db.markProjectionStale.places = db.places := rfl

theorem stale_shelved {d : Database} (h : d.Shelved) (log : List MergeStep) :
    (if log = [] then d else d.markProjectionStale).Shelved := by
  split
  exacts [h, h.of_places d.markProjectionStale_places]

theorem reconcilePhysicalItem_shelved (now : Time) (item : Nat) (hs : db.Shelved) :
    (db.reconcilePhysicalItem now item).1.Shelved := by
  have hloop : ∀ (groups : List (List Nat)) (acc : Database × List MergeStep),
      (∀ ids ∈ groups, acc.1.OneNumber ids) →
      acc.1.Shelved → (groups.foldl (reconcilePhysicalGroup now) acc).1.Shelved := by
    intro groups
    induction groups with
    | nil => exact fun _ _ hs => hs
    | cons ids groups ih =>
      intro acc hgroups hs
      rw [List.foldl_cons]
      unfold reconcilePhysicalGroup
      split
      next d log hgroup =>
        have hremain := (respects_numbers.log now).mergeGroup hgroup
        refine ih (d, acc.2 ++ log)
          (fun g hg => (hgroups g (List.mem_cons_of_mem ids hg)).later hremain) ?_
        exact mergeGroup_shelved now hs (hgroups ids List.mem_cons_self) hgroup
      next => exact ih acc (fun g hg => hgroups g (List.mem_cons_of_mem ids hg)) hs
  have hmerged := hloop (db.physicalGroups (some item)) (db, [])
    (fun ids hids => oneNumber_physicalGroups hs.layered hids) hs
  unfold reconcilePhysicalItem
  generalize (db.physicalGroups (some item)).foldl (reconcilePhysicalGroup now) (db, []) =
    merged at hmerged ⊢
  obtain ⟨d, log⟩ := merged
  dsimp only
  split
  exacts [hmerged, hmerged.of_places d.markProjectionStale_places]

/-- The seasons among these items have one number. -/
def SeasonsAgree (db : Database) (ids : List Nat) : Prop :=
  ∀ i ∈ ids, ∀ j ∈ ids, ∀ a ∈ db.places i, ∀ b ∈ db.places j, a.kind = .season → b.kind = .season →
    a.number = b.number

instance (db : Database) (ids : List Nat) : Decidable (db.SeasonsAgree ids) :=
  inferInstanceAs (Decidable (∀ i ∈ ids, ∀ j ∈ ids, ∀ a ∈ db.places i, ∀ b ∈ db.places j, _))

theorem SeasonsAgree.oneNumber {ids ids' : List Nat} (h : db.SeasonsAgree ids) (hsub : ids' ⊆ ids)
    (hk : db.OneKind ids') :
    db.OneNumber ids' := by
  obtain ⟨k, hk⟩ := hk
  intro i hi j hj a b ha hb
  have hkinds := (hk j hj _ (kindOf_of_places hb)).trans (hk i hi _ (kindOf_of_places ha)).symm
  exact ⟨hkinds, fun hseason => h i (hsub hi) j (hsub hj) a ha b hb hseason (hkinds.trans hseason)⟩

theorem reconcileMatchingItems_shelved (now : Time) (kind : MediaKind)
    (identifiers : List ExternalIdentifier)
    (preferred : Option Nat) (hs : db.Shelved)
    (h : db.SeasonsAgree (db.mediaIdsForKind kind identifiers)) :
    (db.reconcileMatchingItems now kind identifiers preferred).1.Shelved := by
  unfold reconcileMatchingItems
  dsimp only
  split
  · exact hs
  · split
    · exact hs
    next hunsafe =>
      set ids := ((db.mediaIdentifiers.rows.filter fun r => (db.identityRows.kindOf r.mediaItemId) =
        some kind &&
        (identifiers.filter fun i => stableProviders.contains i.provider &&
          i.externalId ≠ "").contains
          ⟨r.provider, r.externalId⟩).map (·.mediaItemId)).eraseDups with hids
      have hmem : ∀ i ∈ ids, db.identityRows.kindOf i = some kind ∧
          i ∈ db.mediaIdsForKind kind identifiers := by
        intro i hi
        rw [hids, List.mem_eraseDups] at hi
        obtain ⟨r, hr, rfl⟩ := List.mem_map.1 hi
        obtain ⟨hrow, hsel⟩ := List.mem_filter.1 hr
        simp only [Bool.and_eq_true, decide_eq_true_eq] at hsel
        refine ⟨hsel.1,
          List.mem_eraseDups.2 (List.mem_map.2 ⟨r, List.mem_filter.2 ⟨hrow, ?_⟩, rfl⟩)⟩
        obtain ⟨m, hm, hk⟩ := Option.map_eq_some_iff.1 hsel.1
        have hcontains : ⟨r.provider, r.externalId⟩ ∈ identifiers := by
          have hfiltered := hsel.2
          rw [List.contains_iff_mem] at hfiltered
          exact (List.mem_filter.1 hfiltered).1
        rw [Bool.and_eq_true, Option.any_eq_true]
        exact ⟨⟨m, hm, beq_iff_eq.2 hk⟩, by simpa using hcontains⟩
      clear_value ids
      obtain ⟨hne, -⟩ := passed hunsafe
      have hone : db.OneNumber ids :=
        h.oneNumber (fun i hi => (hmem i hi).2)
          (OneKind.of_const (some kind) fun i hi => (hmem i hi).1)
      set c := (preferred.filter (db.live ids).contains).getD (db.canonical (db.live ids)) with hc
      have hc : c ∈ db.live ids := by
        rw [hc]
        cases hp : preferred.filter (db.live ids).contains with
        | none => exact canonical_mem _ hne
        | some i => simpa using (Option.filter_eq_some_iff.1 hp).2
      have hmerged := mergeGroupInto_shelved now hs hone.live hc (mem_live hc)
      generalize db.mergeDuplicates now c (db.live ids) = merged at hmerged ⊢
      obtain ⟨d, log⟩ := merged
      dsimp only
      split
      exacts [hmerged, hmerged.of_places d.markProjectionStale_places]

theorem mergeConfirmedItems_shelved (now : Time) {ids : List Nat} (hs : db.Shelved)
    (h : db.SeasonsAgree ids) {d : Database}
    {log : List MergeStep} (hcall : db.mergeConfirmedItems now ids = .ok (d, log)) : d.Shelved := by
  unfold mergeConfirmedItems at hcall
  dsimp only at hcall
  split at hcall
  · cases hcall
  next hmissing =>
    split at hcall
    · cases hcall
    next hkinds =>
      split at hcall
      · cases hcall
      next hunsafe =>
        have hpassed :
            ¬ ((db.live ids).length < 2 ∨ (!db.safeSources (db.live ids) false) = true) :=
          fun hor => hor.elim (fun hlt => hmissing (.inr hlt)) hunsafe
        obtain ⟨hne, -⟩ := passed hpassed
        have hone : db.OneNumber (db.live ids) :=
          h.oneNumber (fun i hi => (List.mem_filter.1 hi).1) (.of_single (by omega))
        have hc := db.canonical_mem hne
        have hmerged := mergeGroupInto_shelved now hs hone hc (mem_live hc)
        generalize db.mergeDuplicates now (db.canonical (db.live ids)) (db.live ids) =
          merged at hmerged hcall
        obtain ⟨d', log'⟩ := merged
        have hd : (if log' = [] then d' else d'.markProjectionStale) = d :=
          congrArg Prod.fst (Except.ok.inj hcall)
        rw [← hd]
        exact stale_shelved hmerged log'

theorem recoverItem_places {s s' : Recovery} {m : MediaItem}
    (h : recoverItem py now s m = some s') :
    s'.db.places = s.db.places := by
  rcases recoverItem_spec h with heq | ⟨metadata, -, -, hids⟩
  · rw [heq]
  · have hretitled : Quiet s.db
        (s.db.saveMediaItem now m.id ⟨fun m => { m with title := metadata.title }, fun _ => rfl⟩) :=
      .save_item s.db now m.id _ fun _ => rfl
    exact (hretitled.trans (.of_frame hids.frame (by decide) (by decide))).places

theorem reconcileCatalog_shelved (hs : db.Shelved) {dryRun : Bool} {result : ReconcileResult}
    {d : Database}
    {log : List MergeStep} (h : db.reconcileCatalog py now dryRun = some (result, d, log)) :
    d.Shelved := by
  have hrecovered : ∀ (items : List MediaItem) (s s' : Recovery),
      items.foldlM (recoverItem py now) s = some s' →
      s'.db.places = s.db.places := by
    intro items
    induction items with
    | nil =>
      intro s s' hfold
      cases hfold
      rfl
    | cons m items ih =>
      intro s s' hfold
      rw [List.foldlM_cons] at hfold
      obtain ⟨s₁, hs₁, hrest⟩ := Option.bind_eq_some_iff.1 hfold
      exact (ih s₁ s' hrest).trans (recoverItem_places hs₁)
  have hloop : ∀ (groups : List (List Nat × Bool)) (s : ReconcileLoop),
      (∀ group ∈ groups, s.db.OneNumber group.1) →
      s.db.Shelved → (groups.foldl (reconcileGroup now) s).db.Shelved := by
    intro groups
    induction groups with
    | nil => exact fun _ _ hs => hs
    | cons group groups ih =>
      intro s hgroups hs
      have hrest := fun g hg => hgroups g (List.mem_cons_of_mem group hg)
      rw [List.foldl_cons]
      unfold reconcileGroup
      dsimp only
      split
      · exact ih _ hrest hs
      · split
        next => exact ih _ hrest hs
        next d log hgroup =>
          have hremain := (respects_numbers.log now).mergeGroup hgroup
          exact ih _ (fun g hg => (hrest g hg).later hremain)
            (mergeGroup_shelved now hs (hgroups group List.mem_cons_self) hgroup)
  unfold reconcileCatalog at h
  obtain ⟨recovery, hrecovery, hresult⟩ := Option.map_eq_some_iff.1 h
  have hs₁ : recovery.db.Shelved := hs.of_places (hrecovered _ { db := db } recovery hrecovery)
  dsimp only at hresult
  have hmerged := hloop (recovery.db.physicalGroups.map (·, true) ++
    (recovery.db.duplicateGroups.filter fun ids =>
      !recovery.db.physicalGroups.contains ids).map (·, false))
    { db := recovery.db } (fun group hgroup => ?_) hs₁
  · have hd := congrArg (fun r => r.2.1) hresult
    dsimp only at hd
    rw [← hd]
    split
    · exact hs
    · split
      exacts [hmerged.of_places (markProjectionStale_places _), hmerged]
  · rcases List.mem_append.1 hgroup with hgroup | hgroup
    · obtain ⟨ids, hids, rfl⟩ := List.mem_map.1 hgroup
      exact oneNumber_physicalGroups hs₁.layered hids
    · obtain ⟨ids, hids, rfl⟩ := List.mem_map.1 hgroup
      exact oneNumber_duplicateGroups (List.mem_filter.1 hids).1

/-- Two seasons that a call names, or that it finds by identifiers, have one number. -/
def ReconcileCall.NumbersAgree (db : Database) : ReconcileCall → Prop
  | matching kind identifiers _ => db.SeasonsAgree (db.mediaIdsForKind kind identifiers)
  | confirmed ids => db.SeasonsAgree ids
  | catalog _ | physical _ => True

instance (db : Database) : ∀ call : ReconcileCall, Decidable (call.NumbersAgree db)
  | .matching kind identifiers _ =>
    inferInstanceAs (Decidable (db.SeasonsAgree (db.mediaIdsForKind kind identifiers)))
  | .confirmed ids => inferInstanceAs (Decidable (db.SeasonsAgree ids))
  | .catalog _ | .physical _ => inferInstanceAs (Decidable True)

theorem ReconcileCall.apply_shelved (py : PyLib) (now : Time) (hs : db.Shelved)
    (call : ReconcileCall) (h : call.NumbersAgree db) : (call.apply py now db).Shelved := by
  cases call with
  | catalog dryRun =>
    show (((db.reconcileCatalog py now dryRun).map (·.2.1)).getD db).Shelved
    rcases hcall : db.reconcileCatalog py now dryRun with - | ⟨result, d, log⟩
    · exact hs
    · exact reconcileCatalog_shelved hs hcall
  | matching kind identifiers preferred =>
    exact reconcileMatchingItems_shelved now kind identifiers preferred hs h
  | physical item => exact reconcilePhysicalItem_shelved now item hs
  | confirmed ids =>
    dsimp only [apply]
    rcases hcall : db.mergeConfirmedItems now ids with - | ⟨d, log⟩
    · exact hs
    · exact mergeConfirmedItems_shelved now hs h hcall

end Database

/-- Every episode is below a season of its number, and no two seasons below one show have one
number. -/
structure Database.SeasonCoordinates (db : Database) : Prop where
  episodes : ∀ m ∈ db.mediaItems.rows, m.kind = .episode → ∃ season ∈ db.mediaItems.rows,
    m.parentId = some season.id ∧ season.kind = .season ∧ season.seasonNumber = m.seasonNumber
  seasons : ∀ a ∈ db.mediaItems.rows, ∀ b ∈ db.mediaItems.rows, a.kind = .season →
    b.kind = .season →
    a.parentId = b.parentId → a.seasonNumber = b.seasonNumber → a = b

theorem Database.Shelved.seasonCoordinates {db : Database} (h : db.Shelved) :
    db.SeasonCoordinates where
  episodes m hm hk := by
    have hplace := places_of_get? (Table.get?_of_mem hm)
    have hfits := h.layered m.id m (Table.get?_of_mem hm)
    rcases hp : m.parentId with _ | p
    · rw [hk, hp] at hfits
      cases hfits
    · obtain ⟨c, hc, hck⟩ := h.parent hplace hp
      obtain ⟨season, hseason, rfl⟩ := Option.map_eq_some_iff.1 hc
      rw [show m.place.kind = .episode from hk] at hck
      refine ⟨season, Table.mem_of_get? hseason, ?_, (Option.some_inj.1 hck).symm, ?_⟩
      · rw [Table.key_of_get? hseason]
      · exact h.numbered.episodes m.id p m.place season.place hplace hk hp hc
  seasons a ha b hb hak hbk hp hn := by
    have hsame : b.place = a.place := by
      unfold MediaItem.place
      rw [hak, hbk, hp, hn]
    have hplace := places_of_get? (Table.get?_of_mem hb)
    rw [hsame] at hplace
    exact db.mediaItems.eq_of_key_eq ha hb
      (h.numbered.once _ _ _ (places_of_get? (Table.get?_of_mem ha)) hplace hak)

namespace CatalogCall

/-- What a call is given agrees with the numbers of the seasons. -/
def NumbersAgree (db : Database) : CatalogCall → Prop
  | persist service _ item _ => ListingAgrees service item.toMediaFields db
  | reconcile _ _ call => call.NumbersAgree db

theorem apply_shelved {db : Database} (hs : db.Shelved) (call : CatalogCall)
    (h : call.NumbersAgree db) :
    (call.apply db).Shelved := by
  rcases call with ⟨service, cache, item, t⟩ | ⟨py, now, call⟩
  · unfold apply
    dsimp only
    split
    next result s hrun =>
      exact service.persistMedia_shelved item t hs h ⟨db, cache⟩ result s rfl hrun
    next => exact hs
  · exact call.apply_shelved py now hs h

end CatalogCall

/-- The coordinates hold in every state of a run of calls that agree with the numbers. -/
theorem seasons_stay_numbered {db : Database} {calls : List CatalogCall} (hs : db.Shelved)
    (h : Along CatalogCall.apply CatalogCall.NumbersAgree db calls) :
    ∀ pre, pre <+: calls → (pre.foldl CatalogCall.apply db).SeasonCoordinates := by
  rintro pre ⟨suf, rfl⟩
  have hpre := (Along.append.1 h).1
  exact (hpre.invariant (I := Database.Shelved)
    (fun _ call hs hok => CatalogCall.apply_shelved hs call hok) hs).seasonCoordinates

theorem shelved_of_no_items {db : Database} (hitems : db.mediaItems = .empty) : db.Shelved where
  layered i m hm := by
    rw [hitems, Table.get?_empty] at hm
    cases hm
  numbered := by
    have hplaces : db.places = fun _ => none := by
      funext i
      unfold Database.places
      rw [hitems, Table.get?_empty]
      rfl
    rw [hplaces]
    exact ⟨fun _ _ _ _ h => (by cases h), fun _ _ _ h => (by cases h)⟩

section Example

instance (db : Database) : Decidable db.SeasonCoordinates :=
  decidable_of_iff _ ⟨fun h => Database.SeasonCoordinates.mk h.1 h.2, fun h =>
    And.intro h.episodes h.seasons⟩

instance (service : MediaPersistenceService) (item : MediaFields) (db : Database) :
    Decidable (SeasonAgrees service item db) :=
  inferInstanceAs (Decidable (∀ e ∈ item.episode?, ∀ i ∈ db.targetOf _ _, ∀ a ∈ db.places i, _ → _))

instance (service : MediaPersistenceService) (item : MediaFields) (db : Database) :
    Decidable (ListingAgrees service item db) :=
  decidable_of_iff _ ⟨fun h => ListingAgrees.mk h.1 h.2.1 h.2.2, fun h =>
    And.intro h.leaf (And.intro h.reference h.season)⟩

instance (db : Database) : ∀ call : CatalogCall, Decidable (call.NumbersAgree db)
  | .persist service _ item _ =>
    inferInstanceAs (Decidable (ListingAgrees service item.toMediaFields db))
  | .reconcile _ _ call => inferInstanceAs (Decidable (call.NumbersAgree db))

def onePlex : Database :=
  { Database.empty with sources := .insert .empty { id := 1, connectorType := .plex } }

/-- An episode of the season that the server knows as `x`. -/
def seasonEpisode (id : String) (season number : Nat) : ExternalMediaItem where
  externalId := id
  libraryExternalId := "1"
  kind := .episode
  title := id
  showExternalId := some "s"
  showTitle := some "b"
  seasonExternalId := some "x"
  seasonNumber := some season
  episodeNumber := some number
  complete := by simp [MediaFields.Complete]

/-- Two episodes of one season, and the catalog reconciled. -/
def oneSeason : List CatalogCall :=
  [.persist (plainService 1) [] (seasonEpisode "e" 1 1) 0,
    .persist (plainService 1) [] (seasonEpisode "f" 1 2) 0,
    .reconcile .plain 0 (.catalog false)]

theorem seasons_stay_numbered_oneSeason :
    (oneSeason.foldl CatalogCall.apply onePlex).mediaItems.rows.map (·.kind) =
      [.show, .season, .episode, .episode] ∧
      ∀ pre, pre <+: oneSeason → (pre.foldl CatalogCall.apply onePlex).SeasonCoordinates :=
  ⟨by decide +kernel, seasons_stay_numbered (shelved_of_no_items rfl) (by decide +kernel)⟩

/-- The server calls the season the second before it lists its next episode. -/
theorem renumbered_season : ¬ (([.persist (plainService 1) [] (seasonEpisode "e" 1 1) 0,
    .persist (plainService 1) [] (seasonEpisode "f" 2 2) 0] : List CatalogCall).foldl
      CatalogCall.apply onePlex).SeasonCoordinates := by
  decide +kernel

end Example

end Euvieouvi
