import Euvieouvi.Reconcile.Calls

/-!
# The catalog is a forest of layers

Whatever is persisted and merged, and in whatever order, the catalog that began empty stays a
forest: episodes below seasons below shows, tracks below albums below artists, and movies alone.
-/

namespace Euvieouvi

/-- A call that writes to the catalog. `persist_media` may find any keys in the caches. -/
inductive CatalogCall
  | persist (service : MediaPersistenceService) (cache : List CacheKey) (item : ExternalMediaItem)
    (observedAt : Time)
  | reconcile (py : PyLib) (now : Time) (call : Database.ReconcileCall)

namespace CatalogCall

/-- The database after a call; one that raises is rolled back. -/
def apply (db : Database) : CatalogCall → Database
  | persist service cache item observedAt =>
    match (service.persistMedia item observedAt).run ⟨db, cache⟩ with
    | (.ok _, s) => s.store
    | (.error _, _) => db
  | reconcile py now call => call.apply py now db

/-- No source uses an id for a leaf and for a container. -/
structure IdsApart (calls : List CatalogCall) : Prop where
  leaves : ∀ service cache item t, persist service cache item t ∈ calls →
    item.kind.isContainer = false
  distinct : ∀ service cache item t service' cache' item' t', persist service cache item t ∈ calls →
    persist service' cache' item' t' ∈ calls → service.sourceId = service'.sourceId →
      item.externalId ∉ item'.containerIds

/-- The source shows a leaf under this id in one of the calls. -/
def isLeaf (calls : List CatalogCall) (source : Nat) (externalId : String) : Bool :=
  calls.any fun call => match call with
    | persist service _ item _ => service.sourceId == source && item.externalId == externalId
    | reconcile _ _ _ => false

theorem IdsApart.leaf {calls : List CatalogCall} (h : IdsApart calls)
    {service : MediaPersistenceService}
    {cache : List CacheKey} {item : ExternalMediaItem} {t : Time}
    (hmem : persist service cache item t ∈ calls) :
    item.Leaf (isLeaf calls) service.sourceId where
  kind := h.leaves service cache item t hmem
  id := List.any_eq_true.2 ⟨_, hmem, by simp⟩
  containers externalId hid := by
    unfold isLeaf
    rw [List.any_eq_false]
    rintro (⟨service', cache', item', t'⟩ | ⟨_, _, _⟩) hmem'
    · rw [Bool.and_eq_true, beq_iff_eq, beq_iff_eq]
      rintro ⟨hsource, rfl⟩
      exact h.distinct service' cache' item' t' service cache item t hmem' hmem hsource hid
    · exact Bool.false_ne_true

theorem apply_forest {leaf : Nat → String → Bool} {db : Database} {call : CatalogCall}
    (hf : db.Forest leaf)
    (hcall : ∀ service cache item t, call = persist service cache item t →
      item.Leaf leaf service.sourceId) :
    (call.apply db).Forest leaf := by
  rcases call with ⟨service, cache, item, t⟩ | ⟨py, now, call⟩
  · have hleaf := hcall service cache item t rfl
    unfold apply
    dsimp only
    split
    next result s hrun =>
      exact (service.persistMedia_ensures item hleaf.kind t db ⟨db, cache⟩ result s rfl hrun).forest
        hleaf hf
    next => exact hf
  · have hsteps := call.steps (L := True) (G := False) py now hf.layered.rooted
      (fun _ => hf.layered) fun h => h.elim
    exact hsteps.forest trivial hf

end CatalogCall

/-- The hierarchy of the media items. -/
structure Database.MediaForest (db : Database) : Prop where
  episodes : ∀ i, db.identityRows.kindOf i = some .episode →
    ∃ p, db.identityRows.parentOf i = some p ∧ db.identityRows.kindOf p = some .season
  seasons : ∀ i, db.identityRows.kindOf i = some .season →
    ∃ p, db.identityRows.parentOf i = some p ∧ db.identityRows.kindOf p = some .show
  tracks : ∀ i, db.identityRows.kindOf i = some .track →
    ∃ p, db.identityRows.parentOf i = some p ∧ db.identityRows.kindOf p = some .album
  albums : ∀ i, db.identityRows.kindOf i = some .album →
    ∃ p, db.identityRows.parentOf i = some p ∧ db.identityRows.kindOf p = some .artist
  roots : ∀ i k, db.identityRows.kindOf i = some k → k = .movie ∨ k = .show ∨ k = .artist →
    db.identityRows.parentOf i = none
  parents : ∀ i p, db.identityRows.parentOf i = some p → db.mediaItems.contains p = true
  ends : Shallow db.identityRows.parentOf 3

namespace Database.Layered
variable {db : Database}

theorem parent_of_kind (h : db.Layered) {i : Nat} {k kp : MediaKind}
    (hk : db.identityRows.kindOf i = some k)
    (hkp : k.parentKind = some kp) : ∃ p, db.identityRows.parentOf i = some p ∧
    db.identityRows.kindOf p = some kp := by
  obtain ⟨m, hm, rfl⟩ := Option.map_eq_some_iff.1 hk
  have hfits := h i m hm
  rcases hp : m.parentId with _ | p
  · rw [hp, parentFits_none, hkp] at hfits
    cases hfits
  · rw [hp] at hfits
    obtain ⟨kp', hkp', hkind⟩ := parentFits_some.1 hfits
    rw [hkp, Option.some_inj] at hkp'
    exact ⟨p, Option.bind_eq_some_iff.2 ⟨m, hm, hp⟩, hkp' ▸ hkind⟩

theorem mediaForest (h : db.Layered) : db.MediaForest where
  episodes _ hk := h.parent_of_kind hk rfl
  seasons _ hk := h.parent_of_kind hk rfl
  tracks _ hk := h.parent_of_kind hk rfl
  albums _ hk := h.parent_of_kind hk rfl
  roots i k hk hroot := by
    by_contra hp
    obtain ⟨p, hp⟩ := Option.ne_none_iff_exists'.1 hp
    obtain ⟨k', kp, hk', hkp, -⟩ := h.parentOf hp
    obtain rfl : k = k' := Option.some_inj.1 (hk.symm.trans hk')
    rcases hroot with rfl | rfl | rfl <;> cases hkp
  parents i p hp := by
    obtain ⟨_, _, _, _, hkind⟩ := h.parentOf hp
    exact IdentityRows.contains_of_kindOf hkind
  ends := h.shallow

end Database.Layered

/-- Over every sequence of calls that starts from an empty catalog, the hierarchy stays a forest of
layers. -/
theorem catalog_stays_forest {db : Database} {calls : List CatalogCall}
    (hitems : db.mediaItems = .empty)
    (hrefs : db.sourceMediaRefs = .empty) (hids : CatalogCall.IdsApart calls) :
    (calls.foldl CatalogCall.apply db).MediaForest := by
  have hempty : db.Forest (CatalogCall.isLeaf calls) := by
    refine ⟨fun i m hm => ?_, fun r hr => ?_⟩
    · rw [hitems, Table.get?_empty] at hm
      cases hm
    · rw [hrefs, Table.rows_empty] at hr
      cases hr
  have halong : Along CatalogCall.apply (fun _ call => call ∈ calls) db calls :=
    Along.iff_forall_prefix.2 fun pre call hpre =>
      hpre.subset (List.mem_append_right pre List.mem_cons_self)
  have hforest := halong.invariant (I := Database.Forest (CatalogCall.isLeaf calls))
    (fun db call hf hmem => ?_) hempty
  · exact hforest.layered.mediaForest
  · exact CatalogCall.apply_forest hf fun service cache item t heq => hids.leaf (heq ▸ hmem)

section Example

def firstEpisode (showId : String) : ExternalMediaItem where
  externalId := "e"
  libraryExternalId := "1"
  kind := .episode
  title := "a"
  showExternalId := some showId
  showTitle := some "b"
  showIdentifiers := [⟨"tvdb", "9"⟩]
  seasonNumber := some 1
  episodeNumber := some 1
  complete := by simp [MediaFields.Complete]

/-- One episode on two servers, and the catalog reconciled. -/
def twoServers : List CatalogCall :=
  [.persist (plainService 1) [] (firstEpisode "s") 0,
    .persist (plainService 2) [] (firstEpisode "t") 0,
    .reconcile .plain 0 (.catalog false)]

theorem catalog_stays_forest_twoServers :
    (twoServers.foldl CatalogCall.apply .empty).mediaItems.rows.map (·.kind) =
      [.show, .season, .episode] ∧
      (twoServers.foldl CatalogCall.apply .empty).MediaForest := by
  refine ⟨by decide +kernel, catalog_stays_forest rfl rfl ⟨fun service cache item t hmem => ?_, ?_⟩⟩
  · simp only [twoServers, List.mem_cons, CatalogCall.persist.injEq, reduceCtorEq, List.not_mem_nil,
      or_false] at hmem
    rcases hmem with ⟨-, -, rfl, -⟩ | ⟨-, -, rfl, -⟩ <;> rfl
  · intro service cache item t service' cache' item' t' hmem hmem' hsource
    simp only [twoServers, List.mem_cons, CatalogCall.persist.injEq, reduceCtorEq, List.not_mem_nil,
      or_false] at hmem hmem'
    rcases hmem with ⟨rfl, -, rfl, -⟩ | ⟨rfl, -, rfl, -⟩ <;>
      rcases hmem' with ⟨rfl, -, rfl, -⟩ | ⟨rfl, -, rfl, -⟩ <;>
      decide +kernel

end Example

end Euvieouvi
