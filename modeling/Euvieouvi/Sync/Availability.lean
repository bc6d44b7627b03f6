import Euvieouvi.Persist.Failures
import Euvieouvi.Persist.References

/-!
# What a full scan says is available

`_sync_library` (`sync/orchestrator.py`) as a full catalog scan, for one library after the other:
the pages of the catalog, the sweep of the references that were not seen, the pages of the history
and the states of the containers. A reference stays with the library in which it was first seen, so
an item that moved can be swept after the scan of the library it moved to.
-/

namespace Euvieouvi

open Database Program

/-- `_external_ids_for_item`. -/
def ExternalMediaItem.externalIds (item : ExternalMediaItem) : List String :=
  [item.externalId] ++ item.showExternalId.toList ++
    (item.episode?.map item.toMediaFields.seasonReferenceId).toList ++
    if item.kind = .track then item.artistExternalId.toList ++ item.albumExternalId.toList else []

theorem MediaFields.track?_ids {item : MediaFields} {t : TrackFields} (h : item.track? = some t) :
    item.kind = .track ∧ item.artistExternalId = some t.artistExternalId ∧
    item.albumExternalId = some t.albumExternalId := by
  refine ⟨kind_of_track? h, ?_⟩
  unfold track? at h
  rw [if_pos (kind_of_track? h)] at h
  simp only [Option.bind_eq_bind, Option.bind_eq_some_iff] at h
  obtain ⟨a, ha, b, hb, c, hc, d, hd, h⟩ := h
  cases h
  exact ⟨ha, hc⟩

theorem MediaFields.episode?_ids {item : MediaFields} {e : EpisodeFields}
    (h : item.episode? = some e) :
    item.showExternalId = some e.showExternalId ∧ item.seasonNumber = some e.seasonNumber := by
  unfold episode? at h
  rw [if_pos (kind_of_episode? h)] at h
  simp only [Option.bind_eq_bind, Option.bind_eq_some_iff] at h
  obtain ⟨a, ha, b, hb, c, hc, d, hd, h⟩ := h
  cases h
  exact ⟨ha, hc⟩

/-- A leaf that the server lists: mapped to an item, or a page issue with the ids of the leaf and of
what is above it. -/
inductive ServerLeaf
  | mapped (x : PagedItem)
  | unmapped (ids : List String)

namespace ServerLeaf

def item? : ServerLeaf → Option PagedItem
  | mapped x => some x
  | unmapped _ => none

def ids : ServerLeaf → List String
  | mapped x => x.item.externalIds
  | unmapped ids => ids

end ServerLeaf

/-- A page, and what the service that persists it reads at its start. -/
structure ScanPage (α : Type) where
  now : Time
  pathRoots : List PathRoot
  entries : List α

structure LibraryScan where
  libraryId : Nat
  media : List (ScanPage ServerLeaf)
  /-- When the sweep sets a reference unavailable, and when it is flushed. -/
  sweptAt : Nat → Time
  flushedAt : Time
  history : List (ScanPage ExternalWatchEvent)
  rebuiltAt : Time

namespace LibraryScan
variable (l : LibraryScan)

def leaves : List ServerLeaf := l.media.flatMap (·.entries)

/-- `seen_external_ids` after the last page. -/
def seen : List String := (l.leaves.filterMap (·.item?)).flatMap (·.item.externalIds)

/-- The sweep of this library sets a reference of the library unavailable. -/
def Sweeps (libraryId : Nat) (externalId : String) : Prop :=
  l.libraryId = libraryId ∧ externalId ∉ l.seen

def Lists (externalId : String) : Prop := ∃ leaf ∈ l.leaves, externalId ∈ leaf.ids

end LibraryScan

/-- `_mark_missing_unavailable`. -/
def Database.markMissingUnavailable (l : LibraryScan) (db : Database) : Database :=
  db.updateSourceMediaRefs (fun r => r.libraryId == l.libraryId &&
    !(decide (r.externalId ∈ l.seen)) && r.available)
    ⟨fun r => { r with
      available := false, unavailableSince := some (l.sweptAt r.id), updatedAt := l.flushedAt },
      fun _ => rfl⟩

/-- The caches of a service end with its page; `_reconciled_catalog_identities` outlives it. -/
def CacheKey.outlivesService : CacheKey → Bool
  | catalogIdentity .. => true
  | _ => false

def freshService (s : PersistSession) : PersistSession :=
  { s with cache := s.cache.filter (·.outlivesService) }

namespace MediaPersistenceService
variable (service : MediaPersistenceService) (l : LibraryScan)

/-- The service of a page. -/
def forPage {α : Type} (page : ScanPage α) : MediaPersistenceService :=
  { service with libraryId := l.libraryId, pathRoots := page.pathRoots, now := page.now }

def syncMediaPage (s : PersistSession) (page : ScanPage ServerLeaf) : PersistSession :=
  (((service.forPage l page).persistMediaPage (page.entries.filterMap (·.item?))).run
    (freshService s)).2

/-- `_persist_history_page`. -/
def persistHistoryPage (events : List ExternalWatchEvent) : Persist Unit :=
  events.forM fun event => do
    let _ ← Program.attempt (service.persistEvent event .synchronization)
    return ()

def syncHistoryPage (s : PersistSession) (page : ScanPage ExternalWatchEvent) : PersistSession :=
  (((service.forPage l page).persistHistoryPage page.entries).run (freshService s)).2

/-- The catalog of a library, before the sweep. -/
def syncMedia (s : PersistSession) : PersistSession := l.media.foldl (service.syncMediaPage l) s

/-- `_sync_library` as a full catalog scan that is not interrupted. -/
def syncLibrary (s : PersistSession) : PersistSession :=
  let media := service.syncMedia l s
  let swept : PersistSession := { media with store := media.store.markMissingUnavailable l }
  let history := l.history.foldl (service.syncHistoryPage l) swept
  { history with
    store := { service with
    libraryId := l.libraryId }.rebuildContainerWatchStates l.rebuiltAt history.store }

/-- `_execute`. -/
def fullScan (libraries : List LibraryScan) (s : PersistSession) : PersistSession :=
  libraries.foldl (fun s l => service.syncLibrary l s) s

/-- The references that an item makes available: none when it is not persisted. -/
def refreshedByItem (x : PagedItem) (s : PersistSession) : List String :=
  match ((service.persistMediaWithRepair x).run s).1 with
  | .ok outcome => service.outcomeIds x.item.toMediaFields s.store outcome
  | .error _ => []

def refreshedByItems : List PagedItem → PersistSession → List String
  | [], _ => []
  | x :: xs, s =>
    service.refreshedByItem x s ++ refreshedByItems xs ((service.persistMediaWithRepair x).run s).2

def refreshedByPages : List (ScanPage ServerLeaf) → PersistSession → List String
  | [], _ => []
  | page :: pages, s =>
    (service.forPage l page).refreshedByItems (page.entries.filterMap (·.item?)) (freshService s) ++
      refreshedByPages pages (service.syncMediaPage l s page)

/-- The references that the catalog of a library makes available, from this session on. -/
def refreshed (s : PersistSession) : List String := service.refreshedByPages l l.media s

end MediaPersistenceService

/-! ### One library -/

namespace Touches
variable {service : MediaPersistenceService} {ids : List String} {db db' : Database}

theorem ofService {service' : MediaPersistenceService} (h : Touches service ids db db')
    (hsource : service.sourceId = service'.sourceId)
    (hlib : service.libraryId = service'.libraryId) : Touches service' ids db db' where
  view := by rw [← hsource, ← hlib]; exact h.view
  keeps := by rw [← hsource]; exact h.keeps
  others := by rw [← hsource]; exact h.others

end Touches

namespace MediaPersistenceService
variable (service : MediaPersistenceService) (l : LibraryScan)

theorem persistMediaWithRepair_refreshes (x : PagedItem) (s : PersistSession) :
    Touches service (service.refreshedByItem x s) s.store
      ((service.persistMediaWithRepair x).run s).2.store := by
  obtain ⟨outcome, s', hr, -⟩ := service.persistMediaWithRepair_returns x s
  have hrun : (service.persistMediaWithRepair x).run s = (.ok outcome, s') := hr
  unfold refreshedByItem
  rw [hrun]
  exact service.persistMediaWithRepair_touches x s.store s outcome s' rfl hr

theorem runEach_refreshes (items : List PagedItem) (s : PersistSession) :
    Touches service (service.refreshedByItems items s) s.store
      (runEach service.persistMediaWithRepair items s).store := by
  induction items generalizing s with
  | nil => exact .refl _
  | cons x items ih => exact (service.persistMediaWithRepair_refreshes x s).trans (ih _)

theorem syncMediaPage_refreshes (s : PersistSession) (page : ScanPage ServerLeaf) :
    Touches { service with libraryId := l.libraryId }
      ((service.forPage l page).refreshedByItems (page.entries.filterMap (·.item?))
        (freshService s)) s.store
      (service.syncMediaPage l s page).store := by
  unfold syncMediaPage
  rw [run_persistMediaPage]
  exact ((service.forPage l page).runEach_refreshes _ (freshService s)).ofService rfl rfl

theorem refreshedByPages_touches (pages : List (ScanPage ServerLeaf)) (s : PersistSession) :
    Touches { service with libraryId := l.libraryId } (service.refreshedByPages l pages s) s.store
      (pages.foldl (service.syncMediaPage l) s).store := by
  induction pages generalizing s with
  | nil => exact .refl _
  | cons page pages ih => exact (service.syncMediaPage_refreshes l s page).trans (ih _)

theorem persistHistoryPage_touches (events : List ExternalWatchEvent) (s : PersistSession) :
    ∃ s', (service.persistHistoryPage events).Returns s () s' ∧
    Touches service [] s.store s'.store := by
  induction events generalizing s with
  | nil => exact ⟨s, rfl, .refl _⟩
  | cons event events ih =>
    have hone : ∃ u, (do
      let _ ← Program.attempt (service.persistEvent event .synchronization);
        return () : Persist Unit).Returns
        s () u ∧ Touches service [] s.store u.store := by
      have hshows : (Program.attempt (service.persistEvent event .synchronization)).Ensures
          (· = s.store)
          fun _ => Touches service [] s.store :=
        .attempt (service.persistEvent_shows event .synchronization s.store) fun _ => .refl _
      rcases Program.returns_attempt (service.persistEvent event .synchronization) s with ⟨inserted,
        u, h⟩ | ⟨error, u, h, -⟩
      · exact ⟨u, Program.returns_bind.2 ⟨_, u, h, rfl⟩, hshows s _ u rfl h⟩
      · exact ⟨u, Program.returns_bind.2 ⟨_, u, h, rfl⟩, hshows s _ u rfl h⟩
    obtain ⟨u, hu, hutouches⟩ := hone
    obtain ⟨s', hs', htouches⟩ := ih u
    exact ⟨s', Program.returns_bind.2 ⟨(), u, hu, hs'⟩, hutouches.trans htouches⟩

theorem syncHistoryPages_touches (pages : List (ScanPage ExternalWatchEvent)) (s : PersistSession) :
    Touches { service with libraryId := l.libraryId }
    [] s.store (pages.foldl (service.syncHistoryPage l) s).store := by
  induction pages generalizing s with
  | nil => exact .refl _
  | cons page pages ih =>
    obtain ⟨s', hr, htouches⟩ :=
      (service.forPage l page).persistHistoryPage_touches page.entries (freshService s)
    have hpage : service.syncHistoryPage l s page = s' := congrArg Prod.snd hr
    rw [List.foldl_cons, hpage]
    exact (htouches.ofService rfl rfl : Touches { service with libraryId := l.libraryId }
      [] s.store s'.store).trans (ih s')

theorem rebuildContainerWatchStates_frame (observedAt : Time) (db : Database) :
    Frame [.watchStates, .dirtyItems] db (service.rebuildContainerWatchStates observedAt db) := by
  unfold rebuildContainerWatchStates
  dsimp only
  generalize (_ : List (Nat × List PlayedChild)) ++ _ = groups
  induction groups generalizing db with
  | nil => exact .refl db
  | cons group groups ih => exact (service.saveState_frame _ _ _ db).trans (ih _)

end MediaPersistenceService

theorem Database.refView_markMissingUnavailable (l : LibraryScan) (db : Database) (source : Nat)
    (e : String) :
    (db.markMissingUnavailable l).refView source e =
      (db.refView source e).map fun v =>
        (v.1, v.2 && !(decide (l.libraryId = v.1) && !(decide (e ∈ l.seen)))) := by
  unfold refView markMissingUnavailable
  rw [byExternalIdentity_update _ _ fun _ => ⟨rfl, rfl⟩]
  cases hr : db.byExternalIdentity source e with
  | none => rfl
  | some r =>
    obtain rfl := (mem_of_byExternalIdentity hr).2.2
    have hlib : (r.libraryId == l.libraryId) = decide (l.libraryId = r.libraryId) := by
      rw [Bool.eq_iff_iff, beq_iff_eq, decide_eq_true_iff]
      exact eq_comm
    rw [Option.map_some, Option.map_some, hlib]
    refine congrArg some (?_ : _ = (r.libraryId, r.available && _))
    generalize decide (l.libraryId = r.libraryId) = ours
    generalize decide (r.externalId ∈ l.seen) = seen
    cases hav : r.available <;> cases ours <;> cases seen <;> simp [hav]

namespace MediaPersistenceService
variable (service : MediaPersistenceService) (l : LibraryScan)

/-- A reference after the scan of a library: refreshed, then swept. -/
theorem refView_syncLibrary (s : PersistSession) (e : String) :
    (service.syncLibrary l s).store.refView service.sourceId e =
      (if e ∈ service.refreshed l s then
          some (((s.store.refView service.sourceId e).map Prod.fst).getD l.libraryId, true)
        else s.store.refView service.sourceId e).map
          fun v => (v.1, v.2 && !(decide (l.libraryId = v.1) && !(decide (e ∈ l.seen)))) := by
  have hmedia := (service.refreshedByPages_touches l l.media s).view e
  have hframe :=
    { service with libraryId := l.libraryId }.rebuildContainerWatchStates_frame l.rebuiltAt
    (l.history.foldl (service.syncHistoryPage l) { service.syncMedia l s with
      store := (service.syncMedia l s).store.markMissingUnavailable l }).store
  have hhistory := (service.syncHistoryPages_touches l l.history
    { service.syncMedia l s with
      store := (service.syncMedia l s).store.markMissingUnavailable l }).view e
  have htouches : Touches { service with libraryId := l.libraryId } [] _ _ :=
    .of_frame hframe (by decide)
  have hrebuilt := htouches.view e
  rw [if_neg List.not_mem_nil] at hhistory hrebuilt
  refine hrebuilt.trans (hhistory.trans ?_)
  rw [refView_markMissingUnavailable]
  exact congrArg (Option.map _) hmedia

theorem shownIds_subset (item : ExternalMediaItem) (db : Database) (source : Nat) {e : String}
    (h : e ∈ item.shownIds db source) :
    e ∈ item.externalIds := by
  unfold MediaFields.shownIds MediaFields.shownContainers at h
  unfold ExternalMediaItem.externalIds
  simp only [List.mem_append, List.mem_singleton, Option.mem_toList]
  rcases List.mem_append.1 h with h | h
  · split at h
    next t ht =>
      obtain ⟨hk, hartist, halbum⟩ := MediaFields.track?_ids ht
      rw [if_pos hk, List.mem_append, Option.mem_toList, Option.mem_toList, hartist, halbum]
      split at h
      · obtain rfl := List.mem_singleton.1 h
        exact .inr (.inr rfl)
      · rcases List.mem_cons.1 h with rfl | h
        · exact .inr (.inl rfl)
        · obtain rfl := List.mem_singleton.1 h
          exact .inr (.inr rfl)
    next t' _ he =>
      rw [he, (MediaFields.episode?_ids he).1]
      rcases List.mem_cons.1 h with rfl | h
      · exact .inl (.inl (.inr rfl))
      · obtain rfl := List.mem_singleton.1 h
        exact .inl (.inr rfl)
    next => cases h
  · exact .inl (.inl (.inl (List.mem_singleton.1 h)))

theorem refreshedByItems_subset (items : List PagedItem) (s : PersistSession) {e : String}
    (h : e ∈ service.refreshedByItems items s) :
    ∃ x ∈ items, e ∈ x.item.externalIds := by
  induction items generalizing s with
  | nil => cases h
  | cons x items ih =>
    rcases List.mem_append.1 h with h | h
    · unfold refreshedByItem at h
      split at h
      next outcome _ =>
        unfold outcomeIds at h
        split at h
        · exact ⟨x, List.mem_cons_self, shownIds_subset _ _ _ h⟩
        · cases h
      next => cases h
    · obtain ⟨y, hy, he⟩ := ih _ h
      exact ⟨y, List.mem_cons_of_mem x hy, he⟩

/-- What the catalog of a library makes available was seen. -/
theorem refreshed_subset (s : PersistSession) {e : String} (h : e ∈ service.refreshed l s) :
    e ∈ l.seen := by
  have hpages : ∀ pages : List (ScanPage ServerLeaf), ∀ s, e ∈ service.refreshedByPages l pages s →
      ∃ x ∈ (pages.flatMap (·.entries)).filterMap (·.item?), e ∈ x.item.externalIds := by
    intro pages
    induction pages with
    | nil => rintro s ⟨⟩
    | cons page pages ih =>
      intro s h
      rw [List.flatMap_cons, List.filterMap_append]
      rcases List.mem_append.1 h with h | h
      · obtain ⟨x, hx, he⟩ := (service.forPage l page).refreshedByItems_subset _ _ h
        exact ⟨x, List.mem_append_left _ hx, he⟩
      · obtain ⟨x, hx, he⟩ := ih _ h
        exact ⟨x, List.mem_append_right _ hx, he⟩
  obtain ⟨x, hx, he⟩ := hpages l.media s h
  exact List.mem_flatMap.2 ⟨x, hx, he⟩

end MediaPersistenceService

theorem LibraryScan.Lists.of_seen {l : LibraryScan} {e : String} (h : e ∈ l.seen) : l.Lists e := by
  obtain ⟨x, hx, he⟩ := List.mem_flatMap.1 h
  obtain ⟨leaf, hleaf, hitem⟩ := List.mem_filterMap.1 hx
  refine ⟨leaf, hleaf, ?_⟩
  cases leaf with
  | mapped y =>
    obtain rfl : y = x := Option.some_inj.1 hitem
    exact he
  | unmapped ids => cases hitem

/-! ### The libraries -/

namespace MediaPersistenceService
variable (service : MediaPersistenceService)

/-- The reference is refreshed by the scan of some library, and neither this scan nor a later one
sweeps it. -/
def Refreshed (libraries : List LibraryScan) (s : PersistSession) (libraryId : Nat)
    (externalId : String) : Prop :=
  ∃ before l after, libraries = before ++ l :: after ∧
    externalId ∈ service.refreshed l (service.fullScan before s) ∧
    ∀ k ∈ l :: after, ¬ k.Sweeps libraryId externalId

theorem refreshed_cons {l : LibraryScan} {libraries : List LibraryScan} {s : PersistSession}
    {h : Nat} {e : String} :
    service.Refreshed (l :: libraries) s h e ↔
    (e ∈ service.refreshed l s ∧ ∀ k ∈ l :: libraries, ¬ k.Sweeps h e) ∨
      service.Refreshed libraries (service.syncLibrary l s) h e := by
  constructor
  · rintro ⟨before, k, after, heq, he, hkeep⟩
    rcases before with _ | ⟨m, before⟩
    · obtain ⟨rfl, rfl⟩ := List.cons.inj heq
      exact .inl ⟨he, hkeep⟩
    · obtain ⟨rfl, rfl⟩ := List.cons.inj heq
      exact .inr ⟨before, k, after, rfl, he, hkeep⟩
  · rintro (⟨he, hkeep⟩ | ⟨before, k, after, rfl, he, hkeep⟩)
    · exact ⟨[], l, libraries, rfl, he, hkeep⟩
    · exact ⟨l :: before, k, after, rfl, he, hkeep⟩

/-- A reference that is there keeps its library, and the last that happens to it decides. -/
theorem refView_fullScan_of_some (libraries : List LibraryScan) {s : PersistSession} {h : Nat}
    {a : Bool} {e : String} (hview : s.store.refView service.sourceId e = some (h, a)) :
    ∃ a', (service.fullScan libraries s).store.refView service.sourceId e = some (h, a') ∧
      (a' = true ↔ service.Refreshed libraries s h e ∨ a = true ∧ ∀ k ∈ libraries,
        ¬ k.Sweeps h e) := by
  induction libraries generalizing s a with
  | nil =>
    refine ⟨a, hview, fun ha => .inr ⟨ha, by rintro k ⟨⟩⟩, ?_⟩
    rintro (⟨before, k, after, heq, -⟩ | ⟨ha, -⟩)
    · cases before <;> cases heq
    · exact ha
  | cons l libraries ih =>
    have hnext : (service.syncLibrary l s).store.refView service.sourceId e =
        some (h, (decide (e ∈ service.refreshed l s) || a) &&
          !(decide (l.libraryId = h) && !(decide (e ∈ l.seen)))) := by
      rw [refView_syncLibrary, hview]
      by_cases he : e ∈ service.refreshed l s <;> simp [he]
    obtain ⟨a', hfinal, hiff⟩ := ih hnext
    refine ⟨a', hfinal, hiff.trans ?_⟩
    have hsweeps : (decide (l.libraryId = h) && !(decide (e ∈ l.seen))) = true ↔ l.Sweeps h e := by
      simp [LibraryScan.Sweeps]
    rw [refreshed_cons, List.forall_mem_cons, Bool.and_eq_true, Bool.or_eq_true, decide_eq_true_iff,
      Bool.not_eq_true',
      ← Bool.not_eq_true, hsweeps]
    generalize service.Refreshed libraries (service.syncLibrary l s) h e = later
    generalize (e ∈ service.refreshed l s) = here
    generalize (∀ k ∈ libraries, ¬ k.Sweeps h e) = safe
    generalize l.Sweeps h e = swept
    clear hsweeps hiff hfinal hnext hview ih
    tauto

/-- A reference that is new belongs to a library that saw it, so no sweep takes it. -/
theorem refView_fullScan_of_none {libraries : List LibraryScan} {s : PersistSession} {e : String}
    (hlibraries : (libraries.map (·.libraryId)).Nodup)
    (hview : s.store.refView service.sourceId e = none) :
    ∀ v, (service.fullScan libraries s).store.refView service.sourceId e = some v →
      v.2 = true ∧ ∃ l ∈ libraries, e ∈ l.seen := by
  induction libraries generalizing s with
  | nil =>
    intro v hv
    exact absurd (hview.symm.trans hv) (by simp)
  | cons l libraries ih =>
    intro v hv
    have hnodup := List.nodup_cons.1 hlibraries
    have hnext := service.refView_syncLibrary l s e
    rw [hview] at hnext
    by_cases he : e ∈ service.refreshed l s
    · have hseen := service.refreshed_subset l s he
      have hnew : (service.syncLibrary l s).store.refView service.sourceId e =
          some (l.libraryId, true) := by
        rw [hnext, if_pos he]
        simp [hseen]
      obtain ⟨a, hfinal, ha⟩ := service.refView_fullScan_of_some libraries hnew
      have hkept : a = true :=
        ha.2 (.inr ⟨rfl, fun k hk hsweeps => hnodup.1 (List.mem_map.2 ⟨k, hk, hsweeps.1⟩)⟩)
      obtain rfl : (l.libraryId, a) = v := Option.some_inj.1 (hfinal.symm.trans hv)
      exact ⟨hkept, l, List.mem_cons_self, hseen⟩
    · rw [if_neg he] at hnext
      obtain ⟨hv₂, k, hk, hseen⟩ := ih hnodup.2 hnext v hv
      exact ⟨hv₂, k, List.mem_cons_of_mem l hk, hseen⟩

/-- What is not listed is neither refreshed nor kept by the library it belongs to. -/
theorem not_refreshed_of_not_listed {libraries : List LibraryScan} {s : PersistSession} {h : Nat}
    {e : String}
    (hlisted : ¬ ∃ l ∈ libraries, l.Lists e) : ¬ service.Refreshed libraries s h e := by
  rintro ⟨before, l, after, rfl, he, -⟩
  exact hlisted ⟨l, by simp, .of_seen (service.refreshed_subset l _ he)⟩

end MediaPersistenceService

/-- The references of the source are available exactly as the libraries list them. -/
structure AvailabilityMirrors (source : Nat) (libraries : List LibraryScan)
    (db : Database) : Prop where
  listed : ∀ e r, db.byExternalIdentity source e = some r → (∃ l ∈ libraries, l.Lists e) →
    r.available = true
  missing : ∀ e r, db.byExternalIdentity source e = some r → (¬ ∃ l ∈ libraries, l.Lists e) →
    r.libraryId ∈ libraries.map (·.libraryId) → r.available = false

namespace MediaPersistenceService
variable (service : MediaPersistenceService)

/-- What was there before and is listed is refreshed after the last sweep that takes it, or was
available and is swept by none. -/
def KeepsListed (libraries : List LibraryScan) (s : PersistSession) : Prop :=
  ∀ e r, s.store.byExternalIdentity service.sourceId e = some r → (∃ l ∈ libraries, l.Lists e) →
    service.Refreshed libraries s r.libraryId e ∨ r.available = true ∧ ∀ k ∈ libraries,
      ¬ k.Sweeps r.libraryId e

theorem availability_mirrors_iff (libraries : List LibraryScan) (db : Database)
    (hlibraries : (libraries.map (·.libraryId)).Nodup) :
    AvailabilityMirrors service.sourceId libraries (service.fullScan libraries ⟨db, []⟩).store ↔
      service.KeepsListed libraries ⟨db, []⟩ := by
  constructor
  · intro hmirrors e r hr hlisted
    have hview : db.refView service.sourceId e = some (r.libraryId, r.available) :=
      congrArg (Option.map _) hr
    obtain ⟨a, hfinal, ha⟩ := service.refView_fullScan_of_some libraries (s := ⟨db, []⟩) hview
    obtain ⟨r', hr', heq⟩ := Option.map_eq_some_iff.1 hfinal
    refine ha.1 ?_
    rw [← show r'.available = a from congrArg Prod.snd heq]
    exact hmirrors.listed e r' hr' hlisted
  · intro hkeeps
    refine ⟨fun e r' hr' hlisted => ?_, fun e r' hr' hlisted hlib => ?_⟩
    all_goals
      have hfinal : (service.fullScan libraries ⟨db, []⟩).store.refView service.sourceId e =
          some (r'.libraryId, r'.available) :=
        congrArg (Option.map _) hr'
    · cases hr : db.byExternalIdentity service.sourceId e with
      | none =>
        exact (service.refView_fullScan_of_none hlibraries (s := ⟨db, []⟩)
          (congrArg (Option.map _) hr) _ hfinal).1
      | some r =>
        obtain ⟨a, hview, ha⟩ := service.refView_fullScan_of_some libraries (s := ⟨db, []⟩)
          (show db.refView _ e = some (r.libraryId, r.available) from congrArg (Option.map _) hr)
        rw [show r'.available =
          a from congrArg Prod.snd (Option.some_inj.1 (hfinal.symm.trans hview))]
        exact ha.2 (hkeeps e r hr hlisted)
    · cases hr : db.byExternalIdentity service.sourceId e with
      | none =>
        obtain ⟨-, l, hl, hseen⟩ := service.refView_fullScan_of_none hlibraries (s := ⟨db, []⟩)
          (congrArg (Option.map _) hr) _ hfinal
        exact absurd ⟨l, hl, .of_seen hseen⟩ hlisted
      | some r =>
        obtain ⟨a, hview, ha⟩ := service.refView_fullScan_of_some libraries (s := ⟨db, []⟩)
          (show db.refView _ e = some (r.libraryId, r.available) from congrArg (Option.map _) hr)
        have hpair : r'.libraryId = r.libraryId ∧ r'.available = a :=
          Prod.ext_iff.1 (Option.some_inj.1 (hfinal.symm.trans hview))
        rw [hpair.2]
        obtain ⟨l, hl, hid⟩ := List.mem_map.1 hlib
        refine Bool.eq_false_iff.2 fun htrue => ?_
        rcases ha.1 htrue with hrefreshed | ⟨-, hsafe⟩
        · exact service.not_refreshed_of_not_listed hlisted hrefreshed
        · exact hsafe l hl ⟨hid.trans hpair.1, fun hseen => hlisted ⟨l, hl, .of_seen hseen⟩⟩

section Example

def movieNamed (externalId : String) : PagedItem where
  item := {
    externalId := externalId
    libraryExternalId := "1"
    kind := .movie
    title := externalId
    complete := by simp [MediaFields.Complete] }
  observedAt := 0
  retriedAt := 0

def scanOf (libraryId : Nat) (leaves : List ServerLeaf) : LibraryScan where
  libraryId := libraryId
  media := [⟨0, [], leaves⟩]
  sweptAt := fun _ => 0
  flushedAt := 0
  history := []
  rebuiltAt := 0

/-- The movie was first seen in the second library. -/
def movieInSecond : Database :=
  ((plainService 1).fullScan [scanOf 2 [.mapped (movieNamed "m")]] ⟨.empty, []⟩).store

/-- The movie stays in the second library. -/
def stayed : List LibraryScan := [scanOf 1 [], scanOf 2 [.mapped (movieNamed "m")]]

theorem keepsListed_stayed : (plainService 1).KeepsListed stayed ⟨movieInSecond, []⟩ := by
  intro e r hr hlisted
  obtain ⟨hmem, -, hid⟩ := Database.mem_of_byExternalIdentity hr
  have hall : ∀ r ∈ movieInSecond.sourceMediaRefs.rows, r.externalId = "m" ∧ r.libraryId = 2 ∧
      r.available = true := by
    decide +kernel
  obtain ⟨hm, hlibrary, havailable⟩ := hall r hmem
  refine .inr ⟨havailable, fun k hk hsweeps => ?_⟩
  have hkept : ∀ k ∈ stayed, k.libraryId = 2 → "m" ∈ k.seen := by decide +kernel
  exact hsweeps.2 (hid ▸ hm ▸ hkept k hk (hsweeps.1.trans hlibrary))

theorem availability_mirrors_iff_stayed :
    (stayed.map (·.libraryId)).Nodup ∧
      AvailabilityMirrors 1 stayed ((plainService 1).fullScan stayed ⟨movieInSecond, []⟩).store :=
  ⟨by decide, ((plainService 1).availability_mirrors_iff stayed _ (by decide)).2 keepsListed_stayed⟩

/-- The movie moved to the library that is scanned first: the second one sweeps it. -/
theorem moved_movie_is_swept :
    ¬ AvailabilityMirrors 1 [scanOf 1 [.mapped (movieNamed "m")], scanOf 2 []]
      ((plainService 1).fullScan [scanOf 1 [.mapped (movieNamed "m")], scanOf 2 []]
        ⟨movieInSecond, []⟩).store := by
  intro h
  have hview : ((plainService 1).fullScan [scanOf 1 [.mapped (movieNamed "m")], scanOf 2 []]
      ⟨movieInSecond, []⟩).store.refView 1 "m" =
      some (2, false) := by
    decide +kernel
  obtain ⟨r, hr, heq⟩ := Option.map_eq_some_iff.1 hview
  have hav := h.listed "m" r hr ⟨scanOf 1 [.mapped (movieNamed "m")], List.mem_cons_self,
    .mapped (movieNamed "m"), List.mem_cons_self, by decide⟩
  rw [show r.available = false from congrArg Prod.snd heq] at hav
  cases hav

end Example

end MediaPersistenceService

end Euvieouvi
