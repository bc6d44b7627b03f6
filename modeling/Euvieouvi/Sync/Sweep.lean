import Euvieouvi.Sync.Availability

/-!
# The sweep and the references of its scan

`_external_ids_for_item` (`sync/orchestrator.py`) computes from an item which references
`persist_media` may refresh: those of the item, of its show and season and of its artist and album.
Whatever the database and whichever branch a call takes, a reference that it adds, makes available
or sees again is one of these (`refreshed_externalIds`); so the sweep at the end of the scan of a
library leaves every reference that this scan refreshed as it was (`sweep_keeps_refreshed`).
-/

namespace Euvieouvi

open Database Program

/-- `_external_ids_for_item`, statement by statement. The assertion on the season holds for every
item. -/
def externalIdsForItem (item : ExternalMediaItem) : List String :=
  let result := [item.externalId]
  let result := match item.showExternalId with
    | some showId => result ++ [showId]
    | none => result
  let result := match item.kind, item.showExternalId, item.seasonNumber with
    | .episode, some showId, some number =>
      result ++ [(item.seasonExternalId.filter (· ≠ "")).getD s!"{showId}:season:{number}"]
    | _, _, _ => result
  if item.kind =
    .track then result ++ item.artistExternalId.toList ++ item.albumExternalId.toList else result

theorem externalIdsForItem_eq (item : ExternalMediaItem) :
    externalIdsForItem item = item.externalIds := by
  unfold externalIdsForItem ExternalMediaItem.externalIds
  by_cases hk : item.kind = .episode
  · obtain ⟨e, he⟩ := Option.isSome_iff_exists.1 (item.isSome_episode?.2 hk)
    obtain ⟨hshow, hnumber⟩ := MediaFields.episode?_ids he
    simp [hk, he, hshow, hnumber, MediaFields.seasonReferenceId]
  · have hnone : item.episode? = none :=
      Option.not_isSome_iff_eq_none.1 (mt item.isSome_episode?.1 hk)
    cases hshow : item.showExternalId <;> by_cases ht : item.kind = .track <;> simp [hk, ht, hnone]

/-- The reference is new since `db`, or became available, or was seen at another time. -/
def SourceMediaRef.RefreshedSince (db : Database) (r' : SourceMediaRef) : Prop :=
  ∀ r ∈ db.sourceMediaRefs.rows, r.id = r'.id → (r.available = false ∧ r'.available = true) ∨
    r.lastSeenAt ≠ r'.lastSeenAt

variable {service : MediaPersistenceService} {ids : List String} {db db' : Database}

/-- What is refreshed is among the references that are touched. -/
theorem Touches.mem_of_refreshed (h : Touches service ids db db') {r' : SourceMediaRef}
    (hr' : r' ∈ db'.sourceMediaRefs.rows)
    (hsource : r'.sourceId = service.sourceId) (hrefreshed : r'.RefreshedSince db) :
    r'.externalId ∈ ids := by
  by_contra hno
  obtain ⟨r, hr, heq⟩ := h.others r' hr' hsource hno
  rw [heq] at hrefreshed
  rcases hrefreshed r hr rfl with ⟨hbefore, hafter⟩ | hseen
  · exact Bool.false_ne_true (hbefore.symm.trans hafter)
  · exact hseen rfl

namespace MediaPersistenceService

theorem refreshed_externalIds {item : ExternalMediaItem} {observedAt : Time} {s s' : PersistSession}
    {result : PersistResult}
    (h : (service.persistMedia item observedAt).Returns s result s') {r' : SourceMediaRef}
    (hr' : r' ∈ s'.store.sourceMediaRefs.rows) (hsource : r'.sourceId = service.sourceId)
    (hrefreshed : r'.RefreshedSince s.store) : r'.externalId ∈ externalIdsForItem item := by
  have htouches := service.persistMedia_touches item observedAt s.store s result s' rfl h
  rw [externalIdsForItem_eq]
  exact shownIds_subset item s.store service.sourceId
    (htouches.mem_of_refreshed hr' hsource hrefreshed)

/-- A row whose external id was seen is not swept. -/
theorem mem_markMissingUnavailable {l : LibraryScan} {r : SourceMediaRef}
    (hr : r ∈ db.sourceMediaRefs.rows)
    (hseen : r.externalId ∈ l.seen) : r ∈ (db.markMissingUnavailable l).sourceMediaRefs.rows := by
  unfold markMissingUnavailable
  rw [sourceMediaRefs_updateSourceMediaRefs]
  exact Table.mem_update.2 ⟨r, hr, by rw [if_neg (by simp [hseen])]⟩

/-- Of the source, `persist_media` refreshes references of its item only; the sweep of a full scan
changes no reference that the calls of this scan refreshed, and after the library every reference
that they make available is available. -/
theorem sweep_keeps_refreshed (service : MediaPersistenceService) :
    (∀ (item : ExternalMediaItem) observedAt s result s',
      (service.persistMedia item observedAt).Returns s result s' →
      ∀ r' ∈ s'.store.sourceMediaRefs.rows, r'.sourceId = service.sourceId →
      r'.RefreshedSince s.store →
        r'.externalId ∈ externalIdsForItem item) ∧
    ∀ (l : LibraryScan) s,
      (∀ r' ∈ (service.syncMedia l s).store.sourceMediaRefs.rows, r'.sourceId = service.sourceId →
        r'.RefreshedSince s.store →
        r' ∈ ((service.syncMedia l s).store.markMissingUnavailable l).sourceMediaRefs.rows) ∧
      ∀ e ∈ service.refreshed l s, ∃ r,
        (service.syncLibrary l s).store.byExternalIdentity service.sourceId e = some r ∧
        r.available = true := by
  refine ⟨fun item observedAt s result s' h r' hr' hsource hrefreshed =>
    refreshed_externalIds h hr' hsource hrefreshed,
    fun l s => ⟨fun r' hr' hsource hrefreshed => ?_, fun e he => ?_⟩⟩
  · have htouches := service.refreshedByPages_touches l l.media s
    exact mem_markMissingUnavailable hr'
      (service.refreshed_subset l s (htouches.mem_of_refreshed hr' hsource hrefreshed))
  · have hseen := service.refreshed_subset l s he
    have hview := service.refView_syncLibrary l s e
    rw [if_pos he, Option.map_some] at hview
    obtain ⟨r, hr, heq⟩ := Option.map_eq_some_iff.1 hview
    refine ⟨r, hr, (congrArg Prod.snd heq).trans ?_⟩
    simp [hseen]

/-- A movie that the database did not know. -/
theorem sweep_keeps_refreshed_movie :
    (∃ r' ∈ ((plainService 1).syncMedia (scanOf 2 [.mapped (movieNamed "m")])
      ⟨.empty, []⟩).store.sourceMediaRefs.rows,
      r'.RefreshedSince .empty ∧
      r' ∈ (((plainService 1).syncMedia (scanOf 2 [.mapped (movieNamed "m")])
        ⟨.empty, []⟩).store.markMissingUnavailable
        (scanOf 2 [.mapped (movieNamed "m")])).sourceMediaRefs.rows) ∧
    ∃ result s',
      ((plainService 1).persistMedia (movieNamed "m").item 0).Returns ⟨.empty, []⟩ result s' ∧
      ∀ r' ∈ s'.store.sourceMediaRefs.rows, r'.sourceId = 1 →
      r'.externalId ∈ externalIdsForItem (movieNamed "m").item := by
  have hnew : ∀ r' : SourceMediaRef, r'.RefreshedSince .empty := fun r' r hr => nomatch hr
  have h := sweep_keeps_refreshed (plainService 1)
  obtain ⟨result, s', hreturns⟩ : ∃ result s',
      ((plainService 1).persistMedia (movieNamed "m").item 0).Returns ⟨.empty, []⟩ result s' :=
    ⟨_, _, rfl⟩
  refine ⟨?_, result, s', hreturns, fun r' hr' hsource =>
    h.1 _ _ _ _ _ hreturns r' hr' hsource (hnew r')⟩
  obtain ⟨r', hr', hsource⟩ :
    ∃ r' ∈ ((plainService 1).syncMedia (scanOf 2 [.mapped (movieNamed "m")])
      ⟨.empty, []⟩).store.sourceMediaRefs.rows, r'.sourceId = 1 := by
    decide +kernel
  exact ⟨r', hr', hnew r', (h.2 _ _).1 r' hr' hsource (hnew r')⟩

end MediaPersistenceService

end Euvieouvi
