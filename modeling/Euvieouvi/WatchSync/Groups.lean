import Euvieouvi.Lib.KeyedJoins
import Euvieouvi.Projection.Grouping

/-!
# Matching items

`_matching_item_groups` (`sync/watch_sync.py`): the items of a scan that are the same movie, episode
or track on different servers. Items that share an available file are joined first, then items that
share an identifier, unless both have files and share none. The rows of a query come in storage
order, and a scan lists its items without repetition.

The conflict check compares an item with the first item of its identifier only, so a group depends
on the other items of the scan.
-/

namespace Euvieouvi

/-- `_SYNCABLE_KINDS`. -/
def isSyncableKind : MediaKind → Bool
  | .movie | .episode | .track => true
  | _ => false

/-- `_IDENTITY_PROVIDERS`. -/
def identityProviders : List String := ["tmdb", "tvdb", "imdb"]

namespace Database
variable (db : Database)

/-- The available files of the items. -/
def pathRows (items : List Nat) : List (Nat × String) :=
  db.mediaFilePaths.rows.filterMap fun f => (db.sourceMediaRefs.get? f.referenceId).bind fun r =>
    if r.available && items.contains r.mediaItemId then some (r.mediaItemId, f.pathKey) else none

def identifierPairs (items : List Nat) : List MediaIdentifier :=
  db.mediaIdentifiers.rows.filter fun r => items.contains r.mediaItemId &&
    identityProviders.contains r.provider

def pathKeyOf (row : Nat × String) : Option (MediaKind × String) :=
  (db.identityRows.kindOf row.1).map fun kind => (kind, row.2)

def identifierKeyOf (row : MediaIdentifier) : Option (MediaKind × String × String) :=
  ((db.identityRows.kindOf row.mediaItemId).filter isSyncableKind).map fun kind =>
    (kind, row.provider, row.externalId)

/-- Conflicting files outweigh reused or incorrect identifiers. -/
def conflictingFiles (existing i : Nat) : Bool :=
  decide (db.identityRows.pathsOf existing ≠ [] ∧ db.identityRows.pathsOf i ≠ [] ∧
    ¬ ∃ key ∈ db.identityRows.pathsOf existing, key ∈ db.identityRows.pathsOf i)

/-- `parents[find(media_id)] = find(owner)`. -/
def joinPath : UnionFind Nat × Dict (MediaKind × String) Nat → Nat × String →
    UnionFind Nat × Dict (MediaKind × String) Nat :=
  Euvieouvi.joinRow db.pathKeyOf Prod.fst (fun _ _ => false) fun u owner i => u.attach i owner

/-- `parents[find(existing)] = find(media_item_id)`, unless the files conflict. -/
def joinIdentifier : UnionFind Nat × Dict (MediaKind × String × String) Nat → MediaIdentifier →
    UnionFind Nat × Dict (MediaKind × String × String) Nat :=
  Euvieouvi.joinRow db.identifierKeyOf MediaIdentifier.mediaItemId db.conflictingFiles
    UnionFind.attach

def matchingClasses (items : List Nat) : UnionFind Nat :=
  let byPath := (db.pathRows items).foldl db.joinPath (.singletons, .empty)
  ((db.identifierPairs items).foldl db.joinIdentifier (byPath.1, .empty)).1

def syncable (i : Nat) : Bool := (db.identityRows.kindOf i).any isSyncableKind

/-- `_matching_item_groups`. -/
def matchingItemGroups (items : List Nat) : List (List Nat) :=
  let u := db.matchingClasses items
  (groupBy (fun i => (u.find i).1) (items.filter db.syncable)).map Prod.snd

section Groups
variable {db : Database} {items g g' : List Nat} {i : Nat}

theorem matchingItemGroups_eq_filter (hg : g ∈ db.matchingItemGroups items) :
    ∃ j, j ∈ items.filter db.syncable ∧
      g = (items.filter db.syncable).filter fun i => (db.matchingClasses items).root i =
        (db.matchingClasses items).root j := by
  obtain ⟨⟨k, l⟩, hmem, rfl⟩ := List.mem_map.1 hg
  obtain ⟨rfl, hk⟩ := mem_groupBy hmem
  obtain ⟨j, hj, rfl⟩ := List.mem_map.1 hk
  refine ⟨j, hj, List.filter_congr fun i _ => ?_⟩
  rw [UnionFind.find_fst, UnionFind.find_fst]

theorem exists_matchingItemGroup {j : Nat} (hj : j ∈ items.filter db.syncable) :
    (items.filter db.syncable).filter
      (fun i => (db.matchingClasses items).root i = (db.matchingClasses items).root j) ∈
      db.matchingItemGroups items := by
  have hgroup : (((db.matchingClasses items).find j).1, _) ∈
      groupBy (fun i => ((db.matchingClasses items).find i).1) (items.filter db.syncable) :=
        exists_groupBy hj
  refine List.mem_map.2 ⟨_, hgroup, List.filter_congr fun i _ => ?_⟩
  rw [UnionFind.find_fst, UnionFind.find_fst]

/-- An item is in one group. -/
theorem matchingItemGroups_disjoint (hg : g ∈ db.matchingItemGroups items)
    (hg' : g' ∈ db.matchingItemGroups items) (hi : i ∈ g) (hi' : i ∈ g') : g = g' := by
  obtain ⟨j, -, rfl⟩ := matchingItemGroups_eq_filter hg
  obtain ⟨j', -, rfl⟩ := matchingItemGroups_eq_filter hg'
  have hj : (db.matchingClasses items).root i = (db.matchingClasses items).root j := by
    simpa using (List.mem_filter.1 hi).2
  have hj' : (db.matchingClasses items).root i = (db.matchingClasses items).root j' := by
    simpa using (List.mem_filter.1 hi').2
  refine List.filter_congr fun x _ => ?_
  rw [← hj, ← hj']

/-- The groups depend on the rows of identity only. -/
theorem matchingItemGroups_congr {db' : Database} (h : db'.identityRows = db.identityRows)
    (items : List Nat) :
    db'.matchingItemGroups items = db.matchingItemGroups items := by
  have hrows : ∀ d : Database, d.matchingItemGroups items =
      { Database.empty with
        mediaItems := d.identityRows.mediaItems
        sourceMediaRefs := d.identityRows.sourceMediaRefs
        mediaFilePaths := d.identityRows.mediaFilePaths
        mediaIdentifiers := d.identityRows.mediaIdentifiers : Database }.matchingItemGroups items :=
          fun _ => rfl
  rw [hrows db', hrows db, h]

theorem mem_pathRows {row : Nat × String} (h : row ∈ db.pathRows items) :
    ∃ f ∈ db.mediaFilePaths.rows, ∃ r, db.sourceMediaRefs.get? f.referenceId = some r ∧
    r.available = true ∧
      r.mediaItemId ∈ items ∧ row = (r.mediaItemId, f.pathKey) := by
  obtain ⟨f, hf, hrow⟩ := List.mem_filterMap.1 h
  obtain ⟨r, hr, hif⟩ := Option.bind_eq_some_iff.1 hrow
  split at hif
  next hc =>
    obtain ⟨hav, hmem⟩ := Bool.and_eq_true_iff.1 hc
    exact ⟨f, hf, r, hr, hav, by simpa using hmem, (Option.some.inj hif).symm⟩
  next => cases hif

end Groups

end Database

end Euvieouvi
