import Euvieouvi.Projection.RowOrder

/-!
# The rebuilt projection is a safe partition

What `rebuild_catalog_projection` writes, stated on its two tables: every catalog item is a member
of one entry, the members of an entry have its kind, its item comes first among them, no key occurs
twice, and where there is more than one member nothing speaks against their being one. The same
tables come out for every storage order of the rows.
-/

namespace Euvieouvi

namespace Database

/-- The items of an entry. -/
def entryMembers (db : Database) (e : Nat) : List Nat :=
  (db.catalogEntryMembers.rows.filter (·.catalogMediaItemId = e)).map (·.mediaItemId)

structure SafePartition (db : Database) : Prop where
  covered : ∀ m ∈ db.mediaItems.rows, isCatalogKind m.kind = true →
    ∃ e, db.catalogEntries.contains e = true ∧ ∀ e', m.id ∈ db.entryMembers e' ↔ e' = e
  catalog : ∀ e, ∀ i ∈ db.entryMembers e, i ∈ db.identityRows.catalogIds
  kinds : ∀ entry ∈ db.catalogEntries.rows, ∀ i ∈ db.entryMembers entry.mediaItemId,
    db.identityRows.kindOf i = some entry.kind
  canonical : ∀ entry ∈ db.catalogEntries.rows,
    entry.mediaItemId ∈ db.entryMembers entry.mediaItemId ∧
    ∀ i ∈ db.entryMembers entry.mediaItemId,
      db.identityRows.representKey entry.mediaItemId ≤ db.identityRows.representKey i
  keys : (db.catalogEntries.rows.map (·.groupKey)).Nodup
  safe : ∀ entry ∈ db.catalogEntries.rows, 2 ≤ (db.entryMembers entry.mediaItemId).length →
    db.identityRows.SafeGroup (db.entryMembers entry.mediaItemId)
  children : ∀ entry ∈ db.catalogEntries.rows, 0 ≤ entry.completedChildCount ∧
    entry.completedChildCount ≤ entry.childCount

variable {py : PyLib} {now : Time} {db : Database}

theorem rows_rebuiltMembers (py : PyLib) (now : Time) (db : Database) :
    (db.rebuildCatalogProjection py now).2.catalogEntryMembers.rows =
      db.identityRows.members py := by
  have hitems : (db.identityRows.members py).map (·.mediaItemId) =
      (db.identityRows.groups py).flatten := by
    unfold IdentityRows.members
    induction db.identityRows.groups py with
    | nil => rfl
    | cons g groups ih =>
      rw [List.flatMap_cons, List.map_append, ih, List.flatten_cons, List.map_map]
      congr 1
      exact List.map_id'' (fun _ => rfl) g
  have hnodup :
      (((Table.empty : Table CatalogEntryMember.mediaItemId).rows ++ db.identityRows.members py).map
      CatalogEntryMember.mediaItemId).Nodup := by
    rw [Table.rows_empty, List.nil_append, hitems]
    exact IdentityRows.nodup_flatten_groups _ _
  exact (Table.rows_foldl_insert hnodup).trans (List.nil_append _)

theorem rows_rebuiltEntries (py : PyLib) (now : Time) (db : Database) :
    (db.rebuildCatalogProjection py now).2.catalogEntries.rows =
      (db.identityRows.groupKeys py).map (db.rebuiltEntry py now) := by
  have hkeys :
      ((db.identityRows.groupKeys py).map (db.rebuiltEntry py now)).map CatalogEntry.mediaItemId =
      (db.identityRows.groups py).map db.identityRows.canonicalOf := by
    rw [List.map_map, ← IdentityRows.groupKeys_fst]; rfl
  have hnodup : (((Table.empty : Table CatalogEntry.mediaItemId).rows ++
      (db.identityRows.groupKeys py).map (db.rebuiltEntry py now)).map
        CatalogEntry.mediaItemId).Nodup := by
    rw [Table.rows_empty, List.nil_append, hkeys]
    exact IdentityRows.nodup_canonicalOf _ _
  exact (Table.rows_foldl_insert hnodup).trans (List.nil_append _)

/-- The members of the entry of a group are the items of the group. -/
theorem entryMembers_rebuilt {g : List Nat} (hg : g ∈ db.identityRows.groups py) :
    (db.rebuildCatalogProjection py now).2.entryMembers (db.identityRows.canonicalOf g) = g := by
  unfold entryMembers
  rw [rows_rebuiltMembers]
  unfold IdentityRows.members
  have hcanonical := IdentityRows.nodup_canonicalOf db.identityRows py
  generalize db.identityRows.groups py = groups at hg hcanonical
  have hhead : ∀ g' e,
      ((g'.map fun i => (⟨i, db.identityRows.canonicalOf g'⟩ : CatalogEntryMember)).filter
      (·.catalogMediaItemId = e)).map (·.mediaItemId) = if db.identityRows.canonicalOf g' =
        e then g' else [] := by
    intro g' e
    by_cases he : db.identityRows.canonicalOf g' = e
    · rw [if_pos he, List.filter_eq_self.2 (by simp [he]), List.map_map]
      exact List.map_id'' (fun _ => rfl) g'
    · rw [if_neg he, List.filter_eq_nil_iff.2 (by simp [he]), List.map_nil]
  have hmembers : ∀ (groups : List (List Nat)) e, ((groups.flatMap fun g' => g'.map fun i =>
      (⟨i, db.identityRows.canonicalOf g'⟩ : CatalogEntryMember)).filter
        (·.catalogMediaItemId = e)).map (·.mediaItemId) =
      groups.flatMap fun g' => if db.identityRows.canonicalOf g' = e then g' else [] := by
    intro groups e
    induction groups with
    | nil => rfl
    | cons g' groups ih =>
      rw [List.flatMap_cons, List.filter_append, List.map_append, ih, hhead, List.flatMap_cons]
  rw [hmembers]
  induction groups with
  | nil => cases hg
  | cons g' groups ih =>
    rw [List.map_cons, List.nodup_cons] at hcanonical
    rw [List.flatMap_cons]
    rcases List.mem_cons.1 hg with rfl | hg
    · have hrest : (groups.flatMap fun g' => if db.identityRows.canonicalOf g' =
          db.identityRows.canonicalOf g then g' else []) = [] := by
        rw [List.flatMap_eq_nil_iff]
        intro g' hg'
        exact if_neg fun heq => hcanonical.1 (List.mem_map.2 ⟨g', hg', heq⟩)
      rw [if_pos rfl, hrest, List.append_nil]
    · have hne : db.identityRows.canonicalOf g' ≠ db.identityRows.canonicalOf g :=
        fun heq => hcanonical.1 (List.mem_map.2 ⟨g, hg, heq.symm⟩)
      rw [if_neg hne, List.nil_append, ih hg hcanonical.2]

/-- An entry belongs to a group. -/
theorem exists_group_of_entry {entry : CatalogEntry}
    (h : entry ∈ (db.rebuildCatalogProjection py now).2.catalogEntries.rows) :
    ∃ g ∈ db.identityRows.groups py, entry.mediaItemId = db.identityRows.canonicalOf g ∧
      ∃ key, entry = db.rebuiltEntry py now (db.identityRows.canonicalOf g, key) := by
  rw [rows_rebuiltEntries] at h
  obtain ⟨⟨e, key⟩, hkey, rfl⟩ := List.mem_map.1 h
  have hfst : e ∈ (db.identityRows.groupKeys py).map Prod.fst := List.mem_map_of_mem hkey
  rw [IdentityRows.groupKeys_fst] at hfst
  obtain ⟨g, hg, rfl⟩ := List.mem_map.1 hfst
  exact ⟨g, hg, rfl, key, rfl⟩

theorem exists_group_of_member {e i : Nat}
    (h : i ∈ (db.rebuildCatalogProjection py now).2.entryMembers e) :
    ∃ g ∈ db.identityRows.groups py, i ∈ g ∧ e = db.identityRows.canonicalOf g := by
  unfold entryMembers at h
  rw [rows_rebuiltMembers] at h
  obtain ⟨row, hrow, rfl⟩ := List.mem_map.1 h
  obtain ⟨hrow, he⟩ := List.mem_filter.1 hrow
  obtain ⟨g, hg, hrow⟩ := List.mem_flatMap.1 hrow
  obtain ⟨j, hj, rfl⟩ := List.mem_map.1 hrow
  exact ⟨g, hg, hj, (of_decide_eq_true he).symm⟩

theorem safePartition_rebuild (hsha : Function.Injective py.sha256) (hpy : py.KeepsNulFree)
    (htexts : db.identityRows.TextsNulFree) :
    (db.rebuildCatalogProjection py now).2.SafePartition where
  covered m hm hkind := by
    have hin : m.id ∈ (db.identityRows.groups py).flatten :=
      (IdentityRows.flatten_groups_perm _ _).mem_iff.2
        (IdentityRows.mem_catalogIds.2 ⟨m, hm, hkind, rfl⟩)
    obtain ⟨g, hg, hmg⟩ := List.mem_flatten.1 hin
    refine ⟨db.identityRows.canonicalOf g, ?_, fun e' => ⟨fun hmem => ?_, ?_⟩⟩
    · have hcanonical : db.identityRows.canonicalOf g ∈
          (db.identityRows.groupKeys py).map Prod.fst := by
        rw [IdentityRows.groupKeys_fst]
        exact List.mem_map_of_mem hg
      obtain ⟨key, hkey, hfst⟩ := List.mem_map.1 hcanonical
      have hrow : db.rebuiltEntry py now key ∈
          (db.rebuildCatalogProjection py now).2.catalogEntries.rows := by
        rw [rows_rebuiltEntries]
        exact List.mem_map_of_mem hkey
      exact Option.isSome_iff_exists.2 ⟨_, Table.get?_eq_some.2 ⟨hrow, hfst⟩⟩
    · obtain ⟨g', hg', hmg', rfl⟩ := exists_group_of_member hmem
      rw [IdentityRows.eq_of_mem_groups hg hg' hmg hmg']
    · rintro rfl
      rwa [entryMembers_rebuilt hg]
  catalog e i hi := by
    obtain ⟨g, hg, hig, -⟩ := exists_group_of_member hi
    exact (IdentityRows.groupOk hg).catalog i hig
  kinds entry hentry i hi := by
    obtain ⟨g, hg, hcanonical, key, rfl⟩ := exists_group_of_entry hentry
    rw [hcanonical, entryMembers_rebuilt hg] at hi
    have hok := IdentityRows.groupOk hg
    have hmem : db.identityRows.canonicalOf g ∈ g := IdentityRows.canonicalOf_mem hok.nonempty
    obtain ⟨m, hm, -⟩ := IdentityRows.kindOf_of_mem_catalogIds (hok.catalog _ hmem)
    have hkind : db.identityRows.kindOf (db.identityRows.canonicalOf g) = some m.kind := by
      unfold IdentityRows.kindOf
      rw [hm]; rfl
    show db.identityRows.kindOf i =
      some ((db.identityRows.kindOf (db.identityRows.canonicalOf g)).getD .movie)
    rw [hok.kinds i hi _ hmem, hkind]; rfl
  canonical entry hentry := by
    obtain ⟨g, hg, hcanonical, -⟩ := exists_group_of_entry hentry
    rw [hcanonical, entryMembers_rebuilt hg]
    exact ⟨IdentityRows.canonicalOf_mem (IdentityRows.groupOk hg).nonempty,
      fun i hi => IdentityRows.representKey_canonicalOf_le hi⟩
  keys := by
    rw [rows_rebuiltEntries, List.map_map]
    exact IdentityRows.nodup_groupKeys hsha hpy htexts
  safe entry hentry hlen := by
    obtain ⟨g, hg, hcanonical, -⟩ := exists_group_of_entry hentry
    rw [hcanonical, entryMembers_rebuilt hg] at hlen ⊢
    exact IdentityRows.safeGroup_of_mem_groups hg hlen
  children entry hentry := by
    obtain ⟨g, -, -, key, rfl⟩ := exists_group_of_entry hentry
    exact ⟨Nat.zero_le _, List.countP_le_length⟩

/-- What the rebuild writes, whatever the order in which the rows are read. -/
theorem rebuild_of_sameRows {db' : Database} (h : db.SameRows db') :
    (db.rebuildCatalogProjection py now).1 = (db'.rebuildCatalogProjection py now).1 ∧
      (db.rebuildCatalogProjection py now).2.catalogEntries =
        (db'.rebuildCatalogProjection py now).2.catalogEntries ∧
      (db.rebuildCatalogProjection py now).2.catalogEntryMembers =
        (db'.rebuildCatalogProjection py now).2.catalogEntryMembers := by
  unfold rebuildCatalogProjection
  dsimp only
  rw [h.identity.groups, h.identity.groupKeys, h.identity.members, h.rebuiltEntry,
    h.projectedMembers]
  exact ⟨rfl, rfl, rfl⟩

theorem rebuild_safe_partition (hsha : Function.Injective py.sha256) (hpy : py.KeepsNulFree)
    (now : Time) (db : Database) (htexts : db.identityRows.TextsNulFree) :
    (db.rebuildCatalogProjection py now).2.SafePartition ∧
      ∀ db' : Database, db.SameRows db' →
        (db.rebuildCatalogProjection py now).1 = (db'.rebuildCatalogProjection py now).1 ∧
        (db.rebuildCatalogProjection py now).2.catalogEntries =
          (db'.rebuildCatalogProjection py now).2.catalogEntries ∧
        (db.rebuildCatalogProjection py now).2.catalogEntryMembers =
          (db'.rebuildCatalogProjection py now).2.catalogEntryMembers :=
  ⟨safePartition_rebuild hsha hpy htexts, fun _ h => rebuild_of_sameRows h⟩

private def filmOnBoth : Database :=
  { Database.empty with
    sources :=
      ⟨[{ id := 1, connectorType := .plex }, { id := 2, connectorType := .jellyfin }], by decide⟩
    mediaItems := ⟨[{ id := 1, kind := .movie, title := "The Film" },
      { id := 2, kind := .movie, title := "Film" }], by decide⟩
    sourceMediaRefs :=
      ⟨[{ id := 1, sourceId := 2, libraryId := 2, mediaItemId := 1, externalId := "a" },
      { id := 2, sourceId := 1, libraryId := 1, mediaItemId := 2, externalId := "b" }], by decide⟩
    mediaIdentifiers := ⟨[{ id := 1, mediaItemId := 1, provider := "tmdb", externalId := "7" },
      { id := 2, mediaItemId := 2, provider := "tmdb", externalId := "7" }], by decide⟩ }

theorem rebuild_safe_partition_film :
    (filmOnBoth.rebuildCatalogProjection .plain 0).2.SafePartition ∧
      ∀ db' : Database, filmOnBoth.SameRows db' →
        (filmOnBoth.rebuildCatalogProjection .plain 0).1 =
          (db'.rebuildCatalogProjection .plain 0).1 ∧
        (filmOnBoth.rebuildCatalogProjection .plain 0).2.catalogEntries =
          (db'.rebuildCatalogProjection .plain 0).2.catalogEntries ∧
        (filmOnBoth.rebuildCatalogProjection .plain 0).2.catalogEntryMembers =
          (db'.rebuildCatalogProjection .plain 0).2.catalogEntryMembers :=
  rebuild_safe_partition (fun _ _ h => h) PyLib.plain_keepsNulFree 0 filmOnBoth
    ⟨by decide, by decide⟩

end Database

end Euvieouvi
