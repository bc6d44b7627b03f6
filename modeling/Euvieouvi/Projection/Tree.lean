import Euvieouvi.Projection.Activity

/-!
# What the refresh reaches

In a forest of at most three steps the two recursive queries of `refresh_catalog_activity` miss
nothing: an entry is impacted exactly when a dirty item is a member of it or lies below one
(`mem_impactedEntries`), and every item below a member of an impacted entry is in the activity tree
(`mem_activityTree`). Hence the loops leave the same values under an impacted entry as the loops of
a rebuild (`refreshedStats_eq`, `mem_refreshedChildren`).
-/

namespace Euvieouvi

namespace Database
variable {py : PyLib} {db : Database} {i j a e : Nat} {k : Nat}

/-- The stored members are those a rebuild would write. -/
def MembersCurrent (py : PyLib) (db : Database) : Prop :=
  ∀ i, db.memberEntry i = db.canonicalByItem py i

/-- A member of the entry is dirty or lies above a dirty item. -/
def Touched (py : PyLib) (db : Database) (e : Nat) : Prop :=
  ∃ d, db.dirtyItems.contains d = true ∧ ∃ a ∈ db.ancestorsOf d, db.canonicalByItem py a = some e

theorem parentOf_of_mem {m : MediaItem} (h : m ∈ db.mediaItems.rows) :
    db.identityRows.parentOf m.id = m.parentId := by
  show (db.mediaItems.get? m.id).bind _ = _
  rw [Table.get?_of_mem h]; rfl

theorem row_of_parentOf {p : Nat} (h : db.identityRows.parentOf i = some p) :
    ∃ m ∈ db.mediaItems.rows, m.id = i ∧ m.parentId = some p := by
  obtain ⟨m, hm, hp⟩ := Option.bind_eq_some_iff.1 h
  obtain ⟨hm, hid⟩ := Table.get?_eq_some.1 hm
  exact ⟨m, hm, hid, hp⟩

/-- A node with an ancestor that has a row has a row itself. -/
theorem row_of_above {m : MediaItem} (hm : m ∈ db.mediaItems.rows)
    (h : above db.identityRows.parentOf k i = some m.id) :
    ∃ m' ∈ db.mediaItems.rows, m'.id = i := by
  cases k with
  | zero => exact ⟨m, hm, (Option.some.inj h).symm⟩
  | succ k =>
    obtain ⟨p, hp, -⟩ := Option.bind_eq_some_iff.1 h
    obtain ⟨m', hm', hid, -⟩ := row_of_parentOf hp
    exact ⟨m', hm', hid⟩

theorem shallow_of_rows {d : Nat}
    (h : ∀ m ∈ db.mediaItems.rows, above db.identityRows.parentOf (d + 1) m.id = none) :
    Shallow db.identityRows.parentOf (d + 1) := by
  intro i
  cases hp : db.identityRows.parentOf i with
  | none => rw [above_succ, hp]; rfl
  | some p =>
    obtain ⟨m, hm, rfl, -⟩ := row_of_parentOf hp
    exact h m hm

theorem row_of_canonicalByItem (h : db.canonicalByItem py i = some e) :
    ∃ m ∈ db.mediaItems.rows, m.id = i := by
  obtain ⟨m, hm⟩ := get?_of_canonicalByItem h
  exact ⟨m, (Table.get?_eq_some.1 hm).1, (Table.get?_eq_some.1 hm).2⟩

theorem memberEntry_eq_some :
    db.memberEntry i = some e ↔ ∃ m ∈ db.catalogEntryMembers.rows, m.mediaItemId = i ∧
    m.catalogMediaItemId = e := by
  unfold memberEntry
  simp only [Option.map_eq_some_iff, Table.get?_eq_some, and_assoc]

theorem mem_ancestorsOf (h : Shallow db.identityRows.parentOf 4) :
    a ∈ db.ancestorsOf i ↔ ∃ k, above db.identityRows.parentOf k i = some a :=
  mem_walkUp h (Nat.le_add_left ..)

theorem mem_iterate_parents {base : List MediaItem} (hbase : ∀ m ∈ base, m ∈ db.mediaItems.rows)
    {m : MediaItem} :
    m ∈ (fun level => level.filterMap fun m : MediaItem =>
      m.parentId.bind db.mediaItems.get?)^[k] base ↔
      m ∈ db.mediaItems.rows ∧ ∃ d ∈ base, above db.identityRows.parentOf k d.id = some m.id := by
  induction k generalizing m with
  | zero =>
    constructor
    · exact fun h => ⟨hbase m h, m, h, rfl⟩
    · rintro ⟨hm, d, hd, hid⟩
      rw [← db.mediaItems.eq_of_key_eq (hbase d hd) hm (Option.some.inj hid)]; exact hd
  | succ k ih =>
    rw [Function.iterate_succ_apply', List.mem_filterMap]
    constructor
    · rintro ⟨y, hy, hp⟩
      obtain ⟨hym, d, hd, habove⟩ := ih.1 hy
      obtain ⟨p, hyp, hget⟩ := Option.bind_eq_some_iff.1 hp
      obtain ⟨hm, rfl⟩ := Table.get?_eq_some.1 hget
      refine ⟨hm, d, hd, ?_⟩
      rw [above_succ', habove]
      exact (parentOf_of_mem hym).trans hyp
    · rintro ⟨hm, d, hd, habove⟩
      rw [above_succ'] at habove
      obtain ⟨p, hp, hpm⟩ := Option.bind_eq_some_iff.1 habove
      obtain ⟨y, hy, rfl, hyp⟩ := row_of_parentOf hpm
      exact ⟨y, ih.2 ⟨hy, d, hd, hp⟩, by rw [hyp]; exact Table.get?_of_mem hm⟩

theorem mem_dirtyAncestors (h : Shallow db.identityRows.parentOf 4) {m : MediaItem}
    (hm : m ∈ db.mediaItems.rows) :
    m ∈ db.dirtyAncestors ↔
      ∃ d, db.dirtyItems.contains d = true ∧
      ∃ k, above db.identityRows.parentOf k d = some m.id := by
  unfold dirtyAncestors
  rw [mem_recursiveRows]
  have hbase : ∀ m ∈ db.mediaItems.rows.filter (fun m => db.dirtyItems.contains m.id),
      m ∈ db.mediaItems.rows :=
    fun m hm => (List.mem_filter.1 hm).1
  constructor
  · rintro ⟨k, -, hk⟩
    obtain ⟨-, d, hd, habove⟩ := (mem_iterate_parents hbase).1 hk
    exact ⟨d.id, (List.mem_filter.1 hd).2, k, habove⟩
  · rintro ⟨d, hd, k, habove⟩
    obtain ⟨r, hr, rfl⟩ := row_of_above hm habove
    exact ⟨k, (h.lt habove).le,
      (mem_iterate_parents hbase).2 ⟨hm, r, List.mem_filter.2 ⟨hr, hd⟩, habove⟩⟩

/-- The impacted entries are those with a dirty item among their members or below one. -/
theorem mem_impactedEntries (h : Shallow db.identityRows.parentOf 4) (hmem : db.MembersCurrent py) :
    e ∈ db.impactedEntries ↔ db.Touched py e := by
  unfold impactedEntries
  rw [List.mem_eraseDups, List.mem_map]
  constructor
  · rintro ⟨member, hmember, rfl⟩
    obtain ⟨hrow, hany⟩ := List.mem_filter.1 hmember
    obtain ⟨m, hm, hid⟩ := List.any_eq_true.1 hany
    have hm' : m ∈ db.mediaItems.rows := by
      obtain ⟨k, -, hk⟩ := mem_recursiveRows.1 hm
      exact ((mem_iterate_parents fun m hm => (List.mem_filter.1 hm).1).1 hk).1
    obtain ⟨d, hd, k, hk⟩ := (mem_dirtyAncestors h hm').1 hm
    refine ⟨d, hd, m.id, (mem_ancestorsOf h).2 ⟨k, hk⟩, ?_⟩
    rw [← hmem]
    exact memberEntry_eq_some.2
      ⟨member, hrow, (by simpa using hid : m.id = member.mediaItemId).symm, rfl⟩
  · rintro ⟨d, hd, a, ha, he⟩
    obtain ⟨k, hk⟩ := (mem_ancestorsOf h).1 ha
    obtain ⟨m, hm, rfl⟩ := row_of_canonicalByItem he
    rw [← hmem] at he
    obtain ⟨member, hmember, hid, rfl⟩ := memberEntry_eq_some.1 he
    refine ⟨member, List.mem_filter.2 ⟨hmember, List.any_eq_true.2 ⟨m, ?_, by simp [hid]⟩⟩, rfl⟩
    exact (mem_dirtyAncestors h hm).2 ⟨d, hd, k, hk⟩

theorem mem_iterate_children {base : List MediaItem} (hbase : ∀ m ∈ base, m ∈ db.mediaItems.rows)
    {m : MediaItem} :
    m ∈ (fun level => level.flatMap fun t : MediaItem =>
        db.mediaItems.rows.filter (·.parentId == some t.id))^[k] base ↔
      m ∈ db.mediaItems.rows ∧ ∃ a ∈ base, above db.identityRows.parentOf k m.id = some a.id := by
  induction k generalizing m with
  | zero =>
    constructor
    · exact fun h => ⟨hbase m h, m, h, rfl⟩
    · rintro ⟨hm, a, ha, hid⟩
      rw [db.mediaItems.eq_of_key_eq hm (hbase a ha) (Option.some.inj hid)]; exact ha
  | succ k ih =>
    rw [Function.iterate_succ_apply', List.mem_flatMap]
    constructor
    · rintro ⟨t, ht, hm⟩
      obtain ⟨hm, hp⟩ := List.mem_filter.1 hm
      obtain ⟨-, a, ha, habove⟩ := ih.1 ht
      refine ⟨hm, a, ha, ?_⟩
      rw [above_succ, parentOf_of_mem hm, (by simpa using hp : m.parentId = some t.id)]
      exact habove
    · rintro ⟨hm, a, ha, habove⟩
      obtain ⟨p, hp, habove⟩ := Option.bind_eq_some_iff.1 habove
      obtain ⟨t, ht, rfl⟩ := row_of_above (hbase a ha) habove
      refine ⟨t, ih.2 ⟨ht, a, ha, habove⟩, List.mem_filter.2 ⟨hm, ?_⟩⟩
      rw [parentOf_of_mem hm] at hp
      simpa using hp

/-- Everything below a member of an impacted entry is in the tree. -/
theorem mem_activityTree {impacted : List Nat} (h : Shallow db.identityRows.parentOf 4)
    (hmem : db.MembersCurrent py) (he : db.canonicalByItem py a = some e) (hi : e ∈ impacted)
    (habove : above db.identityRows.parentOf k i = some a) :
    (db.activityTree impacted).contains i = true := by
  obtain ⟨ma, hma, rfl⟩ := row_of_canonicalByItem he
  obtain ⟨m, hm, rfl⟩ := row_of_above hma habove
  rw [List.contains_iff_mem]
  unfold activityTree
  rw [List.mem_eraseDups]
  refine List.mem_map.2 ⟨m, mem_recursiveRows.2 ⟨k, (h.lt habove).le, ?_⟩, rfl⟩
  refine (mem_iterate_children fun m hm => (List.mem_filter.1 hm).1).2 ⟨hm, ma, ?_, habove⟩
  refine List.mem_filter.2 ⟨hma, ?_⟩
  rw [hmem, he]
  simpa using hi

theorem refreshedEntryOf_eq_some {impacted : List Nat} (h : Shallow db.identityRows.parentOf 4)
    (hmem : db.MembersCurrent py) (hi : e ∈ impacted) :
    (within (db.activityTree impacted).contains db.memberEntry i).filter impacted.contains =
      some e ↔
      db.canonicalByItem py i = some e := by
  rw [Option.filter_eq_some_iff, within_eq_some, hmem]
  constructor
  · exact fun he => he.1.2
  · intro he
    exact ⟨⟨mem_activityTree h hmem he hi above_zero, he⟩, List.contains_iff_mem.2 hi⟩

/-- The walk of the refresh meets the same members of an impacted entry. -/
theorem mem_walkUp_activityTree {impacted : List Nat} (h : Shallow db.identityRows.parentOf 4)
    (hmem : db.MembersCurrent py) (he : db.canonicalByItem py a = some e) (hi : e ∈ impacted) :
    a ∈ walkUp (within (db.activityTree impacted).contains db.identityRows.parentOf) db.walkFuel []
    (some i) ↔
      a ∈ db.ancestorsOf i := by
  have hfuel : 4 ≤ db.walkFuel := Nat.le_add_left ..
  rw [mem_ancestorsOf h, mem_walkUp (h.mono within_le) hfuel]
  refine exists_congr fun k => ⟨above_mono within_le, fun ha => ?_⟩
  exact above_within (fun _ _ hj => mem_activityTree h hmem he hi hj) ha

theorem refreshedStats_eq (h : Shallow db.identityRows.parentOf 4) {impacted : List Nat}
    (hmem : db.MembersCurrent py) (hi : e ∈ impacted) :
    db.refreshedStats impacted (db.activityTree impacted) e =
      foldActivity (db.canonicalByItem py) db.ancestorsOf db.watchEvents.rows
        db.watchStates.rows e := by
  have htree : ∀ {i a}, db.canonicalByItem py a = some e → a ∈ db.ancestorsOf i →
      (db.activityTree impacted).contains i = true := by
    intro i a he ha
    obtain ⟨k, hk⟩ := (mem_ancestorsOf h).1 ha
    exact mem_activityTree h hmem he hi hk
  have hself : ∀ {i}, db.canonicalByItem py i = some e →
      (db.activityTree impacted).contains i = true :=
    fun he => mem_activityTree h hmem he hi above_zero
  refine foldActivity_congr ?_ ?_ fun t => exists_congr fun i => ?_
  · unfold entryEvents
    simp only [List.filter_filter, refreshedEntryOf_eq_some h hmem hi]
    refine List.filter_congr fun r _ => ?_
    by_cases hr : db.canonicalByItem py r.mediaItemId = some e
    · rw [hself hr, Bool.and_true]
    · simp [hr]
  · unfold entryStates
    simp only [List.filter_filter, refreshedEntryOf_eq_some h hmem hi]
    refine List.filter_congr fun r _ => ?_
    by_cases hr : db.canonicalByItem py r.mediaItemId = some e
    · rw [hself hr, Bool.and_true]
    · simp [hr]
  · rw [lookup_activityByItem_filter]
    constructor
    · rintro ⟨hl, a, ha, he⟩
      rw [refreshedEntryOf_eq_some h hmem hi] at he
      rw [mem_walkUp_activityTree h hmem he hi] at ha
      rw [if_pos (htree he ha)] at hl
      exact ⟨hl, a, ha, he⟩
    · rintro ⟨hl, a, ha, he⟩
      rw [if_pos (htree he ha)]
      exact ⟨hl, a, (mem_walkUp_activityTree h hmem he hi).2 ha,
        (refreshedEntryOf_eq_some h hmem hi).2 he⟩

/-! ### The episodes of a show entry -/

/-- The foreign key from references to sources. -/
def ReferencesHaveSources (db : Database) : Prop :=
  ∀ r ∈ db.sourceMediaRefs.rows, db.sources.contains r.sourceId = true

/-- The entry `x` has an available episode, and the show above the episode is a member of `e`. -/
def EpisodeBelow (py : PyLib) (db : Database) (e x : Nat) : Prop :=
  ∃ i, (∃ r ∈ db.sourceMediaRefs.rows, r.available = true ∧ r.mediaItemId = i) ∧
    db.identityRows.kindOf i = some .episode ∧
    (∃ s, ancestorOfKind .show db.identityRows.kindOf (db.ancestorsOf i) = some s ∧
      db.canonicalByItem py s = some e) ∧
    db.canonicalByItem py i = some x

theorem mem_childrenOf {showEntryOf episodeEntryOf : Nat → Option Nat}
    {episodes : List Nat} {x : Nat} :
    x ∈ childrenOf showEntryOf episodeEntryOf episodes e ↔
      ∃ i ∈ episodes, showEntryOf i = some e ∧ episodeEntryOf i = some x := by
  unfold childrenOf
  simp only [List.mem_eraseDups, List.mem_filterMap, List.mem_filter, decide_eq_true_eq, and_assoc]

theorem mem_availableReferences (hsrc : db.ReferencesHaveSources) :
    (∃ row ∈ db.availableReferences, row.1 = i) ↔
      ∃ r ∈ db.sourceMediaRefs.rows, r.available = true ∧ r.mediaItemId = i := by
  unfold availableReferences
  constructor
  · rintro ⟨row, hrow, rfl⟩
    obtain ⟨r, hr, hmap⟩ := List.mem_filterMap.1 hrow
    obtain ⟨source, -, rfl⟩ := Option.map_eq_some_iff.1 hmap
    exact ⟨r, (List.mem_filter.1 hr).1, (List.mem_filter.1 hr).2, rfl⟩
  · rintro ⟨r, hr, hav, rfl⟩
    obtain ⟨source, hsource⟩ := Option.isSome_iff_exists.1 (hsrc r hr)
    refine ⟨(r.mediaItemId, source.connectorType),
      List.mem_filterMap.2 ⟨r, List.mem_filter.2 ⟨hr, hav⟩, ?_⟩, rfl⟩
    rw [hsource]; rfl

theorem mem_rebuiltChildren (hsrc : db.ReferencesHaveSources) {x : Nat} :
    x ∈ db.rebuiltChildren py e ↔ db.EpisodeBelow py e x := by
  unfold rebuiltChildren EpisodeBelow
  rw [mem_childrenOf]
  refine exists_congr fun i => ?_
  rw [List.mem_filter, List.mem_eraseDups, List.mem_map, mem_availableReferences hsrc,
    decide_eq_true_eq,
    Option.bind_eq_some_iff, and_assoc]

/-- Above an episode of an impacted show entry the refresh finds the same show. -/
theorem ancestorOfKind_activityTree {impacted : List Nat} (h : Shallow db.identityRows.parentOf 4)
    (hmem : db.MembersCurrent py) {s : Nat} (he : db.canonicalByItem py s = some e)
    (hi : e ∈ impacted) :
    ancestorOfKind .show (within (db.activityTree impacted).contains db.identityRows.kindOf)
        (walkUp (within (db.activityTree impacted).contains db.identityRows.parentOf) db.walkFuel []
          (some i)) = some s ↔
      ancestorOfKind .show db.identityRows.kindOf (db.ancestorsOf i) = some s := by
  have hkind : (fun i =>
      decide (within (db.activityTree impacted).contains db.identityRows.kindOf i = some .show)) =
      fun i => (db.activityTree impacted).contains i &&
        decide (db.identityRows.kindOf i = some .show) := by
    funext i
    simp only [within_eq_some, Bool.decide_and, Bool.decide_eq_true]
  unfold ancestorOfKind ancestorsOf
  rw [hkind, walkUp_eq_lineage (h.mono within_le), walkUp_eq_lineage h]
  refine ⟨find?_lineage_of_within, fun hs => find?_lineage_within (fun m j hj => ?_) hs⟩
  exact mem_activityTree h hmem he hi hj

theorem mem_refreshedChildren (h : Shallow db.identityRows.parentOf 4) {impacted : List Nat}
    (hmem : db.MembersCurrent py) (hi : e ∈ impacted) {x : Nat} :
    x ∈ db.refreshedChildren impacted (db.activityTree impacted) e ↔ db.EpisodeBelow py e x := by
  unfold refreshedChildren EpisodeBelow
  rw [mem_childrenOf]
  refine exists_congr fun i => ?_
  rw [List.mem_eraseDups, List.mem_map, Option.filter_eq_some_iff, Option.bind_eq_some_iff,
    within_eq_some, hmem]
  simp only [List.mem_filter, Bool.and_eq_true, decide_eq_true_eq]
  constructor
  · rintro ⟨⟨r, ⟨hr, ⟨hav, -⟩, hk⟩, rfl⟩, ⟨⟨s, hs, hse⟩, -⟩, -, hx⟩
    rw [within_eq_some, hmem] at hse
    exact ⟨⟨r, hr, hav, rfl⟩, hk,
      ⟨s, (ancestorOfKind_activityTree h hmem hse.2 hi).1 hs, hse.2⟩, hx⟩
  · rintro ⟨⟨r, hr, hav, rfl⟩, hk, ⟨s, hs, hse⟩, hx⟩
    have hup : s ∈ db.ancestorsOf r.mediaItemId := List.mem_of_find?_eq_some hs
    obtain ⟨k, hk'⟩ := (mem_ancestorsOf h).1 hup
    have hrow := mem_activityTree h hmem hse hi hk'
    refine ⟨⟨r, ⟨hr, ⟨hav, hrow⟩, hk⟩, rfl⟩,
      ⟨⟨s, (ancestorOfKind_activityTree h hmem hse hi).2 hs, ?_⟩, ?_⟩,
      hrow, hx⟩
    · rw [within_eq_some, hmem]
      exact ⟨mem_activityTree h hmem hse hi above_zero, hse⟩
    · exact List.contains_iff_mem.2 hi

/-- Only an entry of kind show has episodes. -/
theorem EpisodeBelow.kindOf {x : Nat} (h : db.EpisodeBelow py e x) :
    db.identityRows.kindOf e = some .show := by
  obtain ⟨i, -, -, ⟨s, hs, hse⟩, -⟩ := h
  have hk : db.identityRows.kindOf s = some .show := by simpa using List.find?_some hs
  rw [← kindOf_canonicalByItem hse, hk]

end Database

end Euvieouvi
