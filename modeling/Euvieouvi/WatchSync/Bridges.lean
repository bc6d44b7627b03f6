import Euvieouvi.WatchSync.Groups

/-!
# Items between two files

Two items with different files are kept apart when they share an identifier. An item without files
conflicts with neither, so it joins both when it is the first of the identifier, and one of them
when it is not: the groups then depend on the order of the rows. `groups_follow_files_iff` says that
this is the only way in which they do, and the only way in which two files come into one group.
-/

namespace Euvieouvi

namespace Database
variable (db : Database) (items : List Nat)

/-- The database with the rows of files and of identifiers in another order. -/
structure Reordered (db db' : Database) : Prop where
  files : db'.mediaFilePaths.rows.Perm db.mediaFilePaths.rows
  identifiers : db'.mediaIdentifiers.rows.Perm db.mediaIdentifiers.rows
  rest : db' =
    { db with mediaFilePaths := db'.mediaFilePaths, mediaIdentifiers := db'.mediaIdentifiers }

/-- Two items of the scan, of one kind, have an available file in common. -/
def SharesFile (i j : Nat) : Prop :=
  i ∈ items ∧ j ∈ items ∧
    (∃ kind, db.identityRows.kindOf i = some kind ∧ db.identityRows.kindOf j = some kind) ∧
    ∃ key ∈ db.identityRows.pathsOf i, key ∈ db.identityRows.pathsOf j

/-- Two items of the scan, of one kind that is synchronized, have an identifier in common. -/
def SharesIdentifier (i j : Nat) : Prop :=
  ∃ r ∈ db.identifierPairs items, ∃ r' ∈ db.identifierPairs items, ∃ key,
    db.identifierKeyOf r = some key ∧ db.identifierKeyOf r' = some key ∧ r.mediaItemId = i ∧
      r'.mediaItemId = j

/-- A chain of items, each with a file of the one before. -/
def ConnectedByFiles : Nat → Nat → Prop := Relation.EqvGen (db.SharesFile items)

/-- Two items have a file in common, or an identifier while one of them has no files. -/
def Bridges (i j : Nat) : Prop :=
  db.SharesFile items i j ∨
    db.SharesIdentifier items i j ∧
      (db.identityRows.pathsOf i = [] ∨ db.identityRows.pathsOf j = [])

/-- The items are in one group. -/
def Together (i j : Nat) : Prop := ∃ g ∈ db.matchingItemGroups items, i ∈ g ∧ j ∈ g

/-- Items with files are in one group only if a chain of files connects them, and the groups are the
same, in whatever order the rows come. -/
structure FollowsFiles : Prop where
  connected : ∀ db', db.Reordered db' → ∀ i j, db'.Together items i j →
    db.identityRows.pathsOf i ≠ [] →
    db.identityRows.pathsOf j ≠ [] → db.ConnectedByFiles items i j
  ordered : ∀ db', db.Reordered db' → ∀ i j, db'.Together items i j ↔ db.Together items i j

/-- No two files are connected by items without files. -/
def Unbridged : Prop :=
  ∀ i j, db.syncable i = true → i ∈ items → db.identityRows.pathsOf i ≠ [] →
    db.identityRows.pathsOf j ≠ [] →
    Relation.EqvGen (db.Bridges items) i j → db.ConnectedByFiles items i j

section Classes
variable {db db' : Database} {items : List Nat} {i j : Nat}

theorem mem_pathsOf_iff {key : String} : key ∈ db.identityRows.pathsOf i ↔
    ∃ f ∈ db.mediaFilePaths.rows, ∃ r, db.sourceMediaRefs.get? f.referenceId = some r ∧
    r.available = true ∧
      r.mediaItemId = i ∧ f.pathKey = key := by
  unfold IdentityRows.pathsOf
  rw [List.mem_eraseDups, List.mem_flatMap]
  constructor
  · rintro ⟨r, hr, hkey⟩
    obtain ⟨hr, hcond⟩ := List.mem_filter.1 hr
    obtain ⟨f, hf, rfl⟩ := List.mem_map.1 hkey
    obtain ⟨hf, href⟩ := List.mem_filter.1 hf
    obtain ⟨hitem, havailable⟩ := Bool.and_eq_true_iff.1 hcond
    exact ⟨f, hf, r, Table.get?_eq_some.2 ⟨hr, (beq_iff_eq.1 href).symm⟩, havailable,
      beq_iff_eq.1 hitem, rfl⟩
  · rintro ⟨f, hf, r, hr, havailable, rfl, rfl⟩
    obtain ⟨hr, href⟩ := Table.get?_eq_some.1 hr
    exact ⟨r, List.mem_filter.2 ⟨hr, by simp [havailable]⟩,
      List.mem_map_of_mem (List.mem_filter.2 ⟨hf, beq_iff_eq.2 href.symm⟩)⟩

theorem mem_pathRows_iff {key : String} : (i, key) ∈ db.pathRows items ↔ i ∈ items ∧
    key ∈ db.identityRows.pathsOf i := by
  rw [mem_pathsOf_iff]
  constructor
  · intro h
    obtain ⟨f, hf, r, hr, havailable, hmem, heq⟩ := mem_pathRows h
    obtain ⟨rfl, rfl⟩ := Prod.mk.inj heq
    exact ⟨hmem, f, hf, r, hr, havailable, rfl, rfl⟩
  · rintro ⟨hmem, f, hf, r, hr, havailable, rfl, rfl⟩
    refine List.mem_filterMap.2 ⟨f, hf, ?_⟩
    rw [hr]
    simp [havailable, hmem]

theorem conflictingFiles_eq_false : db.conflictingFiles i j = false ↔
    db.identityRows.pathsOf i = [] ∨ db.identityRows.pathsOf j = [] ∨
      ∃ key ∈ db.identityRows.pathsOf i, key ∈ db.identityRows.pathsOf j := by
  unfold conflictingFiles
  rw [decide_eq_false_iff_not, not_and_or, not_and_or, not_not, not_not, not_not]

theorem SharesIdentifier.symm (h : db.SharesIdentifier items i j) :
    db.SharesIdentifier items j i := by
  obtain ⟨r, hr, r', hr', key, hkey, hkey', hi, hj⟩ := h
  exact ⟨r', hr', r, hr, key, hkey', hkey, hj, hi⟩

theorem mem_of_identifierKeyOf {r : MediaIdentifier} {key : MediaKind × String × String}
    (hr : r ∈ db.identifierPairs items) (hkey : db.identifierKeyOf r = some key) :
    r.mediaItemId ∈ items ∧ db.identityRows.kindOf r.mediaItemId = some key.1 ∧
    isSyncableKind key.1 = true := by
  obtain ⟨kind, hkind, rfl⟩ := Option.map_eq_some_iff.1 hkey
  obtain ⟨hkind, hsyncable⟩ := Option.filter_eq_some_iff.1 hkind
  have hmem := (Bool.and_eq_true_iff.1 (List.mem_filter.1 hr).2).1
  exact ⟨by simpa using hmem, hkind, hsyncable⟩

theorem same_paths_within {x y : Nat}
    (h : ((db.pathRows items).foldl db.joinPath (.singletons, .empty)).1.Same x y) :
    db.ConnectedByFiles items x y := by
  refine foldl_joinRow_within (fun u x y => (UnionFind.attach_joins u y x).symm)
    (List.Subset.refl _) ?_ ?_ ?_ h
  · rintro ⟨i, path⟩ hi ⟨j, path'⟩ hj k hk hk' -
    obtain ⟨kind, hkind, rfl⟩ := Option.map_eq_some_iff.1 hk
    obtain ⟨kind', hkind', heq⟩ := Option.map_eq_some_iff.1 hk'
    obtain ⟨rfl, rfl⟩ := Prod.mk.inj heq
    obtain ⟨hmem, hpath⟩ := mem_pathRows_iff.1 hi
    obtain ⟨hmem', hpath'⟩ := mem_pathRows_iff.1 hj
    exact .rel _ _ ⟨hmem, hmem', ⟨_, hkind, hkind'⟩, _, hpath, hpath'⟩
  · intro x y hxy
    obtain rfl : x = y := hxy
    exact .refl _
  · intro k o ho
    cases ho

theorem same_within {x y : Nat} (h : (db.matchingClasses items).Same x y) :
    Relation.EqvGen (db.Bridges items) x y := by
  refine foldl_joinRow_within (fun u x y => UnionFind.attach_joins u x y)
    (List.Subset.refl _) ?_ ?_ ?_ h
  · intro r hr r' hr' key hkey hkey' hconflict
    have hshares : db.SharesIdentifier items r.mediaItemId r'.mediaItemId :=
      ⟨r, hr, r', hr', key, hkey, hkey', rfl, rfl⟩
    obtain ⟨hmem, hkind, -⟩ := mem_of_identifierKeyOf hr hkey
    obtain ⟨hmem', hkind', -⟩ := mem_of_identifierKeyOf hr' hkey'
    rcases conflictingFiles_eq_false.1 hconflict with hnone | hnone | hpath
    · exact .rel _ _ (.inr ⟨hshares, .inl hnone⟩)
    · exact .rel _ _ (.inr ⟨hshares, .inr hnone⟩)
    · exact .rel _ _ (.inl ⟨hmem, hmem', ⟨_, hkind, hkind'⟩, hpath⟩)
  · exact fun x y hxy => (same_paths_within hxy).mono fun _ _ => .inl
  · intro k o ho
    cases ho

theorem same_of_connected {x y : Nat} (h : db.ConnectedByFiles items x y) :
    (db.matchingClasses items).Same x y := by
  induction h with
  | rel x y hxy =>
    obtain ⟨hx, hy, ⟨kind, hkind, hkind'⟩, key, hkey, hkey'⟩ := hxy
    refine same_foldl_joinRow (fun u x y => UnionFind.attach_joins u x y) ?_
    have hrow := mem_pathRows_iff.2 ⟨hx, hkey⟩
    have hrow' := mem_pathRows_iff.2 ⟨hy, hkey'⟩
    have hpath : db.pathKeyOf (x, key) = some (kind, key) := by unfold pathKeyOf; rw [hkind]; rfl
    have hpath' : db.pathKeyOf (y, key) = some (kind, key) := by unfold pathKeyOf; rw [hkind']; rfl
    have hattach : ∀ (u : UnionFind Nat) (x y : Nat), UnionFind.Joins x y u (u.attach y x) :=
      fun u x y => (UnionFind.attach_joins u y x).symm
    obtain ⟨r, -, howner⟩ : ∃ r : Nat × String,
      (db.pathRows items).find? (fun r => db.pathKeyOf r = some (kind, key)) = some r ∧
        ((db.pathRows items).foldl db.joinPath (.singletons, .empty)).2.lookup
          (kind, key) = some r.1 :=
      exists_owner hrow hpath rfl
    have hleft := same_owner hattach hrow hpath howner rfl
    exact hleft.symm.trans (same_owner hattach hrow' hpath' howner rfl)
  | refl x => rfl
  | symm x y _ ih => exact ih.symm
  | trans x y z _ _ ih ih' => exact ih.trans ih'

/-- The first item of an identifier. -/
theorem exists_identifier_owner {r : MediaIdentifier} {key : MediaKind × String × String}
    (hr : r ∈ db.identifierPairs items) (hkey : db.identifierKeyOf r = some key) :
    ∃ first, (db.identifierPairs items).find? (fun r => db.identifierKeyOf r = some key) =
      some first ∧
      ∀ r ∈ db.identifierPairs items, db.identifierKeyOf r = some key →
        db.conflictingFiles first.mediaItemId r.mediaItemId = false →
        (db.matchingClasses items).Same first.mediaItemId r.mediaItemId := by
  obtain ⟨first, hfirst, howner⟩ : ∃ first : MediaIdentifier,
      (db.identifierPairs items).find? (fun r => db.identifierKeyOf r = some key) = some first ∧
      ((db.identifierPairs items).foldl db.joinIdentifier
        (((db.pathRows items).foldl db.joinPath (.singletons, .empty)).1, .empty)).2.lookup key =
          some first.mediaItemId :=
    exists_owner hr hkey rfl
  exact ⟨first, hfirst, fun r hr hkey hconflict =>
    same_owner (fun u x y => UnionFind.attach_joins u x y) hr hkey howner hconflict⟩

/-- Where the first item of an identifier has no files, or no bridge leads to other files, the
bridges are joined. -/
theorem same_of_bridges
    (h : ∀ r ∈ db.identifierPairs items, ∀ key, db.identifierKeyOf r = some key →
      db.identityRows.pathsOf r.mediaItemId = [] →
      ∀ first, (db.identifierPairs items).find? (fun r => db.identifierKeyOf r = some key) =
        some first →
        db.identityRows.pathsOf first.mediaItemId = [] ∨
        ∀ j, db.identityRows.pathsOf j ≠ [] →
        Relation.EqvGen (db.Bridges items) first.mediaItemId j →
          db.ConnectedByFiles items first.mediaItemId j)
    {x y : Nat} (hxy : Relation.EqvGen (db.Bridges items) x y) :
    (db.matchingClasses items).Same x y := by
  have hone : ∀ i j, db.SharesIdentifier items i j → db.identityRows.pathsOf i = [] →
      (db.matchingClasses items).Same i j := by
    rintro i j ⟨r, hr, r', hr', key, hkey, hkey', rfl, rfl⟩ hnone
    obtain ⟨first, hfirst, hjoined⟩ := exists_identifier_owner hr hkey
    have hleft := hjoined r hr hkey (conflictingFiles_eq_false.2 (.inr (.inl hnone)))
    refine hleft.symm.trans ?_
    rcases h r hr key hkey hnone first hfirst with hblank | hfiles
    · exact hjoined r' hr' hkey' (conflictingFiles_eq_false.2 (.inl hblank))
    · by_cases hpaths : db.identityRows.pathsOf r'.mediaItemId = []
      · exact hjoined r' hr' hkey' (conflictingFiles_eq_false.2 (.inr (.inl hpaths)))
      · refine same_of_connected (hfiles _ hpaths ?_)
        have hfirstKey : db.identifierKeyOf first = some key := by
          simpa using List.find?_some hfirst
        have hfirstRow := List.mem_of_find?_eq_some hfirst
        have hto : db.Bridges items first.mediaItemId r.mediaItemId :=
          .inr ⟨⟨first, hfirstRow, r, hr, key, hfirstKey, hkey, rfl, rfl⟩, .inr hnone⟩
        have hfrom : db.Bridges items r.mediaItemId r'.mediaItemId :=
          .inr ⟨⟨r, hr, r', hr', key, hkey, hkey', rfl, rfl⟩, .inl hnone⟩
        exact (Relation.EqvGen.rel _ _ hto).trans _ _ _ (.rel _ _ hfrom)
  induction hxy with
  | rel x y hxy =>
    rcases hxy with hfile | ⟨hshares, hnone | hnone⟩
    · exact same_of_connected (.rel _ _ hfile)
    · exact hone x y hshares hnone
    · exact (hone y x hshares.symm hnone).symm
  | refl x => rfl
  | symm x y _ ih => exact ih.symm
  | trans x y z _ _ ih ih' => exact ih.trans ih'

theorem together_iff : db.Together items i j ↔
    i ∈ items.filter db.syncable ∧ j ∈ items.filter db.syncable ∧
    (db.matchingClasses items).Same i j := by
  constructor
  · rintro ⟨g, hg, hi, hj⟩
    obtain ⟨k, -, rfl⟩ := matchingItemGroups_eq_filter hg
    obtain ⟨hi, hik⟩ := List.mem_filter.1 hi
    obtain ⟨hj, hjk⟩ := List.mem_filter.1 hj
    exact ⟨hi, hj, (of_decide_eq_true hik).trans (of_decide_eq_true hjk).symm⟩
  · rintro ⟨hi, hj, hsame⟩
    exact ⟨_, exists_matchingItemGroup hi, List.mem_filter.2 ⟨hi, decide_eq_true rfl⟩,
      List.mem_filter.2 ⟨hj, decide_eq_true hsame.symm⟩⟩

/-- No bridge leaves the items that are synchronized. -/
theorem mem_of_bridges (h : Relation.EqvGen (db.Bridges items) i j) :
    i ∈ items.filter db.syncable ↔ j ∈ items.filter db.syncable := by
  induction h with
  | rel i j hij =>
    rw [List.mem_filter, List.mem_filter]
    unfold syncable
    rcases hij with ⟨hi, hj,
      ⟨kind, hkind, hkind'⟩, -⟩ | ⟨⟨r, hr, r', hr', key, hkey, hkey', rfl, rfl⟩, -⟩
    · rw [hkind, hkind']
      exact and_congr_left' (iff_of_true hi hj)
    · obtain ⟨hi, hkind, -⟩ := mem_of_identifierKeyOf hr hkey
      obtain ⟨hj, hkind', -⟩ := mem_of_identifierKeyOf hr' hkey'
      rw [hkind, hkind']
      exact and_congr_left' (iff_of_true hi hj)
  | refl i => rfl
  | symm i j _ ih => exact ih.symm
  | trans i j k _ _ ih ih' => exact ih.trans ih'

/-! ### Another order -/

theorem Reordered.mem_pathsOf (h : db.Reordered db') {key : String} :
    key ∈ db'.identityRows.pathsOf i ↔ key ∈ db.identityRows.pathsOf i := by
  have hrefs : db'.sourceMediaRefs = db.sourceMediaRefs := by rw [h.rest]
  rw [mem_pathsOf_iff, mem_pathsOf_iff, hrefs]
  simp only [h.files.mem_iff]

theorem Reordered.pathsOf_eq_nil (h : db.Reordered db') :
    db'.identityRows.pathsOf i = [] ↔ db.identityRows.pathsOf i = [] := by
  rw [List.eq_nil_iff_forall_not_mem, List.eq_nil_iff_forall_not_mem]
  simp only [h.mem_pathsOf]

theorem Reordered.kindOf (h : db.Reordered db') :
    db'.identityRows.kindOf i = db.identityRows.kindOf i := by
  rw [h.rest]
  rfl

theorem Reordered.identifierKeyOf (h : db.Reordered db') (r : MediaIdentifier) :
    db'.identifierKeyOf r = db.identifierKeyOf r := by
  unfold Database.identifierKeyOf
  rw [h.kindOf]

theorem Reordered.syncable (h : db.Reordered db') : db'.syncable = db.syncable := by
  funext i
  unfold Database.syncable
  rw [h.kindOf]

theorem Reordered.identifierPairs (h : db.Reordered db') :
    (db'.identifierPairs items).Perm (db.identifierPairs items) :=
  h.identifiers.filter _

theorem Reordered.sharesFile (h : db.Reordered db') :
    db'.SharesFile items = db.SharesFile items := by
  funext i j
  unfold SharesFile
  simp only [h.kindOf, h.mem_pathsOf]

theorem Reordered.bridges (h : db.Reordered db') : db'.Bridges items = db.Bridges items := by
  funext i j
  unfold Bridges SharesIdentifier
  simp only [h.sharesFile, h.identifierPairs.mem_iff, h.identifierKeyOf, h.pathsOf_eq_nil]

theorem Reordered.unbridged (h : db.Reordered db') (hdb : db.Unbridged items) :
    db'.Unbridged items := by
  unfold Unbridged ConnectedByFiles at hdb ⊢
  intro i j hi
  rw [h.bridges, h.sharesFile]
  simp only [ne_eq, h.pathsOf_eq_nil]
  exact hdb i j (h.syncable ▸ hi)

/-- Without bridges, the classes of any order are the chains of files and of identifiers of an item
without files. -/
theorem Unbridged.same_iff (h : db.Unbridged items) {x y : Nat} :
    (db.matchingClasses items).Same x y ↔ Relation.EqvGen (db.Bridges items) x y := by
  refine ⟨same_within, same_of_bridges fun r hr key hkey hnone first hfirst => ?_⟩
  by_cases hpaths : db.identityRows.pathsOf first.mediaItemId = []
  · exact .inl hpaths
  · have hfirstKey : db.identifierKeyOf first = some key := by simpa using List.find?_some hfirst
    obtain ⟨hmem, hkind, hsyncable⟩ :=
      mem_of_identifierKeyOf (List.mem_of_find?_eq_some hfirst) hfirstKey
    refine .inr fun j hj => h first.mediaItemId j ?_ hmem hpaths hj
    unfold Database.syncable
    rw [hkind]
    exact hsyncable

end Classes

section Blanks
variable {db db' : Database} {items : List Nat}

/-- The item of the row has no files. -/
def blank (db : Database) (r : MediaIdentifier) : Bool := db.identityRows.pathsOf r.mediaItemId = []

/-- The identifiers of items without files come first. -/
def blanksFirst (db : Database) : Database :=
  { db with
    mediaIdentifiers := ⟨db.mediaIdentifiers.rows.filter db.blank ++ db.mediaIdentifiers.rows.filter
      (!db.blank ·),
    ((List.filter_append_perm db.blank db.mediaIdentifiers.rows).map MediaIdentifier.id).nodup_iff.2
      db.mediaIdentifiers.nodup⟩ }

theorem blanksFirst_reordered (db : Database) : db.Reordered db.blanksFirst :=
  ⟨.refl _, List.filter_append_perm db.blank db.mediaIdentifiers.rows, rfl⟩

/-- Then every bridge is joined. -/
theorem same_blanksFirst {x y : Nat} (h : Relation.EqvGen (db.Bridges items) x y) :
    (db.blanksFirst.matchingClasses items).Same x y := by
  have hreordered := db.blanksFirst_reordered
  rw [← hreordered.bridges] at h
  refine same_of_bridges (fun r hr key hkey hnone first hfirst => .inl ?_) h
  have hpairs : db.blanksFirst.identifierPairs items =
      (db.identifierPairs items).filter db.blank ++ (db.identifierPairs items).filter
        (!db.blank ·) := by
    unfold identifierPairs
    rw [List.filter_filter, List.filter_filter]
    show List.filter _ (_ ++ _) = _
    rw [List.filter_append, List.filter_filter, List.filter_filter]
    simp only [Bool.and_comm]
  have hblank : r ∈ (db.identifierPairs items).filter db.blank := by
    rw [hpairs, List.mem_append] at hr
    refine hr.resolve_right fun hr => ?_
    have hnone := hreordered.pathsOf_eq_nil.1 hnone
    have hneg := (List.mem_filter.1 hr).2
    unfold blank at hneg
    rw [decide_eq_true hnone] at hneg
    cases hneg
  rw [hpairs, List.find?_append] at hfirst
  have hsome : (((db.identifierPairs items).filter db.blank).find? fun r =>
      db.blanksFirst.identifierKeyOf r = some key).isSome = true :=
    List.find?_isSome.2 ⟨r, hblank, decide_eq_true hkey⟩
  obtain ⟨first', hfirst'⟩ := Option.isSome_iff_exists.1 hsome
  rw [hfirst', Option.some_or] at hfirst
  obtain rfl := Option.some.inj hfirst
  have hmem := (List.mem_filter.1 (List.mem_of_find?_eq_some hfirst')).2
  exact hreordered.pathsOf_eq_nil.2 (of_decide_eq_true hmem)

/-- Files decide the groups in every order of the rows exactly when no item without files bridges
two of them. -/
theorem groups_follow_files_iff (db : Database) (items : List Nat) :
    db.FollowsFiles items ↔ db.Unbridged items := by
  constructor
  · intro h i j hi hmem hpaths hpaths' hbridges
    have hi : i ∈ items.filter db.syncable := List.mem_filter.2 ⟨hmem, hi⟩
    refine h.connected db.blanksFirst db.blanksFirst_reordered i j
      (together_iff.2 ?_) hpaths hpaths'
    rw [db.blanksFirst_reordered.syncable]
    exact ⟨hi, (mem_of_bridges hbridges).1 hi, same_blanksFirst hbridges⟩
  · intro h
    refine ⟨fun db' hdb' i j htogether hi hj => ?_, fun db' hdb' i j => ?_⟩
    · obtain ⟨himem, hjmem, hsame⟩ := together_iff.1 htogether
      obtain ⟨hmem, hsyncable⟩ := List.mem_filter.1 himem
      rw [(hdb'.unbridged h).same_iff, hdb'.bridges] at hsame
      exact h i j (hdb'.syncable ▸ hsyncable) hmem hi hj hsame
    · rw [together_iff, together_iff, (hdb'.unbridged h).same_iff, h.same_iff, hdb'.bridges,
        hdb'.syncable]

/-- Two movies with different files and one without, all with the same identifier, which the last
row gives to the third. -/
def bridgedMovies : Database :=
  { Database.empty with
    mediaItems :=
      ⟨[{ id := 1, kind := .movie, title := "A" }, { id := 2, kind := .movie, title := "B" },
      { id := 3, kind := .movie, title := "C" }], by decide⟩
    sourceMediaRefs :=
      ⟨[{ id := 1, mediaItemId := 1, sourceId := 1, libraryId := 1, externalId := "a" },
      { id := 2, mediaItemId := 2, sourceId := 2, libraryId := 2, externalId := "b" }], by decide⟩
    mediaFilePaths := ⟨[{ id := 1, referenceId := 1, pathKey := "/a.mkv" },
      { id := 2, referenceId := 2, pathKey := "/b.mkv" }], by decide⟩
    mediaIdentifiers := ⟨[{ id := 1, mediaItemId := 1, provider := "tmdb", externalId := "1" },
      { id := 2, mediaItemId := 2, provider := "tmdb", externalId := "1" },
      { id := 3, mediaItemId := 3, provider := "tmdb", externalId := "1" }], by decide⟩ }

/-- As stored, the files stay apart; with the rows of the third movie first they come together. -/
theorem bridged_by_order : bridgedMovies.matchingItemGroups [1, 2, 3] = [[1, 3], [2]] ∧
    bridgedMovies.blanksFirst.matchingItemGroups [1, 2, 3] = [[1, 2, 3]] ∧
    ¬ bridgedMovies.FollowsFiles [1, 2, 3] := by
  have hstored : bridgedMovies.matchingItemGroups [1, 2, 3] = [[1, 3], [2]] := by decide +kernel
  have hblanks : bridgedMovies.blanksFirst.matchingItemGroups [1, 2, 3] = [[1, 2, 3]] := by
    decide +kernel
  refine ⟨hstored, hblanks, fun h => ?_⟩
  have htogether : bridgedMovies.blanksFirst.Together [1, 2, 3] 1 2 :=
    ⟨[1, 2, 3], by rw [hblanks]; decide, by decide, by decide⟩
  obtain ⟨g, hg, hfirst, hsecond⟩ :=
    (h.ordered _ bridgedMovies.blanksFirst_reordered 1 2).1 htogether
  rw [hstored] at hg
  rcases List.mem_cons.1 hg with rfl | hg
  · exact absurd hsecond (by decide)
  · obtain rfl := List.mem_singleton.1 hg
    exact absurd hfirst (by decide)

end Blanks

end Database

end Euvieouvi
