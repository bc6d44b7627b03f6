import Euvieouvi.Lib.ParentMaps
import Euvieouvi.Sync.StatementSizes

/-!
# Matching items, statement by statement

`_matching_item_groups` (`sync/watch_sync.py`) as it runs on its dictionaries: the parents of the
items, their files, the owners of the paths and of the identifiers, and the groups. The rows are
what the database has, in the order in which it gives them; each query keeps those of its batch. A
row does to the parents what `joinRow` does to a union-find (`matchPath_follows`,
`matchIdentifier_follows`), so every call ends, and the groups are the classes of the items that are
synced (`matchingRun_groups`).
-/

namespace Euvieouvi

/-- A file of a reference, with the item of the reference. -/
structure PathRow where
  mediaItemId : Nat
  available : Bool
  pathKey : String
deriving DecidableEq, Repr

/-- The dictionaries of `_matching_item_groups`. -/
structure MatchingState where
  parents : Dict Nat Nat
  physical : Dict Nat (List String) := .empty
  pathOwners : Dict (MediaKind × String) Nat := .empty
  identifiers : Dict (MediaKind × String × String) Nat := .empty

namespace MatchingRun
open ParentMap

/-- `SourceMediaRef.media_item_id.in_(batch), SourceMediaRef.available.is_(True)`. -/
def pathBatch (paths : List PathRow) (batch : List Nat) : List (Nat × String) :=
  (paths.filter fun r => batch.contains r.mediaItemId && r.available).map fun r =>
    (r.mediaItemId, r.pathKey)

def identifierBatch (identifiers : List MediaIdentifier) (batch : List Nat) :
    List MediaIdentifier :=
  identifiers.filter fun r => batch.contains r.mediaItemId && identityProviders.contains r.provider

/-- Both items have files, and none in common. -/
def conflicting (physical : Dict Nat (List String)) (existing i : Nat) : Bool :=
  match physical.lookup existing, physical.lookup i with
  | some keys, some keys' =>
    !keys.isEmpty && !keys'.isEmpty && !keys.any fun key => keys'.contains key
  | _, _ => false

variable (fuel : Nat) (kinds : Dict Nat MediaKind)

/-- A row of the first loop: `parents[find(media_id)] = find(owner)`, the right side first. -/
def matchPath (s : MatchingState) (row : Nat × String) : Option MatchingState :=
  let physical := s.physical.upsert row.1 fun keys => (keys.getD []).insert row.2
  (kinds.lookup row.1).bind fun physicalKind =>
    let (owner, pathOwners) := s.pathOwners.setDefault (physicalKind, row.2) row.1
    (halveLoop fuel s.parents owner).bind fun (target, parents) =>
      (halveLoop fuel parents row.1).bind fun (moved, parents) =>
        some { s with parents := parents.set moved target, physical, pathOwners }

/-- A row of the second loop. -/
def matchIdentifier (s : MatchingState) (row : MediaIdentifier) : Option MatchingState :=
  match (kinds.lookup row.mediaItemId).filter isSyncableKind with
  | none => some s
  | some kind =>
    let (existing, identifiers) :=
      s.identifiers.setDefault (kind, row.provider, row.externalId) row.mediaItemId
    -- Shared libraries: conflicting physical files outweigh reused or incorrect ids.
    if conflicting s.physical existing row.mediaItemId then some { s with identifiers }
    else
      (halveLoop fuel s.parents row.mediaItemId).bind fun (left, parents) =>
        (halveLoop fuel parents existing).bind fun (right, parents) =>
          some { s with
            parents := if left ≠ right then parents.set right left else parents, identifiers }

def syncable (kinds : Dict Nat MediaKind) (i : Nat) : Bool := (kinds.lookup i).any isSyncableKind

/-- `groups.setdefault(find(media_item_id), set()).add(media_item_id)`. -/
def collectItem (s : Dict Nat Nat × Dict Nat (List Nat)) (i : Nat) :
    Option (Dict Nat Nat × Dict Nat (List Nat)) :=
  if syncable kinds i then
    (halveLoop fuel s.1 i).bind fun (root, parents) =>
      some (parents, s.2.upsert root fun group => (group.getD []).insert i)
  else some s

def pathRows (paths : List PathRow) (itemIds : List Nat) : List (Nat × String) :=
  (batches queryBatchSize itemIds).flatMap (pathBatch paths)

def identifierRows (identifiers : List MediaIdentifier) (itemIds : List Nat) :
    List MediaIdentifier :=
  (batches queryBatchSize itemIds).flatMap (identifierBatch identifiers)

/-- `_matching_item_groups`. -/
def matchingItemGroups (itemIds : List Nat) (paths : List PathRow)
    (identifiers : List MediaIdentifier) :
    Option (List (List Nat)) :=
  ((pathRows paths itemIds).foldlM (matchPath fuel kinds) { parents := ofValues itemIds }).bind
    fun s =>
  ((identifierRows identifiers itemIds).foldlM (matchIdentifier fuel kinds) s).bind fun s =>
  (itemIds.foldlM (collectItem fuel kinds) (s.parents, .empty)).bind fun s =>
    some (s.2.rows.map Prod.snd)

/-! ### The classes behind the dictionaries -/

variable {fuel kinds}

def pathKey (kinds : Dict Nat MediaKind) (row : Nat × String) : Option (MediaKind × String) :=
  (kinds.lookup row.1).map fun kind => (kind, row.2)

def identifierKey (kinds : Dict Nat MediaKind) (row : MediaIdentifier) :
    Option (MediaKind × String × String) :=
  ((kinds.lookup row.mediaItemId).filter isSyncableKind).map fun kind =>
    (kind, row.provider, row.externalId)

def joinPath (kinds : Dict Nat MediaKind) :=
  joinRow (pathKey kinds) Prod.fst (fun _ _ => false) fun (u : UnionFind Nat) owner i =>
    u.attach i owner

def joinIdentifier (kinds : Dict Nat MediaKind) (physical : Dict Nat (List String)) :=
  joinRow (identifierKey kinds) MediaIdentifier.mediaItemId (conflicting physical) UnionFind.attach

/-- The dictionary of parents holds the union-find, and the owners are items. -/
structure Follows {κ : Type} [DecidableEq κ] (itemIds : List Nat) (parents : Dict Nat Nat)
    (t : UnionFind Nat × Dict κ Nat) :
    Prop where
  holds : Holds itemIds parents t.1
  owners : ∀ k o, t.2.lookup k = some o → o ∈ itemIds

section Follows
variable {κ ρ : Type} [DecidableEq κ] {itemIds : List Nat} {t : UnionFind Nat × Dict κ Nat}
  {s : MatchingState} {n : Nat}

theorem owners_joinRow {key : ρ → Option κ} {item : ρ → Nat} {conflict : Nat → Nat → Bool}
    {attach : UnionFind Nat → Nat → Nat → UnionFind Nat} {row : ρ}
    (h : ∀ k o, t.2.lookup k = some o → o ∈ itemIds) (hrow : item row ∈ itemIds) :
    ∀ k o, (joinRow key item conflict attach t row).2.lookup k = some o → o ∈ itemIds := by
  intro k o ho
  rw [lookup_joinRow] at ho
  rcases Option.or_eq_some_iff.1 ho with ho | ⟨-, ho⟩
  · exact h k o ho
  · split at ho
    next => exact Option.some.inj ho ▸ hrow
    next => cases ho

theorem setDefault_mem {owners : Dict κ Nat} (h : ∀ k o, owners.lookup k = some o → o ∈ itemIds)
    {i : Nat} (hi : i ∈ itemIds) (k : κ) : (owners.setDefault k i).1 ∈ itemIds := by
  rw [Dict.setDefault_fst]
  cases hk : owners.lookup k with
  | none => exact hi
  | some o => exact h k o hk

theorem matchPath_follows {u : UnionFind Nat} {row : Nat × String}
    (h : Follows itemIds s.parents (u, s.pathOwners))
    (hrow : row.1 ∈ itemIds) (hkind : (kinds.lookup row.1).isSome = true) (hn : u.height < n) :
    ∃ s', matchPath n kinds s row = some s' ∧ s'.identifiers = s.identifiers ∧
      (joinPath kinds (u, s.pathOwners) row).2 = s'.pathOwners ∧
      Follows itemIds s'.parents (joinPath kinds (u, s.pathOwners) row) := by
  obtain ⟨kind, hkind⟩ := Option.isSome_iff_exists.1 hkind
  set found := s.pathOwners.setDefault (kind, row.2) row.1 with hfound
  have howner : found.1 ∈ itemIds := setDefault_mem h.owners hrow _
  obtain ⟨first, second, hfirst, hsecond, hholds, -⟩ := h.holds.attach hrow howner hn
  have hjoin : joinPath kinds (u, s.pathOwners) row = (u.attach row.1 found.1, found.2) := by
    unfold joinPath joinRow pathKey
    rw [hkind]
    rfl
  refine ⟨{ s with
    parents := second.set (u.root row.1) (u.root found.1)
    physical := s.physical.upsert row.1 fun keys => (keys.getD []).insert row.2
    pathOwners := found.2 }, ?_, rfl, by rw [hjoin], ?_, owners_joinRow h.owners hrow⟩
  · simp only [matchPath, hkind, Option.bind_some, ← hfound, hfirst, hsecond]
  · rw [hjoin]; exact hholds

theorem matchIdentifier_follows (kinds : Dict Nat MediaKind) {u : UnionFind Nat}
    {row : MediaIdentifier} (h : Follows itemIds s.parents (u, s.identifiers))
    (hrow : row.mediaItemId ∈ itemIds) (hn : u.height < n) :
    ∃ s', matchIdentifier n kinds s row = some s' ∧ s'.physical = s.physical ∧
      (joinIdentifier kinds s.physical (u, s.identifiers) row).2 = s'.identifiers ∧
      Follows itemIds s'.parents (joinIdentifier kinds s.physical (u, s.identifiers) row) := by
  have howners : ∀ k o, (joinIdentifier kinds s.physical (u, s.identifiers) row).2.lookup k =
      some o → o ∈ itemIds :=
    owners_joinRow h.owners hrow
  cases hkind : (kinds.lookup row.mediaItemId).filter isSyncableKind with
  | none =>
    have hjoin : joinIdentifier kinds s.physical (u, s.identifiers) row = (u, s.identifiers) := by
      unfold joinIdentifier joinRow identifierKey
      rw [hkind]
      rfl
    exact ⟨s, by simp only [matchIdentifier, hkind], rfl, by rw [hjoin], by rw [hjoin]; exact h⟩
  | some kind =>
    set found :=
      s.identifiers.setDefault (kind, row.provider, row.externalId) row.mediaItemId with hfound
    have howner : found.1 ∈ itemIds := setDefault_mem h.owners hrow _
    have hjoin : joinIdentifier kinds s.physical (u, s.identifiers) row =
        (if conflicting s.physical found.1 row.mediaItemId then u else u.attach found.1
          row.mediaItemId, found.2) := by
      unfold joinIdentifier joinRow identifierKey
      rw [hkind]
      rfl
    by_cases hconflict : conflicting s.physical found.1 row.mediaItemId = true
    · refine ⟨{ s with identifiers := found.2 }, ?_, rfl, by rw [hjoin], ?_, howners⟩
      · simp only [matchIdentifier, hkind, ← hfound, hconflict, if_true]
      · rw [hjoin, if_pos hconflict]; exact h.holds
    · obtain ⟨first, second, hfirst, hsecond, hset, hsame⟩ := h.holds.attach howner hrow hn
      refine ⟨{ s with
        parents := if u.root row.mediaItemId ≠
          u.root found.1 then second.set (u.root found.1) (u.root row.mediaItemId) else second
        identifiers := found.2 }, ?_, rfl, by rw [hjoin], ?_, howners⟩
      · simp only [matchIdentifier, hkind, ← hfound, hconflict, Bool.false_eq_true, if_false,
          hfirst, hsecond, Option.bind_some]
      · rw [hjoin, if_neg hconflict]
        dsimp only
        split
        next => exact hset
        next heq => exact hsame (not_not.1 heq).symm

theorem matchPaths_follow (rows : List (Nat × String)) {u : UnionFind Nat}
    (h : Follows itemIds s.parents (u, s.pathOwners))
    (hrows : ∀ row ∈ rows, row.1 ∈ itemIds) (hkinds : ∀ i ∈ itemIds, (kinds.lookup i).isSome = true)
    (hn : u.height + rows.length < n) :
    ∃ s', rows.foldlM (matchPath n kinds) s = some s' ∧ s'.identifiers = s.identifiers ∧
      Holds itemIds s'.parents (rows.foldl (joinPath kinds) (u, s.pathOwners)).1 := by
  induction rows generalizing s u with
  | nil => exact ⟨s, rfl, rfl, h.holds⟩
  | cons row rows ih =>
    have hrow := hrows row List.mem_cons_self
    rw [List.length_cons] at hn
    obtain ⟨next, hnext, hsame, howners, hfollows⟩ :=
      matchPath_follows h hrow (hkinds _ hrow) (n := n) (by omega)
    have hheight : (joinPath kinds (u, s.pathOwners) row).1.height ≤ u.height + 1 :=
      height_joinRow_le (fun _ _ _ => UnionFind.height_attach_le ..) _ _
    have hpair : joinPath kinds (u, s.pathOwners) row =
        ((joinPath kinds (u, s.pathOwners) row).1, next.pathOwners) := by
      rw [← howners]
    rw [hpair] at hfollows
    obtain ⟨s', hs', hsame', hholds⟩ :=
      ih hfollows (fun row hrow => hrows row (List.mem_cons_of_mem _ hrow)) (by omega)
    refine ⟨s', ?_, hsame'.trans hsame, ?_⟩
    · rw [List.foldlM_cons, hnext]; exact hs'
    · rw [List.foldl_cons, hpair]; exact hholds

theorem matchIdentifiers_follow (kinds : Dict Nat MediaKind) (rows : List MediaIdentifier)
    {u : UnionFind Nat}
    (h : Follows itemIds s.parents (u, s.identifiers))
    (hrows : ∀ row ∈ rows, row.mediaItemId ∈ itemIds) (hn : u.height + rows.length < n) :
    ∃ s', rows.foldlM (matchIdentifier n kinds) s = some s' ∧
      Holds itemIds s'.parents
        (rows.foldl (joinIdentifier kinds s.physical) (u, s.identifiers)).1 := by
  induction rows generalizing s u with
  | nil => exact ⟨s, rfl, h.holds⟩
  | cons row rows ih =>
    rw [List.length_cons] at hn
    obtain ⟨next, hnext, hsame, howners, hfollows⟩ :=
      matchIdentifier_follows kinds h (hrows row List.mem_cons_self)
      (n := n) (by omega)
    have hheight : (joinIdentifier kinds s.physical (u, s.identifiers) row).1.height ≤
        u.height + 1 :=
      height_joinRow_le UnionFind.height_attach_le _ _
    have hpair : joinIdentifier kinds s.physical (u, s.identifiers) row =
        ((joinIdentifier kinds s.physical (u, s.identifiers) row).1, next.identifiers) := by
          rw [← howners]
    rw [hpair] at hfollows
    obtain ⟨s', hs', hholds⟩ :=
      ih hfollows (fun row hrow => hrows row (List.mem_cons_of_mem _ hrow)) (by omega)
    refine ⟨s', ?_, ?_⟩
    · rw [List.foldlM_cons, hnext]; exact hs'
    · rw [hsame] at hholds
      rw [List.foldl_cons, hpair]
      exact hholds

end Follows

section Groups
variable {itemIds rows : List Nat} {s : Dict Nat Nat × Dict Nat (List Nat)}
  {u : UnionFind Nat} {n i : Nat}

/-- The items collected below a root. -/
def groupOf (groups : Dict Nat (List Nat)) (root : Nat) : List Nat := (groups.lookup root).getD []

theorem mem_groupOf_upsert {groups : Dict Nat (List Nat)} {root r i j : Nat} :
    j ∈ groupOf (groups.upsert root fun group => (group.getD []).insert i) r ↔
      j ∈ groupOf groups r ∨ j = i ∧ root = r := by
  unfold groupOf
  by_cases hr : r = root
  · subst hr
    rw [Dict.lookup_upsert_self, Option.getD_some, List.mem_insert_iff]
    tauto
  · rw [Dict.lookup_upsert_of_ne hr]
    exact ⟨.inl, fun h => h.resolve_right fun h => hr h.2.symm⟩

theorem collectItem_follows (kinds : Dict Nat MediaKind) (h : Holds itemIds s.1 u)
    (hi : i ∈ itemIds) (hn : u.height < n) :
    ∃ s' u', collectItem n kinds s i = some s' ∧ Holds itemIds s'.1 u' ∧ u'.height = u.height ∧
      (∀ z, u'.root z = u.root z) ∧
      ∀ r j, j ∈ groupOf s'.2 r ↔ j ∈ groupOf s.2 r ∨ j = i ∧ syncable kinds i = true ∧
      u.root i = r := by
  unfold collectItem
  by_cases hsync : syncable kinds i = true
  · obtain ⟨parents, hloop, hholds⟩ := h.halveLoop hi hn
    refine ⟨(parents, s.2.upsert (u.root i) fun group => (group.getD []).insert i),
      (u.find i).2, ?_, hholds,
      UnionFind.height_find u i, UnionFind.root_find u i, fun r j => ?_⟩
    · rw [if_pos hsync, hloop, Option.bind_some]
    · rw [mem_groupOf_upsert, and_iff_right hsync]
  · exact ⟨s, u, if_neg hsync, h, rfl, fun _ => rfl, fun r j => by simp [hsync]⟩

theorem collectItems_follow (kinds : Dict Nat MediaKind) (h : Holds itemIds s.1 u)
    (hrows : rows ⊆ itemIds) (hn : u.height < n) :
    ∃ s', rows.foldlM (collectItem n kinds) s = some s' ∧
      ∀ r j, j ∈ groupOf s'.2 r ↔ j ∈ groupOf s.2 r ∨ j ∈ rows ∧ syncable kinds j = true ∧
      u.root j = r := by
  induction rows generalizing s u with
  | nil => exact ⟨s, rfl, fun r j => by simp⟩
  | cons i rows ih =>
    obtain ⟨next, u', hnext, hholds, hheight, hroot, hgroups⟩ := collectItem_follows kinds h
      (hrows List.mem_cons_self) hn
    obtain ⟨s', hs', hgroups'⟩ :=
      ih hholds (fun _ h => hrows (List.mem_cons_of_mem _ h)) (hheight ▸ hn)
    refine ⟨s', by rw [List.foldlM_cons, hnext]; exact hs', fun r j => ?_⟩
    rw [hgroups', hgroups, hroot, List.mem_cons]
    constructor
    · rintro ((h | ⟨rfl, h⟩) | ⟨hj, h⟩)
      exacts [.inl h, .inr ⟨.inl rfl, h⟩, .inr ⟨.inr hj, h⟩]
    · rintro (h | ⟨rfl | hj, h⟩)
      exacts [.inl (.inl h), .inl (.inr ⟨rfl, h⟩), .inr ⟨hj, h⟩]

end Groups

theorem matchPath_monotone (kinds : Dict Nat MediaKind) (s : MatchingState) (row : Nat × String) :
    FuelMonotone fun n => matchPath n kinds s row :=
  (FuelMonotone.pure _).bind fun _ => (halveLoop_monotone _ _).bind fun _ =>
    (halveLoop_monotone _ _).bind fun _ =>
    FuelMonotone.pure _

theorem matchIdentifier_monotone (kinds : Dict Nat MediaKind) (s : MatchingState)
    (row : MediaIdentifier) :
    FuelMonotone fun n => matchIdentifier n kinds s row := by
  unfold matchIdentifier
  split
  · exact FuelMonotone.pure _
  · dsimp only
    split
    · exact FuelMonotone.pure _
    · exact (halveLoop_monotone _ _).bind fun _ => (halveLoop_monotone _ _).bind fun _ =>
        FuelMonotone.pure _

theorem collectItem_monotone (kinds : Dict Nat MediaKind)
    (s : Dict Nat Nat × Dict Nat (List Nat)) (i : Nat) :
    FuelMonotone fun n => collectItem n kinds s i := by
  unfold collectItem
  split
  · exact (halveLoop_monotone _ _).bind fun _ => FuelMonotone.pure _
  · exact FuelMonotone.pure _

theorem matchingItemGroups_monotone (kinds : Dict Nat MediaKind) (itemIds : List Nat)
    (paths : List PathRow)
    (identifiers : List MediaIdentifier) :
    FuelMonotone fun n => matchingItemGroups n kinds itemIds paths identifiers :=
  (FuelMonotone.foldlM (matchPath_monotone kinds) _ _).bind fun _ =>
    (FuelMonotone.foldlM (matchIdentifier_monotone kinds) _ _).bind fun _ =>
      (FuelMonotone.foldlM (collectItem_monotone kinds) _ _).bind fun _ => FuelMonotone.pure _

section Classes
variable {itemIds : List Nat} {paths : List PathRow} {identifiers : List MediaIdentifier}
  {physical : Dict Nat (List String)}

theorem mem_pathRows {row : Nat × String} :
    row ∈ pathRows paths itemIds ↔ row.1 ∈ itemIds ∧ ⟨row.1, true, row.2⟩ ∈ paths := by
  unfold pathRows pathBatch
  simp only [List.mem_flatMap, List.mem_map, List.mem_filter, Bool.and_eq_true,
    List.contains_iff_mem]
  constructor
  · rintro ⟨batch, hbatch, r, ⟨hr, hmem, havailable⟩, rfl⟩
    refine ⟨mem_of_mem_batches hbatch hmem, ?_⟩
    rw [← havailable]
    exact hr
  · rintro ⟨hmem, hr⟩
    obtain ⟨batch, hbatch, hi⟩ := exists_mem_batches (show 0 < queryBatchSize by decide) hmem
    exact ⟨batch, hbatch, _, ⟨hr, hi, rfl⟩, rfl⟩

theorem mem_identifierRows {row : MediaIdentifier} (h : row ∈ identifierRows identifiers itemIds) :
    row.mediaItemId ∈ itemIds := by
  obtain ⟨batch, hbatch, hrow⟩ := List.mem_flatMap.1 h
  exact mem_of_mem_batches hbatch
    (List.contains_iff_mem.1 (Bool.and_eq_true_iff.1 (List.mem_filter.1 hrow).2).1)

/-- The union-find after the first loop. -/
def pathClasses (kinds : Dict Nat MediaKind) (rows : List (Nat × String)) : UnionFind Nat :=
  (rows.foldl (joinPath kinds) (.singletons, .empty)).1

/-- The union-find after both loops. -/
def matchedClasses (kinds : Dict Nat MediaKind) (physical : Dict Nat (List String))
    (rows : List (Nat × String)) (identifiers : List MediaIdentifier) : UnionFind Nat :=
  (identifiers.foldl (joinIdentifier kinds physical) (pathClasses kinds rows, .empty)).1

/-- Rows of one key have items of one kind. -/
theorem kind_of_pathKey {row : Nat × String} {k : MediaKind × String}
    (h : pathKey kinds row = some k) :
    kinds.lookup row.1 = some k.1 := by
  obtain ⟨kind, hkind, rfl⟩ := Option.map_eq_some_iff.1 h
  exact hkind

theorem kind_of_identifierKey {row : MediaIdentifier} {k : MediaKind × String × String}
    (h : identifierKey kinds row = some k) :
    kinds.lookup row.mediaItemId = some k.1 := by
  obtain ⟨kind, hkind, rfl⟩ := Option.map_eq_some_iff.1 h
  exact (Option.filter_eq_some_iff.1 hkind).1

def SameKind (kinds : Dict Nat MediaKind) (i j : Nat) : Prop := kinds.lookup i = kinds.lookup j

theorem sameKind_of_eqvGen {x y : Nat} (h : Relation.EqvGen (SameKind kinds) x y) :
    SameKind kinds x y := by
  induction h with
  | rel _ _ h => exact h
  | refl _ => exact rfl
  | symm _ _ _ ih => exact Eq.symm ih
  | trans _ _ _ _ _ ih₁ ih₂ => exact Eq.trans ih₁ ih₂

/-- Items of one class have one kind. -/
theorem kinds_of_same {rows : List (Nat × String)} {x y : Nat}
    (h : (matchedClasses kinds physical rows identifiers).Same x y) : SameKind kinds x y := by
  have hpaths : ∀ x y, (pathClasses kinds rows).Same x y →
      Relation.EqvGen (SameKind kinds) x y := by
    intro x y h
    refine foldl_joinRow_within (fun u x y => (UnionFind.attach_joins u y x).symm)
      (List.Subset.refl rows) ?_ ?_ ?_ h
    · exact fun r _ r' _ k hr hr' _ =>
        .rel _ _ ((kind_of_pathKey hr).trans (kind_of_pathKey hr').symm)
    · rintro x y (rfl : x = y)
      exact .refl _
    · exact fun k o ho => nomatch (show (none : Option Nat) = some o from ho)
  refine sameKind_of_eqvGen
    (foldl_joinRow_within (s := (_, .empty)) UnionFind.attach_joins (List.Subset.refl identifiers)
    ?_ hpaths ?_ h)
  · exact fun r _ r' _ k hr hr' _ =>
      .rel _ _ ((kind_of_identifierKey hr).trans (kind_of_identifierKey hr').symm)
  · exact fun k o ho => nomatch (show (none : Option Nat) = some o from ho)

/-- Items of one kind with a path in common are in one class: both are joined to the owner of the
path. -/
theorem same_of_path (physical : Dict Nat (List String)) (identifiers : List MediaIdentifier)
    {rows : List (Nat × String)} {kind : MediaKind} {key : String} {x y : Nat}
    (hx : (x, key) ∈ rows)
    (hy : (y, key) ∈ rows) (hkx : kinds.lookup x = some kind) (hky : kinds.lookup y = some kind) :
    (matchedClasses kinds physical rows identifiers).Same x y := by
  have hjoins : ∀ (u : UnionFind Nat) x y, UnionFind.Joins x y u (u.attach y x) :=
    fun u x y => (UnionFind.attach_joins u y x).symm
  have hkey : ∀ {i}, kinds.lookup i = some kind →
      pathKey kinds (i, key) = some (kind, key) := fun h => by
    unfold pathKey; rw [h]; rfl
  obtain ⟨o, howner⟩ : ∃ o,
      (rows.foldl (joinPath kinds) (.singletons, .empty)).2.lookup (kind, key) = some o := by
    obtain ⟨r, -, howner⟩ := exists_owner (s := (.singletons, .empty)) hx (hkey hkx) rfl
    exact ⟨_, howner⟩
  have howned : ∀ {i}, (i, key) ∈ rows → kinds.lookup i = some kind →
      (pathClasses kinds rows).Same o i := fun hi hki =>
    same_owner hjoins hi (hkey hki) howner rfl
  exact same_foldl_joinRow UnionFind.attach_joins ((howned hx hkx).symm.trans (howned hy hky))

end Classes

/-! ### What the call returns -/

section Result
variable {itemIds : List Nat} {groups : Dict Nat (List Nat)}

theorem mem_groups {g : List Nat} :
    g ∈ groups.rows.map Prod.snd ↔ ∃ root, groups.lookup root = some g := by
  simp only [List.mem_map, Prod.exists, exists_eq_right, Dict.mem_rows_iff]

theorem pairwise_groups {class_ : Nat → Nat}
    (h : ∀ root, ∀ i ∈ groupOf groups root, class_ i = root) :
    (groups.rows.map Prod.snd).Pairwise List.Disjoint := by
  have hkeys : (groups.rows.map Prod.fst).Nodup := groups.nodup
  rw [List.Nodup, List.pairwise_map] at hkeys
  rw [List.pairwise_map]
  refine hkeys.imp_of_mem fun {a b} ha hb hne i hi hi' => hne ?_
  have hgroup : ∀ {p : Nat × List Nat}, p ∈ groups.rows → i ∈ p.2 → class_ i = p.1 :=
      fun {p} hp hi =>
    h p.1 i (by unfold groupOf; rw [Dict.mem_rows_iff.1 hp]; exact hi)
  exact (hgroup ha hi).symm.trans (hgroup hb hi')

theorem lookup_empty_ne {κ : Type} [DecidableEq κ] (k : κ) (o : Nat)
    (h : Dict.lookup (.empty : Dict κ Nat) k = some o) : o ∈ itemIds :=
  nomatch (Dict.lookup_empty.symm.trans h)

/-- Every call ends; what it collects below a root are the syncable items of the class. -/
theorem matchingItemGroups_classes (paths : List PathRow) (identifiers : List MediaIdentifier)
    (hkinds : ∀ i ∈ itemIds, (kinds.lookup i).isSome = true) :
    ∃ (groups : Dict Nat (List Nat)) (physical : Dict Nat (List String)),
      ReturnsWithFuel (fun n => matchingItemGroups n kinds itemIds paths identifiers)
      (groups.rows.map Prod.snd) ∧
      ∀ r i, i ∈ groupOf groups r ↔ i ∈ itemIds ∧ syncable kinds i = true ∧
        (matchedClasses kinds physical (pathRows paths itemIds)
          (identifierRows identifiers itemIds)).root i = r := by
  set rows := pathRows paths itemIds with hrows
  set found := identifierRows identifiers itemIds with hfound
  have hpathHeight : (pathClasses kinds rows).height ≤ 0 + rows.length :=
    height_foldl_joinRow_le (fun _ _ _ => UnionFind.height_attach_le ..) _ _
  obtain ⟨byPath, hpaths, hsame, hholds⟩ :=
    matchPaths_follow rows (s := { parents := ofValues itemIds })
    (n := rows.length + found.length + 1) ⟨Holds.ofValues itemIds, lookup_empty_ne⟩
    (fun row hrow => (mem_pathRows.1 hrow).1) hkinds (by show 0 + rows.length < _; omega)
  replace hholds : Holds itemIds byPath.parents (pathClasses kinds rows) := hholds
  have hheight : (matchedClasses kinds byPath.physical rows found).height ≤
      (pathClasses kinds rows).height + found.length :=
    height_foldl_joinRow_le UnionFind.height_attach_le _ _
  obtain ⟨joined, hidentifiers, hjoined⟩ :=
    matchIdentifiers_follow kinds found (s := byPath) (u := pathClasses kinds rows)
    (n := rows.length + found.length + 1) ⟨hholds, hsame ▸ lookup_empty_ne⟩
    (fun row hrow => mem_identifierRows hrow) (by omega)
  rw [hsame] at hjoined
  obtain ⟨collected, hcollect, hgroups⟩ := collectItems_follow kinds (s := (joined.parents, .empty))
    (n := rows.length + found.length + 1) hjoined (List.Subset.refl itemIds)
      (Nat.lt_succ_of_le (hheight.trans (by omega)))
  refine ⟨collected.2, byPath.physical,
    .of_monotone (matchingItemGroups_monotone kinds itemIds paths identifiers)
    (show matchingItemGroups (rows.length + found.length + 1) kinds itemIds paths identifiers =
      _ from ?_), fun r i => (hgroups r i).trans ?_⟩
  · unfold matchingItemGroups
    rw [← hrows, ← hfound, hpaths, Option.bind_some, hidentifiers, Option.bind_some, hcollect,
      Option.bind_some]
  · exact ⟨fun h => h.resolve_left (List.not_mem_nil (a := i)), .inr⟩

theorem syncable_iff {i : Nat} : syncable kinds i = true ↔
    ∃ kind, kinds.lookup i = some kind ∧ (kind = .movie ∨ kind = .episode ∨ kind = .track) := by
  unfold syncable
  cases kinds.lookup i with
  | none => simp
  | some kind => cases kind <;> simp [isSyncableKind]

/-- Every call ends, whatever the rows. Its groups share no item, have one kind each and hold the
movies, episodes and tracks; two of these with one kind and a path of available files in common are
in one group. -/
theorem matchingItemGroups_spec (kinds : Dict Nat MediaKind) (itemIds : List Nat)
    (paths : List PathRow)
    (identifiers : List MediaIdentifier) (hkinds : ∀ i ∈ itemIds, (kinds.lookup i).isSome = true) :
    ∃ groups,
      ReturnsWithFuel (fun n => matchingItemGroups n kinds itemIds paths identifiers) groups ∧
      groups.Pairwise List.Disjoint ∧
      (∀ i, (∃ g ∈ groups, i ∈ g) ↔ i ∈ itemIds ∧
        ∃ kind, kinds.lookup i = some kind ∧ (kind = .movie ∨ kind = .episode ∨ kind = .track)) ∧
      (∀ g ∈ groups, ∀ i ∈ g, ∀ j ∈ g, kinds.lookup i = kinds.lookup j) ∧
      ∀ i ∈ itemIds, ∀ j ∈ itemIds, ∀ kind,
        (kind = .movie ∨ kind = .episode ∨ kind = .track) → ∀ key,
        kinds.lookup i = some kind → kinds.lookup j = some kind → ⟨i, true, key⟩ ∈ paths →
        ⟨j, true, key⟩ ∈ paths →
        ∃ g ∈ groups, i ∈ g ∧ j ∈ g := by
  obtain ⟨groups, physical, hreturns, hmem⟩ := matchingItemGroups_classes paths identifiers hkinds
  -- a group of the result is what a root has collected
  have hgroup : ∀ {g}, g ∈ groups.rows.map Prod.snd → ∃ root, g = groupOf groups root :=
      fun hg => by
    obtain ⟨root, hroot⟩ := mem_groups.1 hg
    exact ⟨root, by unfold groupOf; rw [hroot]; rfl⟩
  have hcollected : ∀ {i root}, i ∈ groupOf groups root →
      groupOf groups root ∈ groups.rows.map Prod.snd := fun {i root} hi => by
    unfold groupOf at hi ⊢
    cases hlookup : groups.lookup root with
    | none => rw [hlookup] at hi; cases hi
    | some g => exact mem_groups.2 ⟨root, hlookup⟩
  refine ⟨groups.rows.map Prod.snd, hreturns, pairwise_groups fun r i hi => ((hmem r i).1 hi).2.2,
    fun i => ?_,
    fun g hg i hi j hj => ?_, fun i hi j hj kind hkind key hki hkj hpi hpj => ?_⟩
  · rw [← syncable_iff]
    constructor
    · rintro ⟨g, hg, hi⟩
      obtain ⟨root, rfl⟩ := hgroup hg
      exact ⟨((hmem root i).1 hi).1, ((hmem root i).1 hi).2.1⟩
    · rintro ⟨hi, hsync⟩
      have hin := (hmem _ i).2 ⟨hi, hsync, rfl⟩
      exact ⟨_, hcollected hin, hin⟩
  · obtain ⟨root, rfl⟩ := hgroup hg
    exact kinds_of_same (((hmem root i).1 hi).2.2.trans ((hmem root j).1 hj).2.2.symm)
  · have hclass := same_of_path physical (identifierRows identifiers itemIds)
      (mem_pathRows.2 ⟨hi, hpi⟩) (mem_pathRows.2 ⟨hj, hpj⟩) hki hkj
    have hini := (hmem _ i).2 ⟨hi, syncable_iff.2 ⟨kind, hki, hkind⟩, rfl⟩
    have hinj := (hmem _ j).2 ⟨hj, syncable_iff.2 ⟨kind, hkj, hkind⟩, hclass.symm⟩
    exact ⟨_, hcollected hini, hini, hinj⟩

def someKinds : Dict Nat MediaKind :=
  [(1, MediaKind.movie), (2, .movie), (3, .episode), (4, .show)].foldl
    (fun kinds row => kinds.set row.1 row.2) .empty

/-- Two movies and an episode in one file. -/
def somePaths : List PathRow :=
  [⟨1, true, "/media/a.mkv"⟩, ⟨3, true, "/media/a.mkv"⟩, ⟨2, true, "/media/a.mkv"⟩]

theorem matchingItemGroups_spec_somePaths :
    ∃ groups,
      ReturnsWithFuel (fun n => matchingItemGroups n someKinds [1, 2, 3, 4] somePaths []) groups ∧
      ∃ g ∈ groups, 1 ∈ g ∧ 2 ∈ g := by
  obtain ⟨groups, hreturns, -, -, -, hpath⟩ :=
    matchingItemGroups_spec someKinds [1, 2, 3, 4] somePaths [] (by decide)
  exact ⟨groups, hreturns,
    hpath 1 (by simp) 2 (by simp) .movie (.inl rfl) "/media/a.mkv" (by decide) (by decide)
    (by simp [somePaths]) (by simp [somePaths])⟩

end Result

end MatchingRun

end Euvieouvi
