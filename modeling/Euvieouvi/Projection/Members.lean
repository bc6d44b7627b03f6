import Euvieouvi.Projection.Catalog

/-!
# What a group is

Every joined group consists of catalog items of one kind and is represented by one of its members,
so an entry has the kind of all its members. Both facts follow from the joins: only items of one
kind are ever joined.
-/

namespace Euvieouvi

namespace UnionFind
variable {α : Type} {u : UnionFind α} {x y : α}

@[simp] theorem findCompress_fst [DecidableEq α] (u : UnionFind α) (x : α) :
    (u.findCompress x).1 = u.root x :=
  (findLoop_spec rfl).1.trans (root_parent u x)

@[simp] theorem root_findCompress [DecidableEq α] (u : UnionFind α) (x y : α) :
    (u.findCompress x).2.root y = u.root y :=
  (root_shortcut ..).trans ((findLoop_spec rfl).2 y)

/-- Both roots are found before one is hung below the other. -/
theorem join_eq [LinearOrder α] (u : UnionFind α) (x y : α) : u.join x y =
    if u.root x ≠ u.root y then
      ((u.findCompress x).2.findCompress y).2.link (max (u.root x) (u.root y))
      (min (u.root x) (u.root y))
    else ((u.findCompress x).2.findCompress y).2 := by
  unfold join
  simp only [findCompress_fst, root_findCompress]

theorem joins_join [LinearOrder α] (u : UnionFind α) (x y : α) : Joins x y u (u.join x y) := by
  rw [join_eq]
  set u₂ := ((u.findCompress x).2.findCompress y).2 with hu₂
  have hroot : ∀ z, u₂.root z = u.root z :=
    fun z => by rw [hu₂, root_findCompress, root_findCompress]
  by_cases h : u.root x = u.root y
  · rw [if_neg (not_not.2 h)]
    intro z w
    simp only [Same, hroot]
    constructor
    · exact .inl
    · rintro (h' | ⟨h₁, h₂⟩ | ⟨h₁, h₂⟩)
      exacts [h', h₁.trans (h.trans h₂), h₁.trans (h.symm.trans h₂)]
  · rw [if_pos h, ← hroot x, ← hroot y]
    refine Joins.congr hroot ?_
    rcases le_total (u₂.root x) (u₂.root y) with hle | hle
    · rw [max_eq_right hle, min_eq_left hle]; exact (joins_link y x u₂).symm
    · rw [max_eq_left hle, min_eq_right hle]; exact joins_link x y u₂

/-- Elements of one class have one value of `kind`. -/
def Homogeneous {κ : Type} (kind : α → κ) (u : UnionFind α) : Prop :=
  ∀ x y, u.Same x y → kind x = kind y

theorem Homogeneous.joins {κ : Type} {kind : α → κ} {u' : UnionFind α} (h : Homogeneous kind u)
    (hj : Joins x y u u') (hk : kind x = kind y) : Homogeneous kind u' := by
  intro z w hzw
  rcases (hj z w).1 hzw with h' | ⟨h₁, h₂⟩ | ⟨h₁, h₂⟩
  · exact h z w h'
  · exact (h z x h₁).trans (hk.trans (h y w h₂))
  · exact (h z y h₁).trans (hk.symm.trans (h x w h₂))

end UnionFind

open UnionFind

theorem UnionFind.Homogeneous.joinMembers {κ : Type} {kind : Nat → κ} {u : UnionFind Nat}
    (h : Homogeneous kind u)
    {members : List Nat} (hk : ∀ i ∈ members, ∀ j ∈ members, kind i = kind j) :
    Homogeneous kind (joinMembers u members) := by
  cases members with
  | nil => exact h
  | cons first rest =>
    show Homogeneous kind (rest.foldl (fun u i => u.join first i) u)
    replace hk : ∀ i ∈ rest, kind first = kind i :=
      fun i hi => hk _ List.mem_cons_self _ (List.mem_cons_of_mem _ hi)
    induction rest generalizing u with
    | nil => exact h
    | cons i rest ih =>
      exact ih (h.joins (joins_join u first i) (hk i List.mem_cons_self)) fun j hj =>
        hk j (List.mem_cons_of_mem _ hj)

namespace IdentityRows
variable {rows : IdentityRows} {py : PyLib}

theorem joinSafeGroups_homogeneous {groups : List (List Nat)} {u : UnionFind Nat}
    (h : Homogeneous rows.kindOf u)
    (hk : ∀ g ∈ groups, ∀ i ∈ g, ∀ j ∈ g, rows.kindOf i = rows.kindOf j) :
    Homogeneous rows.kindOf (rows.joinSafeGroups groups u) := by
  unfold joinSafeGroups
  induction groups generalizing u with
  | nil => exact h
  | cons g groups ih =>
    rw [List.foldl_cons]
    refine ih ?_ fun g' hg' => hk g' (List.mem_cons_of_mem _ hg')
    split
    · exact h.joinMembers (hk g List.mem_cons_self)
    · exact h

theorem union_homogeneous : Homogeneous rows.kindOf (rows.union py) := by
  refine joinSafeGroups_homogeneous (joinSafeGroups_homogeneous ?_ ?_) ?_
  · rintro x y (h : x = y); rw [h]
  · intro g hg i hi j hj
    obtain ⟨⟨key, l⟩, hl, rfl⟩ := List.mem_map.1 hg
    obtain ⟨rfl, -⟩ := mem_groupBy hl
    have hkey : ∀ i ∈ (rows.stableIdentifiers.filter fun r =>
        (rows.kindOf r.mediaItemId, r.provider, r.externalId) = key).map (·.mediaItemId),
        rows.kindOf i = key.1 := by
      intro i hi
      obtain ⟨r, hr, rfl⟩ := List.mem_map.1 hi
      have := (List.mem_filter.1 hr).2
      simp only [decide_eq_true_eq] at this
      rw [← this]
    rw [hkey i hi, hkey j hj]
  · intro g hg i hi j hj
    obtain ⟨⟨key, l⟩, hl, rfl⟩ := List.mem_map.1 hg
    obtain ⟨rfl, -⟩ := mem_groupBy hl
    have hkey : ∀ i,
        i ∈ (rows.catalogIds.filter fun i => rows.identifiersOf i = []).filter (fun i =>
        (rows.kindOf i, rows.fallbackIdentity py i, rows.yearOf i) = key) →
          rows.kindOf i = key.1 := by
      intro i hi
      have := (List.mem_filter.1 hi).2
      simp only [decide_eq_true_eq] at this
      rw [← this]
    rw [hkey i hi, hkey j hj]

structure GroupOk (rows : IdentityRows) (g : List Nat) : Prop where
  nonempty : g ≠ []
  catalog : ∀ i ∈ g, i ∈ rows.catalogIds
  kinds : ∀ i ∈ g, ∀ j ∈ g, rows.kindOf i = rows.kindOf j

theorem groupOk {g : List Nat} (h : g ∈ rows.groups py) : rows.GroupOk g := by
  obtain ⟨⟨key, l⟩, hl, hg⟩ := List.mem_flatMap.1 h
  obtain ⟨rfl, hkey⟩ := mem_groupBy hl
  have hin : ∀ i ∈ rows.catalogIds.filter (fun i => ((rows.union py).findCompress i).1 = key),
      i ∈ rows.catalogIds ∧ (rows.union py).root i = key := by
    intro i hi
    obtain ⟨hi, hk⟩ := List.mem_filter.1 hi
    exact ⟨hi, by simpa using hk⟩
  simp only at hg
  split at hg
  · rw [List.mem_singleton] at hg; subst hg
    refine ⟨?_, fun i hi => (hin i hi).1, fun i hi j hj => ?_⟩
    · obtain ⟨i, hi, hk⟩ := List.mem_map.1 hkey
      exact List.ne_nil_of_mem (List.mem_filter.2 ⟨hi, by simpa using hk⟩)
    · exact union_homogeneous i j ((hin i hi).2.trans (hin j hj).2.symm)
  · obtain ⟨i, hi, rfl⟩ := List.mem_map.1 hg
    refine ⟨by simp, fun j hj => ?_, fun j hj k hk => ?_⟩
    · rw [List.mem_singleton.1 hj]; exact (hin i hi).1
    · rw [List.mem_singleton.1 hj, List.mem_singleton.1 hk]

theorem canonicalOf_mem {g : List Nat} (h : g ≠ []) : rows.canonicalOf g ∈ g := by
  obtain ⟨first, rest, rfl⟩ := List.exists_cons_of_ne_nil h
  show rest.foldl (fun best i => if rows.represents best i then best else i) first ∈ _
  suffices hgen : ∀ (l : List Nat) (best : Nat), best ∈ first :: rest →
      (∀ i ∈ l, i ∈ first :: rest) →
      l.foldl (fun best i => if rows.represents best i then best else i) best ∈ first :: rest from
    hgen rest first List.mem_cons_self fun i hi => List.mem_cons_of_mem _ hi
  intro l
  induction l with
  | nil => exact fun best hb _ => hb
  | cons i l ih =>
    intro best hb hl
    refine ih _ ?_ fun j hj => hl j (List.mem_cons_of_mem _ hj)
    show (if rows.represents best i then best else i) ∈ _
    split
    exacts [hb, hl i List.mem_cons_self]

theorem kindOf_of_mem_catalogIds {i : Nat} (h : i ∈ rows.catalogIds) :
    ∃ m, rows.mediaItems.get? i = some m ∧ isCatalogKind m.kind = true := by
  unfold catalogIds at h
  rw [List.mem_insertionSort] at h
  obtain ⟨m, hm, rfl⟩ := List.mem_map.1 h
  obtain ⟨hm, hk⟩ := List.mem_filter.1 hm
  exact ⟨m, Table.get?_of_mem hm, hk⟩

theorem groupKeys_fst (py : PyLib) :
    (rows.groupKeys py).map Prod.fst = (rows.groups py).map rows.canonicalOf := by
  unfold groupKeys
  generalize rows.groups py = groups
  suffices h : ∀ (acc : List (Nat × String) × List String),
      (groups.foldl _ acc).1.map Prod.fst = acc.1.map Prod.fst ++ groups.map rows.canonicalOf by
    simpa using h ([], [])
  induction groups with
  | nil => intro acc; simp
  | cons g groups ih => intro acc; rw [List.foldl_cons, ih]; simp

end IdentityRows

namespace Database
variable {py : PyLib} {db : Database} {i e : Nat}

theorem canonicalByItem_eq_some (h : db.canonicalByItem py i = some e) :
    ∃ g ∈ db.identityRows.groups py, i ∈ g ∧ e = db.identityRows.canonicalOf g := by
  obtain ⟨member, hm, rfl⟩ := Option.map_eq_some_iff.1 h
  rw [projectedMembers, Table.get?_foldl_insert, Table.get?_empty, Option.none_or] at hm
  have hmem := List.mem_of_find?_eq_some hm
  have hi : member.mediaItemId = i := by simpa using List.find?_some hm
  obtain ⟨g, hg, hgm⟩ := List.mem_flatMap.1 hmem
  obtain ⟨j, hj, rfl⟩ := List.mem_map.1 hgm
  exact ⟨g, hg, hi ▸ hj, rfl⟩

/-- An entry has the kind of each of its members. -/
theorem kindOf_canonicalByItem (h : db.canonicalByItem py i = some e) :
    db.identityRows.kindOf i = db.identityRows.kindOf e := by
  obtain ⟨g, hg, hi, rfl⟩ := canonicalByItem_eq_some h
  have hok := IdentityRows.groupOk hg
  exact hok.kinds i hi _ (IdentityRows.canonicalOf_mem hok.nonempty)

theorem get?_of_canonicalByItem (h : db.canonicalByItem py i = some e) :
    ∃ m, db.mediaItems.get? i = some m := by
  obtain ⟨g, hg, hi, -⟩ := canonicalByItem_eq_some h
  obtain ⟨m, hm, -⟩ :=
    IdentityRows.kindOf_of_mem_catalogIds ((IdentityRows.groupOk hg).catalog i hi)
  exact ⟨m, hm⟩

theorem mem_groupKeys_of_canonicalByItem (h : db.canonicalByItem py i = some e) :
    ∃ key, (e, key) ∈ db.identityRows.groupKeys py := by
  obtain ⟨g, hg, -, rfl⟩ := canonicalByItem_eq_some h
  have : db.identityRows.canonicalOf g ∈ (db.identityRows.groupKeys py).map Prod.fst := by
    rw [IdentityRows.groupKeys_fst]; exact List.mem_map_of_mem hg
  obtain ⟨⟨e, key⟩, hkey, rfl⟩ := List.mem_map.1 this
  exact ⟨key, hkey⟩

end Database

end Euvieouvi
