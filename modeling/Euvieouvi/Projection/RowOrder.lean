import Euvieouvi.Projection.GroupKeys
import Euvieouvi.Projection.Tree

/-!
# The projection does not depend on the storage order

Two databases with the same rows in another order have the same groups, in the same order and with
the same keys: a lookup finds the same row, a set of columns has the same elements, and the joins
connect the same items however they are ordered (`union_same`).
-/

namespace Euvieouvi

open UnionFind

section Joins
variable {R : Nat → Nat → Prop} {u : UnionFind Nat}

theorem classes_joinMembers (h : Classes R u) (members : List Nat) :
    Classes (fun a b => R a b ∨ a ∈ members ∧ b ∈ members) (joinMembers u members) := by
  cases members with
  | nil => exact h.congr fun a b => by simp
  | cons first rest =>
    have hstar : ∀ (l : List Nat) (R : Nat → Nat → Prop) (u : UnionFind Nat), Classes R u →
        Classes (fun a b => R a b ∨ a = first ∧ b ∈ l) (l.foldl (fun u i => u.join first i) u) := by
      intro l
      induction l with
      | nil => exact fun R u hu => hu.congr fun a b => by simp
      | cons i l ih =>
        intro R u hu
        refine (ih _ _ (hu.join (joins_join u first i))).congr fun a b => ?_
        simp only [List.mem_cons]
        tauto
    refine (hstar rest R u h).of_connected (fun a b hab => ?_) fun a b hab => ?_
    · rcases hab with hr | ⟨rfl, hb⟩
      · exact .rel _ _ (.inl hr)
      · exact .rel _ _ (.inr ⟨List.mem_cons_self, List.mem_cons_of_mem _ hb⟩)
    · rcases hab with hr | ⟨ha, hb⟩
      · exact .rel _ _ (.inl hr)
      · have hfirst : ∀ i ∈ first :: rest,
            Relation.EqvGen (fun a b => R a b ∨ a = first ∧ b ∈ rest) first i := by
          intro i hi
          rcases List.mem_cons.1 hi with rfl | hi
          · exact .refl _
          · exact .rel _ _ (.inr ⟨rfl, hi⟩)
        exact ((hfirst a ha).symm _ _).trans _ _ _ (hfirst b hb)

theorem classes_joinSafeGroups (rows : IdentityRows) (h : Classes R u) (groups : List (List Nat)) :
    Classes (fun a b => R a b ∨ ∃ g ∈ groups, rows.SafeGroup g ∧ a ∈ g ∧ b ∈ g)
    (rows.joinSafeGroups groups u) := by
  unfold IdentityRows.joinSafeGroups
  induction groups generalizing R u with
  | nil => exact h.congr fun a b => by simp
  | cons g groups ih =>
    rw [List.foldl_cons]
    split
    next hsafe =>
      have hsafe' := IdentityRows.safeIdentityGroup_iff.1 hsafe
      refine (ih (classes_joinMembers h g)).congr fun a b => ?_
      simp only [List.exists_mem_cons_iff]
      tauto
    next hsafe =>
      have hsafe' : ¬ rows.SafeGroup g := fun hs => hsafe (IdentityRows.safeIdentityGroup_iff.2 hs)
      refine (ih h).congr fun a b => ?_
      simp only [List.exists_mem_cons_iff]
      tauto

end Joins

structure IdentityRows.SameRows (rows rows' : IdentityRows) : Prop where
  mediaItems : rows.mediaItems.rows.Perm rows'.mediaItems.rows
  sources : rows.sources.rows.Perm rows'.sources.rows
  sourceMediaRefs : rows.sourceMediaRefs.rows.Perm rows'.sourceMediaRefs.rows
  mediaFilePaths : rows.mediaFilePaths.rows.Perm rows'.mediaFilePaths.rows
  mediaIdentifiers : rows.mediaIdentifiers.rows.Perm rows'.mediaIdentifiers.rows

namespace IdentityRows.SameRows
variable {rows rows' : IdentityRows} {py : PyLib}

theorem symm (h : rows.SameRows rows') : rows'.SameRows rows :=
  ⟨h.mediaItems.symm, h.sources.symm, h.sourceMediaRefs.symm, h.mediaFilePaths.symm,
    h.mediaIdentifiers.symm⟩

section
variable (h : rows.SameRows rows')
include h

theorem get? (i : Nat) : rows.mediaItems.get? i = rows'.mediaItems.get? i :=
  Table.get?_of_perm h.mediaItems i

theorem kindOf : rows.kindOf = rows'.kindOf := by
  funext i; unfold IdentityRows.kindOf; rw [h.get?]

theorem parentOf : rows.parentOf = rows'.parentOf := by
  funext i; unfold IdentityRows.parentOf; rw [h.get?]

theorem yearOf : rows.yearOf = rows'.yearOf := by
  funext i; unfold IdentityRows.yearOf; rw [h.get?]

theorem manualMatchOf : rows.manualMatchOf = rows'.manualMatchOf := by
  funext i; unfold IdentityRows.manualMatchOf; rw [h.get?]

theorem fallbackIdentity : rows.fallbackIdentity py = rows'.fallbackIdentity py := by
  funext i; unfold IdentityRows.fallbackIdentity; rw [h.get?]

theorem catalogIds : rows.catalogIds = rows'.catalogIds := by
  unfold IdentityRows.catalogIds
  refine List.Perm.eq_of_pairwise' (List.pairwise_insertionSort _ _)
    (List.pairwise_insertionSort _ _) ?_
  exact (List.perm_insertionSort _ _).trans
    (((h.mediaItems.filter _).map _).trans (List.perm_insertionSort _ _).symm)

theorem isPlex : rows.isPlex = rows'.isPlex := by
  funext i
  unfold IdentityRows.isPlex
  rw [Bool.eq_iff_iff, List.any_eq_true, List.any_eq_true]
  refine exists_congr fun r => and_congr h.sourceMediaRefs.mem_iff ?_
  rw [Table.get?_of_perm h.sources]

theorem mem_sourceIdsOf {i s : Nat} : s ∈ rows.sourceIdsOf i ↔ s ∈ rows'.sourceIdsOf i := by
  unfold IdentityRows.sourceIdsOf
  rw [List.mem_eraseDups, List.mem_eraseDups]
  exact ((h.sourceMediaRefs.filter _).map _).mem_iff

theorem mem_availableSourcesOf {i s : Nat} :
    s ∈ rows.availableSourcesOf i ↔ s ∈ rows'.availableSourcesOf i := by
  unfold IdentityRows.availableSourcesOf
  rw [List.mem_eraseDups, List.mem_eraseDups]
  exact ((h.sourceMediaRefs.filter _).map _).mem_iff

theorem mem_pathsOf {i : Nat} {key : String} : key ∈ rows.pathsOf i ↔ key ∈ rows'.pathsOf i := by
  unfold IdentityRows.pathsOf
  rw [List.mem_eraseDups, List.mem_eraseDups, List.mem_flatMap, List.mem_flatMap]
  refine exists_congr fun r => and_congr (h.sourceMediaRefs.filter _).mem_iff ?_
  exact ((h.mediaFilePaths.filter _).map _).mem_iff

theorem stableIdentifiers : rows.stableIdentifiers.Perm rows'.stableIdentifiers := by
  unfold IdentityRows.stableIdentifiers
  rw [h.kindOf]
  exact h.mediaIdentifiers.filter _

theorem mem_identifiersOf {i : Nat} {identity : String × String} :
    identity ∈ rows.identifiersOf i ↔ identity ∈ rows'.identifiersOf i := by
  rw [IdentityRows.mem_identifiersOf, IdentityRows.mem_identifiersOf]
  exact exists_congr fun r => and_congr_left' h.stableIdentifiers.mem_iff

theorem identifiersOf_eq_nil {i : Nat} :
    rows.identifiersOf i = [] ↔ rows'.identifiersOf i = [] := by
  rw [List.eq_nil_iff_forall_not_mem, List.eq_nil_iff_forall_not_mem]
  exact forall_congr' fun _ => not_congr h.mem_identifiersOf

theorem safeGroup {members members' : List Nat} (hm : members.Perm members')
    (hs : rows.SafeGroup members) :
    rows'.SafeGroup members' where
  manual := by
    rw [← h.manualMatchOf]
    exact fun i hi j hj => hs.manual i (hm.mem_iff.2 hi) j (hm.mem_iff.2 hj)
  files := by
    have hpaths : ∀ i, rows'.pathsOf i ≠ [] → rows.pathsOf i ≠ [] := by
      intro i hne
      obtain ⟨key, hkey⟩ := List.exists_mem_of_ne_nil _ hne
      exact List.ne_nil_of_mem (h.mem_pathsOf.2 hkey)
    refine ((hm.pairwise_iff ?_).1 hs.files).imp fun {i j} hij hi hj => ?_
    · intro i j hij hj hi
      obtain ⟨key, hki, hkj⟩ := hij hi hj
      exact ⟨key, hkj, hki⟩
    · obtain ⟨key, hki, hkj⟩ := hij (hpaths i hi) (hpaths j hj)
      exact ⟨key, h.mem_pathsOf.1 hki, h.mem_pathsOf.1 hkj⟩
  referenced hlen i hi := by
    obtain ⟨s, hsrc⟩ :=
      List.exists_mem_of_ne_nil _ (hs.referenced (hm.length_eq ▸ hlen) i (hm.mem_iff.2 hi))
    exact List.ne_nil_of_mem (h.mem_sourceIdsOf.1 hsrc)
  apart hlen := by
    refine ((hm.pairwise_iff fun hd => hd.symm).1 (hs.apart (hm.length_eq ▸ hlen))).imp
      fun {i j} hd s hi hj => ?_
    exact hd (h.mem_availableSourcesOf.2 hi) (h.mem_availableSourcesOf.2 hj)

theorem safeIdentityGroup : rows.safeIdentityGroup = rows'.safeIdentityGroup := by
  funext members
  rw [Bool.eq_iff_iff, IdentityRows.safeIdentityGroup_iff, IdentityRows.safeIdentityGroup_iff]
  exact ⟨h.safeGroup (.refl _), h.symm.safeGroup (.refl _)⟩

theorem identityMembers {g : List Nat} (hg : g ∈ rows.identityMembers) :
    ∃ g' ∈ rows'.identityMembers, g.Perm g' := by
  obtain ⟨group, hgroup, rfl⟩ := List.mem_map.1 hg
  obtain ⟨group', hgroup', -, hperm⟩ := exists_groupBy_perm h.stableIdentifiers hgroup
  rw [h.kindOf] at hgroup'
  exact ⟨_, List.mem_map_of_mem hgroup', hperm.map _⟩

theorem fallbackMembers : rows.fallbackMembers py = rows'.fallbackMembers py := by
  have hkey : (fun i => (rows.kindOf i, rows.fallbackIdentity py i, rows.yearOf i)) =
      fun i => (rows'.kindOf i, rows'.fallbackIdentity py i, rows'.yearOf i) := by
    rw [h.kindOf, h.fallbackIdentity, h.yearOf]
  have hids : (rows.catalogIds.filter fun i => rows.identifiersOf i = []) =
      rows'.catalogIds.filter fun i => rows'.identifiersOf i = [] := by
    rw [h.catalogIds]
    exact List.filter_congr fun i _ => by simp only [h.identifiersOf_eq_nil]
  unfold IdentityRows.fallbackMembers
  rw [hkey, hids]

theorem together (groups groups' : List (List Nat))
    (hgroups : ∀ g ∈ groups, ∃ g' ∈ groups', g.Perm g') {a b : Nat}
    (hab : ∃ g ∈ groups, rows.SafeGroup g ∧ a ∈ g ∧ b ∈ g) : ∃ g ∈ groups', rows'.SafeGroup g ∧
    a ∈ g ∧ b ∈ g := by
  obtain ⟨g, hg, hs, ha, hb⟩ := hab
  obtain ⟨g', hg', hperm⟩ := hgroups g hg
  exact ⟨g', hg', h.safeGroup hperm hs, hperm.mem_iff.1 ha, hperm.mem_iff.1 hb⟩

/-- However the rows are stored, the same items are joined. -/
theorem union_same (x y : Nat) : (rows.union py).Same x y ↔ (rows'.union py).Same x y := by
  have hclasses := fun rows : IdentityRows =>
    classes_joinSafeGroups rows
      (classes_joinSafeGroups rows Classes.singletons rows.identityMembers)
      (rows.fallbackMembers py)
  have hidentity := fun a b => Iff.intro
    (h.together rows.identityMembers rows'.identityMembers (fun _ => h.identityMembers)
      (a := a) (b := b))
    (h.symm.together rows'.identityMembers rows.identityMembers (fun _ => h.symm.identityMembers))
  have hfallback := fun a b => Iff.intro
    (h.together (rows.fallbackMembers py) (rows'.fallbackMembers py)
      (fun g hg => ⟨g, h.fallbackMembers ▸ hg, .refl _⟩) (a := a) (b := b))
    (h.symm.together (rows'.fallbackMembers py) (rows.fallbackMembers py)
      (fun g hg => ⟨g, h.fallbackMembers ▸ hg, .refl _⟩))
  have hsame :=
    (hclasses rows).congr fun a b => or_congr (or_congr_right (hidentity a b)) (hfallback a b)
  exact (hsame x y).trans (hclasses rows' x y).symm

theorem groups : rows.groups py = rows'.groups py := by
  have hroots :
      (groupBy (fun i => ((rows.union py).findCompress i).1) rows.catalogIds).map Prod.snd =
      (groupBy (fun i => ((rows'.union py).findCompress i).1) rows'.catalogIds).map Prod.snd := by
    rw [h.catalogIds]
    refine groupBy_snd_congr fun i _ j _ => ?_
    simp only [findCompress_fst]
    exact h.union_same i j
  have hsplit : ∀ rows : IdentityRows, rows.groups py =
      ((groupBy (fun i => ((rows.union py).findCompress i).1) rows.catalogIds).map Prod.snd).flatMap
          fun members =>
        if members.length = 1 ||
          rows.safeIdentityGroup members then [members] else members.map fun i => [i] := by
    intro rows
    rw [List.flatMap_map]; rfl
  rw [hsplit rows, hsplit rows', hroots, h.safeIdentityGroup]

theorem canonicalOf : rows.canonicalOf = rows'.canonicalOf := by
  have hrepresents : rows.represents = rows'.represents := by
    unfold IdentityRows.represents
    rw [h.manualMatchOf, h.isPlex]
  funext g
  cases g with
  | nil => rfl
  | cons first rest => unfold IdentityRows.canonicalOf; rw [hrepresents]

theorem members : rows.members py = rows'.members py := by
  unfold IdentityRows.members
  rw [h.groups, h.canonicalOf]

theorem firstIdentity : rows.firstIdentity = rows'.firstIdentity := by
  funext g
  rw [firstIdentity_eq_argmin, firstIdentity_eq_argmin]
  have hmem : ∀ x, x ∈ g.flatMap rows.identifiersOf ↔ x ∈ g.flatMap rows'.identifiersOf := by
    intro x
    rw [List.mem_flatMap, List.mem_flatMap]
    exact exists_congr fun i => and_congr_right fun _ => h.mem_identifiersOf
  cases hx : (g.flatMap rows.identifiersOf).argmin identityKey with
  | none =>
    rw [List.argmin_eq_none, List.eq_nil_iff_forall_not_mem] at hx
    exact (List.argmin_eq_none.2
      (List.eq_nil_iff_forall_not_mem.2 fun x hx' => hx x ((hmem x).2 hx'))).symm
  | some x =>
    have hxmem := List.argmin_mem hx
    cases hy : (g.flatMap rows'.identifiersOf).argmin identityKey with
    | none =>
      rw [List.argmin_eq_none] at hy
      have := (hmem x).1 hxmem
      rw [hy] at this
      cases this
    | some y =>
      have hymem := List.argmin_mem hy
      have hkey : identityKey x = identityKey y :=
        le_antisymm (List.le_of_mem_argmin ((hmem y).2 hymem) hx)
          (List.le_of_mem_argmin ((hmem x).1 hxmem) hy)
      obtain ⟨i, -, hxi⟩ := List.mem_flatMap.1 hxmem
      have hprovider : x.1 = y.1 :=
        (List.idxOf_inj (provider_of_mem_identifiersOf hxi)).1
          (congrArg (fun k => (ofLex k).1) hkey)
      have hexternal : x.2 = y.2 := congrArg (fun k => (ofLex k).2) hkey
      exact congrArg some (Prod.ext hprovider hexternal)

theorem groupKeys : rows.groupKeys py = rows'.groupKeys py := by
  have hraw : rows.rawKey py = rows'.rawKey py := by
    unfold IdentityRows.rawKey
    rw [h.canonicalOf, h.kindOf, h.firstIdentity, h.yearOf, h.fallbackIdentity]
  unfold IdentityRows.groupKeys
  rw [h.groups, h.canonicalOf, hraw]

end

end IdentityRows.SameRows

/-! ### The same figures -/

namespace Stats
variable {s : Stats}

theorem maxOf_append (l l' : List Nat) : maxOf (l ++ l') = max (maxOf l) (maxOf l') := by
  have hfold : ∀ (l : List Nat) (n : Nat), l.foldl max n = max n (maxOf l) := by
    intro l
    induction l with
    | nil => intro n; simp [maxOf]
    | cons a l ih => intro n; rw [maxOf, List.foldl_cons, List.foldl_cons, ih, ih]; omega
  rw [maxOf, List.foldl_append, hfold l']; rfl

theorem maxOf_perm {l l' : List Nat} (h : l.Perm l') : maxOf l = maxOf l' :=
  h.foldl_eq' (fun a _ b _ c => by omega) 0

theorem latestOf_perm {l l' : List (Option Time)} (h : l.Perm l') : latestOf l = latestOf l' :=
  latestOf_congr fun _ => h.mem_iff

theorem addEvents_append (l l' : List WatchEvent) :
    (s.addEvents l).addEvents l' = s.addEvents (l ++ l') := by
  unfold addEvents
  rw [List.length_append, List.map_append, earliestOf_append, latestOf_append, Nat.add_assoc,
    earliest_assoc,
    latest_assoc]

theorem addStates_append (l l' : List WatchState) :
    (s.addStates l).addStates l' = s.addStates (l ++ l') := by
  unfold addStates
  rw [List.map_append, List.map_append, List.map_append, maxOf_append, maxOf_append,
    latestOf_append, latest_assoc,
    max_assoc, max_assoc]

theorem addEvents_perm {l l' : List WatchEvent} (h : l.Perm l') :
    s.addEvents l = s.addEvents l' := by
  unfold addEvents
  rw [h.length_eq, earliestOf_perm (h.map _), latestOf_perm (h.map _)]

theorem addStates_perm {l l' : List WatchState} (h : l.Perm l') :
    s.addStates l = s.addStates l' := by
  unfold addStates
  rw [maxOf_perm (h.map _), maxOf_perm (h.map _), latestOf_perm (h.map _)]

theorem foldl_addEvents (groups : List (Nat × List WatchEvent)) :
    groups.foldl (fun s g => s.addEvents g.2) s = s.addEvents (groups.flatMap Prod.snd) := by
  induction groups generalizing s with
  | nil => unfold addEvents; simp [earliestOf]
  | cons g groups ih => rw [List.foldl_cons, ih, addEvents_append]; rfl

theorem foldl_addStates (groups : List (Nat × List WatchState)) :
    groups.foldl (fun s g => s.addStates g.2) s = s.addStates (groups.flatMap Prod.snd) := by
  induction groups generalizing s with
  | nil => unfold addStates; simp [maxOf]
  | cons g groups ih => rw [List.foldl_cons, ih, addStates_append]; rfl

end Stats

theorem entryTotals_perm (entryOf : Nat → Option Nat) {events events' : List WatchEvent}
    {states states' : List WatchState}
    (hevents : events.Perm events') (hstates : states.Perm states') (e : Nat) :
    entryTotals entryOf events states e = entryTotals entryOf events' states' e := by
  unfold entryTotals
  simp only [Stats.foldl_addEvents, Stats.foldl_addStates]
  have hev : ((groupBy (·.mediaItemId) (entryEvents entryOf events e)).flatMap Prod.snd).Perm
      ((groupBy (·.mediaItemId) (entryEvents entryOf events' e)).flatMap Prod.snd) :=
    (flatMap_groupBy_perm _ _).trans
      (((hevents.filter _).filter _).trans (flatMap_groupBy_perm _ _).symm)
  have hst : ((groupBy (·.mediaItemId) (entryStates entryOf states e)).flatMap Prod.snd).Perm
      ((groupBy (·.mediaItemId) (entryStates entryOf states' e)).flatMap Prod.snd) :=
    (flatMap_groupBy_perm _ _).trans ((hstates.filter _).trans (flatMap_groupBy_perm _ _).symm)
  rw [Stats.addEvents_perm hev, Stats.addStates_perm hst]

theorem foldActivity_perm (entryOf : Nat → Option Nat) (ancestors : Nat → List Nat)
    {events events' : List WatchEvent}
    {states states' : List WatchState} (hevents : events.Perm events')
    (hstates : states.Perm states') :
    foldActivity entryOf ancestors events states =
      foldActivity entryOf ancestors events' states' := by
  have hactivity : ∀ i, (activityByItem events states).lookup i =
      (activityByItem events' states').lookup i := by
    intro i
    rw [lookup_activityByItem, lookup_activityByItem,
      Stats.latestOf_perm (((hevents.filter _).filter _).map _),
      Stats.latestOf_perm ((hstates.filter _).map _)]
  funext e
  rw [foldActivity_apply, foldActivity_apply, entryTotals_perm entryOf hevents hstates]
  congr 1
  refine latestOf_congr fun t => ?_
  rw [mem_entryPlayed, mem_entryPlayed]
  simp only [hactivity]

/-- The tables that the rebuild reads hold the same rows. -/
structure Database.SameRows (db db' : Database) : Prop where
  identity : db.identityRows.SameRows db'.identityRows
  watchEvents : db.watchEvents.rows.Perm db'.watchEvents.rows
  watchStates : db.watchStates.rows.Perm db'.watchStates.rows

namespace Database.SameRows
variable {db db' : Database} (h : db.SameRows db') {py : PyLib}
include h

theorem projectedMembers : db.projectedMembers py = db'.projectedMembers py := by
  unfold Database.projectedMembers
  rw [h.identity.members]

theorem canonicalByItem : db.canonicalByItem py = db'.canonicalByItem py := by
  funext i; unfold Database.canonicalByItem; rw [h.projectedMembers]

theorem ancestorsOf : db.ancestorsOf = db'.ancestorsOf := by
  funext i
  unfold Database.ancestorsOf walkFuel
  have hlen : db.mediaItems.rows.length = db'.mediaItems.rows.length :=
    h.identity.mediaItems.length_eq
  rw [h.identity.parentOf, hlen]

theorem availableReferences : db.availableReferences.Perm db'.availableReferences := by
  have hrow : (fun r : SourceMediaRef => (db.sources.get? r.sourceId).map fun source =>
      (r.mediaItemId, source.connectorType)) =
      fun r => (db'.sources.get? r.sourceId).map fun source =>
        (r.mediaItemId, source.connectorType) := by
    funext r
    have hsource : db.sources.get? r.sourceId = db'.sources.get? r.sourceId :=
      Table.get?_of_perm h.identity.sources _
    rw [hsource]
  unfold Database.availableReferences
  rw [hrow]
  exact (h.identity.sourceMediaRefs.filter _).filterMap _

theorem rebuiltStats : db.rebuiltStats py = db'.rebuiltStats py := by
  unfold Database.rebuiltStats
  dsimp only
  rw [h.canonicalByItem, h.ancestorsOf, foldActivity_perm _ _ h.watchEvents h.watchStates]
  funext e
  rw [foldl_modifyAt fun row : Nat × ConnectorType => db'.canonicalByItem py row.1,
    foldl_modifyAt fun row : Nat × ConnectorType => db'.canonicalByItem py row.1]
  refine (h.availableReferences.filter _).foldl_eq' (fun a _ b _ s => ?_) _
  simp only [Bool.or_right_comm]

theorem rebuiltChildren (e : Nat) : (db.rebuiltChildren py e).Perm (db'.rebuiltChildren py e) := by
  have hmem : ∀ i, i ∈ (db.availableReferences.map (·.1)).eraseDups ↔
      i ∈ (db'.availableReferences.map (·.1)).eraseDups := by
    intro i
    rw [List.mem_eraseDups, List.mem_eraseDups]
    exact (h.availableReferences.map _).mem_iff
  unfold Database.rebuiltChildren
  refine (List.perm_ext_iff_of_nodup (nodup_eraseDups _) (nodup_eraseDups _)).2 fun x => ?_
  rw [← childrenOf, ← childrenOf, mem_childrenOf, mem_childrenOf, h.identity.kindOf, h.ancestorsOf,
    h.canonicalByItem]
  refine exists_congr fun i => and_congr_left' ?_
  rw [List.mem_filter, List.mem_filter, hmem]

theorem rebuiltEntry (now : Time) : db.rebuiltEntry py now = db'.rebuiltEntry py now := by
  funext key
  unfold Database.rebuiltEntry
  simp only [h.rebuiltStats, h.identity.kindOf, (h.rebuiltChildren key.1).length_eq,
    (h.rebuiltChildren key.1).countP_eq]

end Database.SameRows

end Euvieouvi
