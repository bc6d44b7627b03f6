import Euvieouvi.Projection.Partition
import Euvieouvi.Reconcile.Steps

/-!
# Calls of the reconciliation

Every group an entry point merges is of one kind, and `_canonical` keeps a manual match. So what a
call does to a layered catalog is a sequence of steps.
-/

namespace Euvieouvi

namespace Database
variable {db db' : Database}

/-! ### The kind of a group -/

/-- The items of the group that are there have one kind. -/
def OneKind (db : Database) (ids : List Nat) : Prop :=
  ∃ k, ∀ i ∈ ids, ∀ k', db.identityRows.kindOf i = some k' → k' = k

theorem OneKind.of_kindsKept {ids : List Nat} (h : db.OneKind ids) (hr : KindsKept db db') :
    db'.OneKind ids := by
  obtain ⟨k, hk⟩ := h
  exact ⟨k, fun i hi k' hk' => hk i hi k' (hr i k' hk')⟩

theorem OneKind.later {ids : List Nat} (h : db.OneKind ids) (hr : Remains db db') :
    db'.OneKind ids :=
  h.of_kindsKept (.of_remains hr)

theorem OneKind.of_const {ids : List Nat} (kind : Option MediaKind)
    (h : ∀ i ∈ ids, db.identityRows.kindOf i = kind) :
    db.OneKind ids := by
  refine ⟨kind.getD .movie, fun i hi k' hk' => ?_⟩
  rw [h i hi] at hk'
  rw [hk', Option.getD_some]

/-- The check of `merge_confirmed_items`. -/
theorem OneKind.of_single {ids : List Nat}
    (h : (ids.map db.identityRows.kindOf).eraseDups.length ≤ 1) : db.OneKind ids := by
  rcases ids with _ | ⟨first, rest⟩
  · exact ⟨.movie, fun i hi => absurd hi List.not_mem_nil⟩
  · refine OneKind.of_const (db.identityRows.kindOf first) fun i hi => ?_
    exact eq_of_length_le_one h (List.mem_eraseDups.2 (List.mem_map_of_mem hi))
      (List.mem_eraseDups.2 (List.mem_map_of_mem List.mem_cons_self))

/-- The query of `reconcile_matching_items`. -/
theorem oneKind_matching (db : Database) (kind : MediaKind) (stable : List ExternalIdentifier) :
    db.OneKind ((db.mediaIdentifiers.rows.filter fun r => (db.identityRows.kindOf r.mediaItemId) =
      some kind &&
      stable.contains ⟨r.provider, r.externalId⟩).map (·.mediaItemId)).eraseDups := by
  refine OneKind.of_const (some kind) fun i hi => ?_
  rw [List.mem_eraseDups] at hi
  obtain ⟨r, hr, rfl⟩ := List.mem_map.1 hi
  have hsel := (List.mem_filter.1 hr).2
  simp only [Bool.and_eq_true, decide_eq_true_eq] at hsel
  exact hsel.1

section Physical

theorem mem_physicalRows {only : Option Nat} {row : PhysicalRow × Nat × Option Nat}
    (h : row ∈ db.physicalRows only) :
    ∃ i m, db.mediaItems.get? i = some m ∧ row.1.kind = m.kind ∧ row.2.2 = db.physicalOwner m := by
  unfold physicalRows at h
  obtain ⟨f, -, h⟩ := List.mem_filterMap.1 h
  obtain ⟨r, -, h⟩ := Option.bind_eq_some_iff.1 h
  obtain ⟨source, -, h⟩ := Option.bind_eq_some_iff.1 h
  obtain ⟨m, hm, h⟩ := Option.bind_eq_some_iff.1 h
  dsimp only at h
  split at h
  · rw [← Option.some_inj.1 h]
    exact ⟨_, m, hm, rfl, rfl⟩
  · cases h

/-- A file of an episode counts for a show. -/
theorem kindOf_physicalOwner (hl : db.Layered) {i owner : Nat} {m : MediaItem} {k : MediaKind}
    (hm : db.mediaItems.get? i = some m) (h : db.physicalOwner m = some owner)
    (hk : db.identityRows.kindOf owner = some k) :
    k = if m.kind = .episode then .show else m.kind := by
  unfold physicalOwner at h
  split at h
  next hepisode =>
    obtain ⟨season, hseason, h⟩ := Option.bind_eq_some_iff.1 h
    obtain ⟨p, -, hseason⟩ := Option.bind_eq_some_iff.1 hseason
    rw [if_pos hepisode]
    split at h
    next hkind =>
      have hfits := hl p season hseason
      rw [hkind, h] at hfits
      obtain ⟨kp, hkp, hshow⟩ := parentFits_some.1 hfits
      cases hkp
      exact Option.some_inj.1 (hk.symm.trans hshow)
    · cases h
  next hepisode =>
    rw [if_neg hepisode]
    cases h
    have hkind : db.identityRows.kindOf m.id = some m.kind :=
      IdentityRows.kindOf_of_mem (Table.mem_of_get? hm)
    exact Option.some_inj.1 (hk.symm.trans hkind)

theorem oneKind_physicalGroups (hl : db.Layered) {only : Option Nat} {ids : List Nat}
    (h : ids ∈ db.physicalGroups only) :
    db.OneKind ids := by
  unfold physicalGroups at h
  simp only [List.mem_insertionSort, List.mem_eraseDups, List.mem_map, List.mem_filter] at h
  obtain ⟨rows, ⟨⟨⟨key, rows'⟩, hgroup, rfl⟩, -⟩, rfl⟩ := h
  obtain ⟨rfl, -⟩ := mem_groupBy hgroup
  refine ⟨if key.kind = .episode then .show else key.kind, fun owner howner k hk => ?_⟩
  simp only [List.mem_insertionSort, List.mem_eraseDups, List.mem_filterMap, List.mem_filter,
    decide_eq_true_eq] at howner
  obtain ⟨row, ⟨hrow, rfl⟩, howner⟩ := howner
  obtain ⟨i, m, hm, hkind, hphysical⟩ := mem_physicalRows hrow
  rw [hkind]
  exact kindOf_physicalOwner hl hm (hphysical.symm.trans howner) hk

end Physical

section Duplicates

theorem kindOf_identifierRows {row : List Nat} (h : row ∈ db.identifierRows) :
    ∃ k, ∀ i ∈ row, db.identityRows.kindOf i = some k := by
  unfold identifierRows at h
  obtain ⟨hrow, -⟩ := List.mem_filter.1 h
  obtain ⟨⟨key, rows⟩, hgroup, rfl⟩ := List.mem_map.1 hrow
  obtain ⟨rfl, -⟩ := mem_groupBy hgroup
  refine ⟨key.2.2, fun i hi => ?_⟩
  simp only [List.mem_eraseDups, List.mem_map, List.mem_filter, List.mem_filterMap,
    decide_eq_true_eq] at hi
  obtain ⟨pair, ⟨⟨r, -, hpair⟩, rfl⟩, rfl⟩ := hi
  obtain ⟨m, hm, hpair⟩ := Option.bind_eq_some_iff.1 hpair
  split at hpair
  · rw [← Option.some_inj.1 hpair]
    exact IdentityRows.kindOf_of_mem (Table.mem_of_get? hm)
  · cases hpair

theorem joinRow_labelled {row : List Nat} {k : Option MediaKind}
    (hk : ∀ i ∈ row, db.identityRows.kindOf i = k)
    {u : UnionFind Nat} (hu : u.Labelled db.identityRows.kindOf) :
    (joinRow u row).Labelled db.identityRows.kindOf := by
  rcases row with _ | ⟨first, rest⟩
  · exact hu
  have hloop : ∀ (rest : List Nat) (u : UnionFind Nat) (root : Nat),
      (∀ i ∈ rest, db.identityRows.kindOf i = k) →
      u.Labelled db.identityRows.kindOf → u.root root = root → db.identityRows.kindOf root = k →
        (rest.foldl (fun u i => if root ≠
          (u.find i).1 then (u.find i).2.link (u.find i).1 root else (u.find i).2) u).Labelled
          db.identityRows.kindOf := by
    intro rest
    induction rest with
    | nil => exact fun _ _ _ hu _ _ => hu
    | cons i rest ih =>
      intro u root hrest hu hroot hkroot
      have hfind := hu.find i
      rw [List.foldl_cons]
      refine ih _ root (fun j hj => hrest j (List.mem_cons_of_mem i hj)) ?_ ?_ hkroot
      all_goals
        rw [UnionFind.find_fst]
      · split
        · refine hfind.link (by simp) (by simpa using hroot) ?_
          rw [hu i, hrest i List.mem_cons_self, hkroot]
        · exact hfind
      · split
        next hne =>
          rw [UnionFind.root_link]
          · simp [hroot, hne]
          · simpa using (u.find i).2.parent_root i
          · simpa [hroot] using (u.find i).2.parent_root root
        next => simpa using hroot
  have hfirst := hk first List.mem_cons_self
  refine hloop rest (u.find first).2 (u.find first).1
    (fun i hi => hk i (List.mem_cons_of_mem first hi)) (hu.find first) ?_ ?_
  · simp
  · rw [UnionFind.find_fst, hu first, hfirst]

theorem oneKind_duplicateGroups {ids : List Nat} (h : ids ∈ db.duplicateGroups) :
    db.OneKind ids := by
  have hrows : ∀ (rows : List (List Nat)) (u : UnionFind Nat),
      (∀ row ∈ rows, row ∈ db.identifierRows) →
      u.Labelled db.identityRows.kindOf →
        (rows.foldl joinRow u).Labelled db.identityRows.kindOf := by
    intro rows
    induction rows with
    | nil => exact fun _ _ hu => hu
    | cons row rows ih =>
      intro u hrows hu
      obtain ⟨k, hk⟩ := kindOf_identifierRows (hrows row List.mem_cons_self)
      exact ih _ (fun r hr => hrows r (List.mem_cons_of_mem row hr)) (joinRow_labelled hk hu)
  have hlabelled := hrows db.identifierRows .singletons (fun _ h => h) (.singletons _)
  unfold duplicateGroups at h
  obtain ⟨hmem, -⟩ := List.mem_filter.1 h
  obtain ⟨⟨root, members⟩, hgroup, rfl⟩ := List.mem_map.1 hmem
  obtain ⟨rfl, -⟩ := mem_groupBy hgroup
  refine OneKind.of_const (db.identityRows.kindOf root) fun i hi => ?_
  simp only [List.mem_insertionSort, List.mem_filter, decide_eq_true_eq, UnionFind.find_fst] at hi
  rw [← hi.2]
  exact (hlabelled i).symm

end Duplicates

section Canonical
variable {items : List Nat} {i c : Nat} {x y : String}

theorem manualMatchOf_eq_of_agree (h : db.manualConflict items = false) (hi : i ∈ items)
    (hc : c ∈ items)
    (hx : db.identityRows.manualMatchOf i = some x)
    (hy : db.identityRows.manualMatchOf c = some y) : x = y := by
  unfold manualConflict at h
  have hlen : (items.filterMap db.identityRows.manualMatchOf).eraseDups.length ≤ 1 := by
    simpa using h
  refine eq_of_length_le_one hlen ?_ ?_ <;> rw [List.mem_eraseDups, List.mem_filterMap]
  exacts [⟨i, hi, hx⟩, ⟨c, hc, hy⟩]

theorem preferred_of_manual {a b : Nat}
    (h : (db.identityRows.manualMatchOf a).isSome ≠ (db.identityRows.manualMatchOf b).isSome) :
    db.preferred a b = (db.identityRows.manualMatchOf a).isSome := by
  unfold preferred
  dsimp only
  rw [if_pos (by simpa using h)]

/-- `_canonical` takes an item with a manual match if there is one. -/
theorem canonical_manual (hi : i ∈ items) (hx : (db.identityRows.manualMatchOf i).isSome = true) :
    (db.identityRows.manualMatchOf (db.canonical items)).isSome = true := by
  have hloop : ∀ (rest : List Nat) (best : Nat),
      ((db.identityRows.manualMatchOf best).isSome = true ∨
        ∃ i ∈ rest, (db.identityRows.manualMatchOf i).isSome = true) →
        (db.identityRows.manualMatchOf
          (rest.foldl (fun best i => if db.preferred best i then best else i) best)).isSome =
            true := by
    intro rest
    induction rest with
    | nil =>
      rintro best (h | ⟨i, hi, -⟩)
      exacts [h, absurd hi List.not_mem_nil]
    | cons j rest ih =>
      intro best h
      rw [List.foldl_cons]
      apply ih
      by_cases hbest : (db.identityRows.manualMatchOf best).isSome = true
      · left
        split
        next => exact hbest
        next hpreferred =>
          by_contra hj
          refine hpreferred ?_
          rw [preferred_of_manual (by rw [hbest]; exact fun heq => hj heq.symm), hbest]
      · rcases h with h | ⟨i, hi, hsome⟩
        · exact absurd h hbest
        · rcases List.mem_cons.1 hi with rfl | hi
          · left
            rw [if_neg]
            · exact hsome
            · rwa [preferred_of_manual (by rw [hsome]; exact hbest)]
          · exact .inr ⟨i, hi, hsome⟩
  cases items with
  | nil => cases hi
  | cons first rest =>
    refine hloop rest first ?_
    rcases List.mem_cons.1 hi with rfl | hi
    exacts [.inl hx, .inr ⟨i, hi, hx⟩]

theorem safeSources_manual {physical : Bool} (h : db.safeSources items physical = true) :
    db.manualConflict items = false := by
  unfold safeSources at h
  dsimp only at h
  split_ifs at h with hmanual
  simpa using hmanual

end Canonical

section Groups
variable {py : PyLib} {L G : Prop} {items ids : List Nat} {c : Nat} {physical : Bool}
  {log : List MergeStep}

theorem mergeGroupInto_steps (now : Time) (hr : db.Rooted) (hl : L → db.Layered)
    (hk : L → db.OneKind items) (hc : c ∈ items)
    (hpresent : db.mediaItems.contains c = true) (hsafe : db.safeSources items physical = true)
    (hmanual : G → ∀ i ∈ items, (db.identityRows.manualMatchOf i).isSome = true →
      (db.identityRows.manualMatchOf c).isSome = true) :
    ReconcileSteps py L G db (db.mergeDuplicates now c items).2
      (db.mergeDuplicates now c items).1 := by
  refine mergeDuplicates_steps now hr hl hpresent fun d hd hne =>
    ⟨hne, fun hL => ?_, fun hG x hx => ?_⟩
  · obtain ⟨k, hk⟩ := hk hL
    obtain ⟨m, hm⟩ := Option.isSome_iff_exists.1 hpresent
    have hkind : db.identityRows.kindOf c = some m.kind := Option.map_eq_some_iff.2 ⟨m, hm, rfl⟩
    obtain rfl := hk c hc _ hkind
    exact ⟨m.kind, hkind, hk d hd⟩
  · obtain ⟨y, hy⟩ :=
      Option.isSome_iff_exists.1 (hmanual hG d hd (Option.isSome_iff_exists.2 ⟨x, hx⟩))
    rw [hy, manualMatchOf_eq_of_agree (safeSources_manual hsafe) hd hc hx hy]

theorem OneKind.live (h : db.OneKind ids) : db.OneKind (db.live ids) := by
  obtain ⟨k, hk⟩ := h
  exact ⟨k, fun i hi => hk i (List.mem_filter.1 hi).1⟩

theorem mergeGroup_steps (now : Time) (hr : db.Rooted) (hl : L → db.Layered)
    (hk : L → db.OneKind ids) {d : Database}
    (h : db.mergeGroup now ids physical = some (d, log)) : ReconcileSteps py L G db log d := by
  unfold mergeGroup at h
  dsimp only at h
  split_ifs at h with hunsafe
  obtain ⟨hne, hsafe⟩ := passed hunsafe
  have hc := db.canonical_mem hne
  have hsteps : ReconcileSteps py L G db _ _ :=
    mergeGroupInto_steps now hr hl (fun hL => (hk hL).live) hc (mem_live hc) hsafe
    fun _ i hi hx => canonical_manual hi hx
  rw [Option.some_inj.1 h] at hsteps
  exact hsteps

theorem stale_steps {d : Database} (h : ReconcileSteps py L G db log d) (p : Prop) [Decidable p] :
    ReconcileSteps py L G db log (if p then d else d.markProjectionStale) := by
  split
  exacts [h, h.quiet (.stale d)]

end Groups

/-! ### Entry points -/

section Calls
variable {py : PyLib} {L G : Prop}

theorem reconcilePhysicalItem_steps (now : Time) (item : Nat) (hr : db.Rooted)
    (hl : L → db.Layered) :
    ReconcileSteps py L G db (db.reconcilePhysicalItem now item).2
      (db.reconcilePhysicalItem now item).1 := by
  have hloop : ∀ (groups : List (List Nat)) (acc : Database × List MergeStep),
      (∀ ids ∈ groups, L → db.OneKind ids) →
      ReconcileSteps py L G db acc.2 acc.1 →
        ReconcileSteps py L G db (groups.foldl (reconcilePhysicalGroup now) acc).2
          (groups.foldl (reconcilePhysicalGroup now) acc).1 := by
    intro groups
    induction groups with
    | nil => exact fun _ _ h => h
    | cons ids groups ih =>
      intro acc hgroups hsteps
      refine ih _ (fun g hg => hgroups g (List.mem_cons_of_mem ids hg)) ?_
      unfold reconcilePhysicalGroup
      split
      next d log hgroup =>
        have hk : L → acc.1.OneKind ids :=
          fun hL => (hgroups ids List.mem_cons_self hL).later hsteps.remains
        exact hsteps.trans
          (mergeGroup_steps now (hsteps.rooted hr) (fun hL => hsteps.layered hL (hl hL)) hk hgroup)
      next => exact hsteps
  have hsteps := hloop (db.physicalGroups (some item)) (db, [])
    (fun ids hids hL => oneKind_physicalGroups (hl hL) hids) (.refl db)
  unfold reconcilePhysicalItem
  generalize (db.physicalGroups (some item)).foldl (reconcilePhysicalGroup now) (db, []) =
    merged at hsteps ⊢
  obtain ⟨d, log⟩ := merged
  dsimp only
  split
  exacts [hsteps, hsteps.quiet (.stale d)]

theorem reconcileMatchingItems_steps (now : Time) (kind : MediaKind)
    (identifiers : List ExternalIdentifier)
    (preferred : Option Nat) (hr : db.Rooted) (hl : L → db.Layered)
    (hpreferred : G → ∀ i, preferred = some i → (db.identityRows.manualMatchOf i).isSome = true) :
    ReconcileSteps py L G db (db.reconcileMatchingItems now kind identifiers preferred).2
      (db.reconcileMatchingItems now kind identifiers preferred).1 := by
  unfold reconcileMatchingItems
  dsimp only
  split
  · exact .refl db
  next hstable =>
    split
    · exact .refl db
    next hunsafe =>
      set ids := ((db.mediaIdentifiers.rows.filter fun r => (db.identityRows.kindOf r.mediaItemId) =
        some kind &&
        (identifiers.filter fun i => stableProviders.contains i.provider &&
          i.externalId ≠ "").contains
          ⟨r.provider, r.externalId⟩).map (·.mediaItemId)).eraseDups with hids
      have hk : db.OneKind ids := db.oneKind_matching kind _
      clear_value ids
      obtain ⟨hne, hsafe⟩ := passed hunsafe
      set c := (preferred.filter (db.live ids).contains).getD (db.canonical (db.live ids)) with hc
      have hmem : c ∈ db.live ids ∧
          (G → ∀ i ∈ db.live ids, (db.identityRows.manualMatchOf i).isSome = true →
          (db.identityRows.manualMatchOf c).isSome = true) := by
        rw [hc]
        cases hp : preferred.filter (db.live ids).contains with
        | none => exact ⟨canonical_mem _ hne, fun _ i hi hx => canonical_manual hi hx⟩
        | some i =>
          obtain ⟨hsome, hcontains⟩ := Option.filter_eq_some_iff.1 hp
          exact ⟨by simpa using hcontains, fun hG _ _ _ => hpreferred hG i hsome⟩
      have hsteps : ReconcileSteps py L G db _ _ :=
        mergeGroupInto_steps now hr hl (fun _ => hk.live) hmem.1 (mem_live hmem.1) hsafe hmem.2
      generalize db.mergeDuplicates now c (db.live ids) = merged at hsteps ⊢
      obtain ⟨d, log⟩ := merged
      dsimp only
      split
      exacts [hsteps, hsteps.quiet (.stale d)]

theorem mergeConfirmedItems_steps (now : Time) {ids : List Nat} (hr : db.Rooted)
    (hl : L → db.Layered) {d : Database}
    {log : List MergeStep} (h : db.mergeConfirmedItems now ids = .ok (d, log)) :
    ReconcileSteps py L G db log d := by
  unfold mergeConfirmedItems at h
  dsimp only at h
  split at h
  · cases h
  next hmissing =>
    split at h
    · cases h
    next hkinds =>
      split at h
      · cases h
      next hunsafe =>
        have hpassed :
            ¬ ((db.live ids).length < 2 ∨ (!db.safeSources (db.live ids) false) = true) :=
          fun hor => hor.elim (fun hlt => hmissing (.inr hlt)) hunsafe
        obtain ⟨hne, hsafe⟩ := passed hpassed
        have hk : db.OneKind (db.live ids) := .of_single (by omega)
        have hc := db.canonical_mem hne
        have hsteps : ReconcileSteps py L G db _ _ :=
          mergeGroupInto_steps now hr hl (fun _ => hk) hc (mem_live hc) hsafe
          fun _ i hi hx => canonical_manual hi hx
        generalize db.mergeDuplicates now (db.canonical (db.live ids)) (db.live ids) =
          merged at hsteps h
        obtain ⟨d', log'⟩ := merged
        have hd : (if log' = [] then d' else d'.markProjectionStale) = d :=
          congrArg Prod.fst (Except.ok.inj h)
        have hlog : log' = log := congrArg Prod.snd (Except.ok.inj h)
        rw [← hd, ← hlog]
        exact stale_steps hsteps _

/-! The items whose titles are read are rows of the table, and each is read once. -/

theorem recoverEmbeddedIdentifiers_steps {py : PyLib} {now : Time} {s : Recovery}
    (h : db.recoverEmbeddedIdentifiers py now = some s) : ReconcileSteps py L G db [] s.db := by
  have hloop : ∀ (items : List MediaItem) (s s' : Recovery), (items.map (·.id)).Nodup →
      (∀ m ∈ items, s.db.mediaItems.get? m.id = some m) →
        items.foldlM (recoverItem py now) s = some s' →
        ReconcileSteps py L G s.db [] s'.db := by
    intro items
    induction items with
    | nil =>
      intro s s' _ _ h
      cases h
      exact .refl _
    | cons m items ih =>
      intro s s' hnodup hrows h
      obtain ⟨hm, hnodup⟩ := List.nodup_cons.1 hnodup
      rw [List.foldlM_cons] at h
      obtain ⟨s₁, hs₁, h⟩ := Option.bind_eq_some_iff.1 h
      have hstep : ReconcileSteps py L G s.db [] s₁.db :=
        .single (.recover now s s₁ m (hrows m List.mem_cons_self) hs₁)
      refine hstep.trans (ih s₁ s' hnodup (fun m' hm' => ?_) h)
      have hold := hrows m' (List.mem_cons_of_mem m hm')
      rcases recoverItem_spec hs₁ with heq | ⟨metadata, -, -, hids⟩
      · rw [heq]; exact hold
      · rw [show s₁.db.mediaItems = _ from hids.frame .mediaItems (by decide)]
        obtain ⟨g, hget, hg⟩ := s.db.saveMediaItem_row now m.id m'.id
          ⟨fun m => { m with title := metadata.title }, fun _ => rfl⟩
        refine hget.trans ?_
        rw [hold, Option.map_some]
        rcases hg m' with heq | ⟨hid, -⟩
        · rw [heq]
        · exact absurd (List.mem_map.2 ⟨m', hm', hid⟩) hm
  unfold recoverEmbeddedIdentifiers at h
  exact hloop _ { db := db } s ((List.filter_sublist.map _).nodup db.mediaItems.nodup)
    (fun m hm => Table.get?_of_mem (List.mem_filter.1 hm).1) h

/-- The database a run of `reconcile_catalog` commits, or rolls back after a dry run. -/
theorem reconcileCatalog_steps {py : PyLib} {now : Time} {dryRun : Bool} (hr : db.Rooted)
    (hl : L → db.Layered)
    {result : ReconcileResult} {d : Database} {log : List MergeStep}
    (h : db.reconcileCatalog py now dryRun = some (result, d, log)) :
    ∃ d', ReconcileSteps py L G db log d' ∧ d = if dryRun then db else d' := by
  have hloop : ∀ (groups : List (List Nat × Bool)) (s : ReconcileLoop) (db₀ : Database),
      db₀.Rooted → (L → db₀.Layered) →
      (∀ group ∈ groups, L → db₀.OneKind group.1) → ReconcileSteps py L G db₀ s.log s.db →
        ReconcileSteps py L G db₀ (groups.foldl (reconcileGroup now) s).log
          (groups.foldl (reconcileGroup now) s).db := by
    intro groups
    induction groups with
    | nil => exact fun s db₀ _ _ _ h => h
    | cons group groups ih =>
      intro s db₀ hr hl hgroups hsteps
      refine ih _ db₀ hr hl (fun g hg => hgroups g (List.mem_cons_of_mem group hg)) ?_
      unfold reconcileGroup
      dsimp only
      split
      · exact hsteps
      · split
        next => exact hsteps
        next d log hgroup =>
          have hk : L → s.db.OneKind group.1 :=
            fun hL => (hgroups group List.mem_cons_self hL).later hsteps.remains
          exact hsteps.trans (mergeGroup_steps now (hsteps.rooted hr)
            (fun hL => hsteps.layered hL (hl hL)) hk hgroup)
  unfold reconcileCatalog at h
  obtain ⟨recovery, hrecovery, hresult⟩ := Option.map_eq_some_iff.1 h
  have hrecovered : ReconcileSteps py L G db [] recovery.db :=
    recoverEmbeddedIdentifiers_steps hrecovery
  have hlayered : L → recovery.db.Layered := fun hL => hrecovered.layered hL (hl hL)
  dsimp only at hresult
  set groups := recovery.db.physicalGroups.map (·, true) ++
    (recovery.db.duplicateGroups.filter fun ids => !recovery.db.physicalGroups.contains ids).map
      (·, false) with hgroups
  have hsteps := hloop groups { db := recovery.db } recovery.db (hrecovered.rooted hr) hlayered
    (fun group hgroup hL => ?_)
    (.refl _)
  · have hd := congrArg (fun r => r.2.1) hresult
    have hlog := congrArg (fun r => r.2.2) hresult
    dsimp only at hd hlog
    rw [← hlog, ← hd]
    refine ⟨_, ?_, rfl⟩
    split
    exacts [(hrecovered.trans hsteps).quiet (.stale _), hrecovered.trans hsteps]
  · rw [hgroups] at hgroup
    rcases List.mem_append.1 hgroup with hgroup | hgroup
    · obtain ⟨ids, hids, rfl⟩ := List.mem_map.1 hgroup
      exact oneKind_physicalGroups (hlayered hL) hids
    · obtain ⟨ids, hids, rfl⟩ := List.mem_map.1 hgroup
      exact oneKind_duplicateGroups (List.mem_filter.1 hids).1

/-- The database after a call; one that raises is rolled back. -/
def ReconcileCall.apply (py : PyLib) (now : Time) (db : Database) : ReconcileCall → Database
  | catalog dryRun => ((db.reconcileCatalog py now dryRun).map (·.2.1)).getD db
  | matching kind identifiers preferred =>
    (db.reconcileMatchingItems now kind identifiers preferred).1
  | physical item => (db.reconcilePhysicalItem now item).1
  | confirmed ids => match db.mergeConfirmedItems now ids with
    | .ok (merged, _) => merged
    | .error _ => db

/-- The merges of a call that last: those of a dry run are rolled back. -/
def ReconcileCall.lasting (py : PyLib) (now : Time) (db : Database) : ReconcileCall → List MergeStep
  | catalog true => []
  | call => call.merges py now db

/-- The item a caller prefers has a manual match. -/
def ReconcileCall.PrefersManual (db : Database) : ReconcileCall → Prop
  | matching _ _ (some preferred) => (db.identityRows.manualMatchOf preferred).isSome = true
  | _ => True

/-- A call is a sequence of steps. -/
theorem ReconcileCall.steps (py : PyLib) (now : Time) (hr : db.Rooted) (hl : L → db.Layered)
    (call : ReconcileCall)
    (hprefers : G → call.PrefersManual db) : ReconcileSteps py L G db (call.lasting py now db)
    (call.apply py now db) := by
  cases call with
  | catalog dryRun =>
    cases dryRun with
    | true =>
      show ReconcileSteps py L G db [] (((db.reconcileCatalog py now true).map (·.2.1)).getD db)
      cases h : db.reconcileCatalog py now true with
      | none => exact .refl db
      | some result =>
        obtain ⟨d, -, hd⟩ := reconcileCatalog_steps (G := G) hr hl h
        rw [Option.map_some, Option.getD_some, hd]
        exact .refl db
    | false =>
      show ReconcileSteps py L G db (((db.reconcileCatalog py now false).map (·.2.2)).getD [])
        (((db.reconcileCatalog py now false).map (·.2.1)).getD db)
      cases h : db.reconcileCatalog py now false with
      | none => exact .refl db
      | some result =>
        obtain ⟨d, hsteps, hd⟩ := reconcileCatalog_steps (G := G) hr hl h
        rw [Option.map_some, Option.getD_some, Option.map_some, Option.getD_some, hd]
        exact hsteps
  | matching kind identifiers preferred =>
    refine reconcileMatchingItems_steps now kind identifiers preferred hr hl fun hG i hi => ?_
    subst hi
    exact hprefers hG
  | physical item => exact reconcilePhysicalItem_steps now item hr hl
  | confirmed ids =>
    dsimp only [apply, lasting, merges]
    cases h : db.mergeConfirmedItems now ids with
    | error e => exact .refl db
    | ok result => exact mergeConfirmedItems_steps now hr hl h

end Calls

end Database

end Euvieouvi
