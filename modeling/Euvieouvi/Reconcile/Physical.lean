import Euvieouvi.Reconcile.Entry
import Euvieouvi.Reconcile.Hierarchy
import Mathlib.Data.List.Pairwise

/-!
# What a group passed, and what a merge keeps

`_safe_sources` keeps two items of one source apart, and two items with different files apart when
it compares files. An item that a merge leaves has the kind and the manual match it had.
-/

namespace Euvieouvi

namespace Database
variable {db : Database} {items : List Nat} {x y : Nat}

/-- The kinds that have files of their own. -/
def isFileKind : MediaKind → Bool
  | .movie | .track | .episode => true
  | _ => false

theorem eq_of_length_le_one {α : Type} {l : List α} {a b : α} (h : l.length ≤ 1) (ha : a ∈ l)
    (hb : b ∈ l) : a = b := by
  match l, h with
  | [], _ => cases ha
  | [c], _ => rw [List.mem_singleton.1 ha, List.mem_singleton.1 hb]
  | _ :: _ :: _, h => simp at h

theorem mem_sourceIdsOf {rows : IdentityRows} {i source : Nat}
    (h : source ∈ rows.availableSourcesOf i) :
    source ∈ rows.sourceIdsOf i := by
  unfold IdentityRows.availableSourcesOf at h
  unfold IdentityRows.sourceIdsOf
  simp only [List.mem_eraseDups, List.mem_map, List.mem_filter, Bool.and_eq_true] at h ⊢
  obtain ⟨r, ⟨hr, hitem, -⟩, hsource⟩ := h
  exact ⟨r, ⟨hr, hitem⟩, hsource⟩

/-- An available source of a group that passed occurs once, or the group is two shows with an
anchor. -/
theorem safeSources_source {physical : Bool} (h : db.safeSources items physical = true)
    (hx : x ∈ items) {source : Nat} (hs : source ∈ db.identityRows.availableSourcesOf x) :
    items.countP (fun i => (db.identityRows.availableSourcesOf i).contains source) ≤ 1 ∨
      physical = true ∧ items.head?.bind db.identityRows.kindOf = some .show ∧
        db.splitShowHasFileAnchor items source = true := by
  unfold safeSources at h
  dsimp only at h
  split_ifs at h
  have howned : source ∈ (items.flatMap db.identityRows.sourceIdsOf).eraseDups :=
    List.mem_eraseDups.2 (List.mem_flatMap.2 ⟨x, hx, mem_sourceIdsOf hs⟩)
  have hsource := List.all_eq_true.1 h source howned
  simpa [and_assoc] using hsource

/-- No two items of a group that passed have an available source in common, if two of its items are
files. -/
theorem safeSources_apart {physical : Bool} {i j source : Nat} {k k' : MediaKind}
    (h : db.safeSources items physical = true)
    (hx : x ∈ items) (hy : y ∈ items) (hne : x ≠ y) (hkx : db.identityRows.kindOf x = some k)
    (hk : isFileKind k = true)
    (hky : db.identityRows.kindOf y = some k') (hk' : isFileKind k' = true) (hi : i ∈ items)
    (hj : j ∈ items)
    (hsi : source ∈ db.identityRows.availableSourcesOf i)
    (hsj : source ∈ db.identityRows.availableSourcesOf j) : i = j := by
  rcases safeSources_source h hi hsi with hcount | ⟨-, hshow, hsplit⟩
  · rw [List.countP_eq_length_filter] at hcount
    exact eq_of_length_le_one hcount (List.mem_filter.2 ⟨hi, by simpa using hsi⟩)
      (List.mem_filter.2 ⟨hj, by simpa using hsj⟩)
  · -- the exception is for two shows
    unfold splitShowHasFileAnchor at hsplit
    split at hsplit
    next first second =>
      have hfirst : db.identityRows.kindOf first = some .show := hshow
      have hcases : x = first ∨ y = first := by
        simp only [List.mem_cons, List.not_mem_nil, or_false] at hx hy
        grind
      rcases hcases with rfl | rfl
      · rw [hkx] at hfirst; cases hfirst; cases hk
      · rw [hky] at hfirst; cases hfirst; cases hk'
    · cases hsplit

theorem safeSources_pathsAgree {physical : Bool} (h : db.safeSources items physical = true)
    (hcompared : db.comparesFiles items = true) : db.pathsAgree items = true := by
  unfold safeSources at h
  dsimp only at h
  split_ifs at h with hmanual hpaths
  by_contra hno
  exact hpaths ⟨hcompared, by simpa using hno⟩

/-- Two items with files share one, if the group agrees. -/
theorem pathsAgree_pair (h : db.pathsAgree items = true) (hx : x ∈ items) (hy : y ∈ items)
    (hxp : db.identityRows.pathsOf x ≠ []) (hyp : db.identityRows.pathsOf y ≠ []) :
    ∃ key ∈ db.identityRows.pathsOf x, key ∈ db.identityRows.pathsOf y := by
  have hpair : ((items.map db.identityRows.pathsOf).filter (· ≠ [])).Pairwise fun left right =>
      ∃ key ∈ left, key ∈ right := of_decide_eq_true h
  have hmem : ∀ z ∈ items, db.identityRows.pathsOf z ≠ [] →
      db.identityRows.pathsOf z ∈ (items.map db.identityRows.pathsOf).filter (· ≠ []) :=
        fun z hz hzp =>
    List.mem_filter.2 ⟨List.mem_map_of_mem hz, by simpa using hzp⟩
  have hsymm : Std.Symm fun left right : List String => ∃ key ∈ left, key ∈ right :=
    ⟨fun left right ⟨key, hl, hr⟩ => ⟨key, hr, hl⟩⟩
  refine hpair.forall_of_forall (fun paths hpaths => ?_) (hmem x hx hxp) (hmem y hy hyp)
  have hknown : paths ≠ [] := by simpa using (List.mem_filter.1 hpaths).2
  obtain ⟨key, hkey⟩ := List.exists_mem_of_ne_nil paths hknown
  exact ⟨key, hkey, hkey⟩

end Database

/-! ### Kinds -/

/-- The row of an item that is still there is related to the row it had. -/
def RowsRelate (R : MediaItem → MediaItem → Prop) (db db' : Database) : Prop :=
  ∀ i m', db'.mediaItems.get? i = some m' → ∃ m, db.mediaItems.get? i = some m ∧ R m m'

namespace RowsRelate
variable {R : MediaItem → MediaItem → Prop} {db db' db'' : Database}

theorem refl (hrefl : ∀ m, R m m) (db : Database) : RowsRelate R db db :=
  fun _ m h => ⟨m, h, hrefl m⟩

theorem trans (htrans : ∀ {a b c}, R a b → R b c → R a c) (h : RowsRelate R db db')
    (h' : RowsRelate R db' db'') :
    RowsRelate R db db'' := by
  intro i m'' hm''
  obtain ⟨m', hm', hR'⟩ := h' i m'' hm''
  obtain ⟨m, hm, hR⟩ := h i m' hm'
  exact ⟨m, hm, htrans hR hR'⟩

theorem of_table {p : MediaItem → Bool} {f : Assignment MediaItem.id} (hrefl : ∀ m, R m m)
    (hf : ∀ m, R m (f m))
    (h : db'.mediaItems = db.mediaItems.update p f) : RowsRelate R db db' := by
  intro i m' hm'
  rw [h, Table.get?_update] at hm'
  obtain ⟨m, hm, rfl⟩ := Option.map_eq_some_iff.1 hm'
  refine ⟨m, hm, ?_⟩
  split
  exacts [hf m, hrefl m]

theorem of_frame {written : List Database.TableName} (hrefl : ∀ m, R m m)
    (h : Database.Frame written db db') (hw : .mediaItems ∉ written) : RowsRelate R db db' := by
  have hitems : db'.mediaItems = db.mediaItems := h .mediaItems hw
  exact fun _ m hm => ⟨m, hitems ▸ hm, hrefl m⟩

theorem of_delete (hrefl : ∀ m, R m m) (db : Database) (l : Nat) :
    RowsRelate R db (db.deleteMediaItem l) := by
  intro i m hm
  rw [Database.mediaItems_deleteMediaItem] at hm
  split at hm
  · rw [Table.get?_delete_key (fun _ => beq_iff_eq)] at hm
    split at hm
    exacts [absurd hm (by simp), ⟨m, hm, hrefl m⟩]
  · exact ⟨m, hm, hrefl m⟩

/-- What filling missing values and another parent keep, a merge keeps. -/
theorem of_merge (hrefl : ∀ m, R m m) (htrans : ∀ {a b c}, R a b → R b c → R a c)
    (hfill : ∀ (lost m : MediaItem) (now : Time), R m { m.fillMissing lost with updatedAt := now })
    (hparent : ∀ (m : MediaItem) (p : Option Nat), R m { m with parentId := p }) (db : Database)
    (now : Time) (w l : Nat) :
    RowsRelate R db (db.mergeItem now w l) := by
  have hfilled : RowsRelate R db (db.fillMissing now w l) := by
    unfold Database.fillMissing
    split
    next lost _ =>
      have hitems :
          (db.saveMediaItem now w ⟨fun m => m.fillMissing lost, fun _ => rfl⟩).mediaItems = _ :=
        Database.mediaItems_updateMediaItems _ _
      exact .of_table hrefl (fun m => hfill lost m now) hitems
    next => exact .refl hrefl db
  unfold Database.mergeItem
  refine hfilled.trans htrans ?_
  generalize db.fillMissing now w l = d
  refine (of_frame hrefl (d.dropContradictedIdentifiers_frame w l) (by decide)).trans htrans ?_
  generalize d.dropContradictedIdentifiers w l = d
  refine (of_frame hrefl (d.moveMetadata_frame w l) (by decide)).trans htrans ?_
  generalize d.moveMetadata w l = d
  refine (of_frame hrefl (d.mergeWatchStates_frame w l) (by decide)).trans htrans ?_
  generalize d.mergeWatchStates w l = d
  have hevents : Database.Frame [.watchEvents, .dirtyItems] d (d.moveWatchEvents w l) :=
    Database.updateWatchEvents_frame _ _
  refine (of_frame hrefl hevents (by decide)).trans htrans ?_
  generalize d.moveWatchEvents w l = d
  have hrefs : Database.Frame [.sourceMediaRefs] d (d.moveReferences w l) :=
    Database.updateSourceMediaRefs_frame _ _
  refine (of_frame hrefl hrefs (by decide)).trans htrans ?_
  generalize d.moveReferences w l = d
  have hchildren : (d.moveChildren w l).mediaItems = _ := Database.mediaItems_updateMediaItems _ _
  exact (of_table hrefl (fun m => hparent m (some w)) hchildren).trans htrans (of_delete hrefl _ l)

end RowsRelate

/-- An item that is still there has the kind and the manual match it had. -/
abbrev Remains : Database → Database → Prop :=
  RowsRelate fun m m' => m'.kind = m.kind ∧ m'.manualMatchTmdbId = m.manualMatchTmdbId

namespace Remains
variable {db db' db'' : Database}

theorem refl (db : Database) : Remains db db := RowsRelate.refl (fun _ => ⟨rfl, rfl⟩) db

theorem trans (h : Remains db db') (h' : Remains db' db'') : Remains db db'' :=
  RowsRelate.trans (fun h h' => ⟨h'.1.trans h.1, h'.2.trans h.2⟩) h h'

theorem of_table {p : MediaItem → Bool} {f : Assignment MediaItem.id}
    (hf : ∀ m : MediaItem, (f m).kind = m.kind ∧ (f m).manualMatchTmdbId = m.manualMatchTmdbId)
    (h : db'.mediaItems = db.mediaItems.update p f) : Remains db db' :=
  RowsRelate.of_table (fun _ => ⟨rfl, rfl⟩) hf h

theorem of_frame {written : List Database.TableName} (h : Database.Frame written db db')
    (hw : .mediaItems ∉ written) : Remains db db' := RowsRelate.of_frame (fun _ => ⟨rfl, rfl⟩) h hw

theorem manualMatchOf (h : Remains db db') {i : Nat} {x : String}
    (hx : db'.identityRows.manualMatchOf i = some x) :
    db.identityRows.manualMatchOf i = some x := by
  obtain ⟨m', hm', hmanual⟩ := Option.bind_eq_some_iff.1 hx
  obtain ⟨m, hm, -, hsame⟩ := h i m' hm'
  refine Option.bind_eq_some_iff.2 ⟨m, hm, ?_⟩
  unfold MediaItem.manualMatch at hmanual ⊢
  rw [← hsame]; exact hmanual

/-- An item that is still there has its manual match. -/
theorem manualMatchOf_eq (h : Remains db db') {i : Nat} (hi : db'.mediaItems.contains i = true) :
    db'.identityRows.manualMatchOf i = db.identityRows.manualMatchOf i := by
  obtain ⟨m', hm'⟩ := Option.isSome_iff_exists.1 hi
  obtain ⟨m, hm, -, hsame⟩ := h i m' hm'
  unfold IdentityRows.manualMatchOf
  rw [show db'.identityRows.mediaItems.get? i = some m' from hm',
    show db.identityRows.mediaItems.get? i = some m from hm]
  show m'.manualMatch = m.manualMatch
  unfold MediaItem.manualMatch
  rw [hsame]

theorem kindOf_eq (h : Remains db db') {i : Nat} (hi : db'.mediaItems.contains i = true) :
    db'.identityRows.kindOf i = db.identityRows.kindOf i := by
  obtain ⟨m', hm'⟩ := Option.isSome_iff_exists.1 hi
  obtain ⟨m, hm, hkind, -⟩ := h i m' hm'
  unfold IdentityRows.kindOf
  rw [show db'.identityRows.mediaItems.get? i = some m' from hm',
    show db.identityRows.mediaItems.get? i = some m from hm]
  exact congrArg some hkind

end Remains

/-- An item that is still there has the kind it had. -/
def KindsKept (db db' : Database) : Prop :=
  ∀ i k, db'.identityRows.kindOf i = some k → db.identityRows.kindOf i = some k

namespace KindsKept
variable {db db' db'' : Database}

theorem refl (db : Database) : KindsKept db db := fun _ _ h => h

theorem trans (h : KindsKept db db') (h' : KindsKept db' db'') : KindsKept db db'' :=
  fun i k hk => h i k (h' i k hk)

theorem of_remains (h : Remains db db') : KindsKept db db' := by
  intro i k hk
  obtain ⟨m', hm', rfl⟩ := Option.map_eq_some_iff.1 hk
  obtain ⟨m, hm, hkind, -⟩ := h i m' hm'
  exact Option.map_eq_some_iff.2 ⟨m, hm, hkind.symm⟩

end KindsKept

namespace Database
variable {db : Database} {now : Time} {w l : Nat}

theorem mergeItem_remains (db : Database) (now : Time) (w l : Nat) :
    Remains db (db.mergeItem now w l) :=
  .of_merge (fun _ => ⟨rfl, rfl⟩) (fun h h' => ⟨h'.1.trans h.1, h'.2.trans h.2⟩)
    (fun _ _ _ => ⟨rfl, rfl⟩)
    (fun _ _ => ⟨rfl, rfl⟩) db now w l

theorem saveParent_remains (db : Database) (now : Time) (parent i : Nat) :
    Remains db (db.saveParent now parent i) := by
  have hitems : (db.saveParent now parent i).mediaItems = _ := mediaItems_updateMediaItems _ _
  exact .of_table (fun _ => ⟨rfl, rfl⟩) hitems

theorem foldl_min_mem {f : Nat → Nat → Bool} (first : Nat) (rest : List Nat) :
    rest.foldl (fun best i => if f best i then best else i) first ∈ first :: rest := by
  induction rest generalizing first with
  | nil => exact List.mem_singleton.2 rfl
  | cons i rest ih =>
    rw [List.foldl_cons]
    have := ih (if f first i then first else i)
    rcases List.mem_cons.1 this with heq | hmem
    · rw [heq]; split <;> simp
    · exact List.mem_cons_of_mem _ (List.mem_cons_of_mem _ hmem)

theorem canonical_mem (db : Database) {items : List Nat} (h : items ≠ []) :
    db.canonical items ∈ items := by
  cases items with
  | nil => exact absurd rfl h
  | cons first rest => exact foldl_min_mem first rest

theorem mergePair_of_not_show (now : Time) {w : Nat} (l : Nat)
    (h : db.identityRows.kindOf w ≠ some .show) :
    db.mergePair now w l = (db.mergeItem now w l, [⟨db, w, l⟩]) := by
  unfold mergePair mergeHierarchy
  rw [if_pos h]
  dsimp only
  rw [List.nil_append]

theorem mem_live {ids : List Nat} {i : Nat} (h : i ∈ db.live ids) :
    db.mediaItems.contains i = true :=
  (List.mem_filter.1 h).2

/-- A group that is not skipped. -/
theorem passed {ids : List Nat} {physical : Bool}
    (h : ¬ ((db.live ids).length < 2 ∨ (!db.safeSources (db.live ids) physical) = true)) :
    db.live ids ≠ [] ∧ db.safeSources (db.live ids) physical = true := by
  rw [not_or] at h
  refine ⟨fun hnil => h.1 ?_, by simpa using h.2⟩
  rw [hnil]; decide

end Database

end Euvieouvi
