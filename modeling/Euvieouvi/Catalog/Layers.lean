import Euvieouvi.Lib.Ancestry
import Euvieouvi.Persist.Trace

/-!
# Layers of the catalog

Every item is below an item of the kind its own kind asks for, and an item whose kind asks for none
is below nothing. The writes of `persist_media` trust their references for this: a reference of a
leaf must never lead to a container, or `_apply_media` would turn a season with episodes into a
movie. So the invariant (`Forest`) also says which references lead to containers, where the source
keeps the ids of its leaves and of its containers apart (`leaf`).
-/

namespace Euvieouvi

namespace MediaKind

theorem isContainer_of_parentKind {k p : MediaKind} (h : k.parentKind = some p) :
    p.isContainer = true := by
  cases k <;> cases h <;> rfl

/-- How many items are above an item of this kind. -/
def depth : MediaKind → Nat
  | .movie | .show | .artist => 0
  | .season | .album => 1
  | .episode | .track => 2

theorem depth_of_parentKind {k p : MediaKind} (h : k.parentKind = some p) :
    k.depth = p.depth + 1 := by
  cases k <;> cases h <;> rfl

theorem depth_le (k : MediaKind) : k.depth ≤ 2 := by cases k <;> decide

end MediaKind

namespace Database
variable {db db' db'' : Database} {leaf : Nat → String → Bool}

theorem parentFits_none {k : MediaKind} : db.ParentFits k none ↔ k.parentKind = none := by
  unfold ParentFits
  rw [Option.map_none, eq_comm, Option.map_eq_none_iff]

theorem parentFits_some {k : MediaKind} {p : Nat} :
    db.ParentFits k (some p) ↔ ∃ kp, k.parentKind = some kp ∧
    db.identityRows.kindOf p = some kp := by
  unfold ParentFits
  rw [Option.map_some, eq_comm, Option.map_eq_some_iff]
  exact exists_congr fun kp => and_congr_right fun _ => eq_comm

/-- Every parent is there, and has the kind that the kind of its child asks for. -/
def Layered (db : Database) : Prop :=
  ∀ i m, db.mediaItems.get? i = some m → db.ParentFits m.kind m.parentId

/-- A reference of a leaf is to a leaf, and one of a container to a container. -/
def LeavesApart (leaf : Nat → String → Bool) (db : Database) : Prop :=
  ∀ r ∈ db.sourceMediaRefs.rows, ∃ k, db.identityRows.kindOf r.mediaItemId = some k ∧
    k.isContainer = !leaf r.sourceId r.externalId

structure Forest (leaf : Nat → String → Bool) (db : Database) : Prop where
  layered : db.Layered
  apart : db.LeavesApart leaf

namespace Layered

theorem parentOf (h : db.Layered) {i p : Nat} (hp : db.identityRows.parentOf i = some p) :
    ∃ k kp, db.identityRows.kindOf i = some k ∧ k.parentKind = some kp ∧
    db.identityRows.kindOf p = some kp := by
  obtain ⟨m, hm, hparent⟩ := Option.bind_eq_some_iff.1 hp
  have hfits := h i m hm
  rw [hparent] at hfits
  obtain ⟨kp, hkp, hkind⟩ := parentFits_some.1 hfits
  exact ⟨m.kind, kp, Option.map_eq_some_iff.2 ⟨m, hm, rfl⟩, hkp, hkind⟩

/-- Following the parents from any item ends after at most two steps. -/
theorem shallow (h : db.Layered) : Shallow db.identityRows.parentOf 3 := by
  refine .of_height (fun i => ((db.identityRows.kindOf i).map MediaKind.depth).getD 0)
    (fun i p hp => ?_) fun i => ?_
  · obtain ⟨k, kp, hk, hkp, hkind⟩ := h.parentOf hp
    have hdepth := MediaKind.depth_of_parentKind hkp
    simp only [hk, hkind, Option.map_some, Option.getD_some]
    omega
  · rcases db.identityRows.kindOf i with _ | k
    · simp
    · have hdepth := k.depth_le
      simp only [Option.map_some, Option.getD_some]
      omega

/-- A leaf has no children. -/
theorem leaf_childless (h : db.Layered) {i j : Nat} {k : MediaKind}
    (hk : db.identityRows.kindOf i = some k)
    (hleaf : k.isContainer = false) : db.identityRows.parentOf j ≠ some i := by
  intro hp
  obtain ⟨_, kp, _, hkp, hkind⟩ := h.parentOf hp
  have hcontainer := MediaKind.isContainer_of_parentKind hkp
  rw [hk, Option.some_inj] at hkind
  rw [← hkind, hleaf] at hcontainer
  cases hcontainer

end Layered

/-! ### What keeps it -/

/-- Every item stays, and stays a container of its kind or a leaf. -/
def KindsStay (db db' : Database) : Prop :=
  ∀ i k, db.identityRows.kindOf i = some k → ∃ k', db'.identityRows.kindOf i = some k' ∧
    k'.isContainer = k.isContainer ∧ (k.isContainer = true → k' = k)

namespace KindsStay

theorem of_itemsKept (h : ItemsKept db db') : KindsStay db db' :=
  fun _ k hk => ⟨k, h.kindOf hk, rfl, fun _ => rfl⟩

theorem parentFits (h : KindsStay db db') {kind : MediaKind} {parent : Option Nat}
    (hp : db.ParentFits kind parent) :
    db'.ParentFits kind parent := by
  rcases parent with _ | p
  · exact parentFits_none.2 (parentFits_none.1 hp)
  · obtain ⟨kp, hkp, hkind⟩ := parentFits_some.1 hp
    obtain ⟨k', hk', -, hsame⟩ := h p kp hkind
    exact parentFits_some.2 ⟨kp, hkp, by rw [hk', hsame (MediaKind.isContainer_of_parentKind hkp)]⟩

theorem leavesApart (h : KindsStay db db') (hapart : db.LeavesApart leaf) {r : SourceMediaRef}
    (hr : r ∈ db.sourceMediaRefs.rows) : ∃ k, db'.identityRows.kindOf r.mediaItemId = some k ∧
      k.isContainer = !leaf r.sourceId r.externalId := by
  obtain ⟨k, hk, hleaf⟩ := hapart r hr
  obtain ⟨k', hk', hsame, -⟩ := h _ k hk
  exact ⟨k', hk', hsame.trans hleaf⟩

end KindsStay

/-- A flushed row, and the row it was. -/
theorem saveMediaItem_row (db : Database) (now : Time) (i j : Nat) (f : Assignment MediaItem.id) :
    ∃ g : MediaItem → MediaItem, (db.saveMediaItem now i f).mediaItems.get? j =
      (db.mediaItems.get? j).map g ∧
      ∀ m, g m = m ∨ m.id = i ∧ g m = { f m with updatedAt := now } := by
  refine ⟨_, db.get?_saveMediaItem now i j f, fun m => ?_⟩
  by_cases hsel : (m.id == i && decide (f m ≠ m)) = true
  · simp only [Bool.and_eq_true, beq_iff_eq] at hsel
    exact .inr ⟨hsel.1, if_pos (by simpa using hsel)⟩
  · exact .inl (if_neg hsel)

/-- The reference of `r` stands for the same item on the same source under the same id. -/
def SameReference (r r' : SourceMediaRef) : Prop :=
  r'.sourceId = r.sourceId ∧ r'.externalId = r.externalId ∧ r'.mediaItemId = r.mediaItemId

/-- A row of the written table is an old one, or fits. -/
theorem Layered.step (h : db.Layered) (hkinds : KindsStay db db')
    (hrows : ∀ i m', db'.mediaItems.get? i = some m' →
      (∃ m, db.mediaItems.get? i = some m ∧ m'.kind = m.kind ∧ m'.parentId = m.parentId) ∨
        db.ParentFits m'.kind m'.parentId) :
    db'.Layered := by
  intro i m' hm'
  rcases hrows i m' hm' with ⟨m, hm, hk, hp⟩ | hfits
  · rw [hk, hp]
    exact hkinds.parentFits (h i m hm)
  · exact hkinds.parentFits hfits

theorem LeavesApart.step (h : db.LeavesApart leaf) (hkinds : KindsStay db db')
    (hrows : ∀ r' ∈ db'.sourceMediaRefs.rows, (∃ r ∈ db.sourceMediaRefs.rows, SameReference r r') ∨
      ∃ k, db.identityRows.kindOf r'.mediaItemId = some k ∧
        k.isContainer = !leaf r'.sourceId r'.externalId) :
    db'.LeavesApart leaf := by
  intro r' hr'
  rcases hrows r' hr' with ⟨r, hr, hsource, hid, hi⟩ | ⟨k, hk, hleaf⟩
  · rw [hsource, hid, hi]
    exact hkinds.leavesApart h hr
  · obtain ⟨k', hk', hsame, -⟩ := hkinds _ k hk
    exact ⟨k', hk', hsame.trans hleaf⟩

namespace Forest
variable {now : Time}

theorem of_frame {written : List TableName} (h : db.Forest leaf) (hframe : Frame written db db')
    (hitems : .mediaItems ∉ written) (hrefs : .sourceMediaRefs ∉ written) : db'.Forest leaf := by
  have heq : db'.mediaItems = db.mediaItems := hframe .mediaItems hitems
  have hrefsEq : db'.sourceMediaRefs = db.sourceMediaRefs := hframe .sourceMediaRefs hrefs
  have hkinds : KindsStay db db' := .of_itemsKept (.of_frame hframe hitems)
  refine ⟨h.layered.step hkinds fun i m' hm' => .inl ⟨m', heq ▸ hm', rfl, rfl⟩,
    h.apart.step hkinds fun r hr => .inl ⟨r, hrefsEq ▸ hr, rfl, rfl, rfl⟩⟩

theorem save_item (h : db.Forest leaf) (i : Nat) (f : Assignment MediaItem.id)
    (hf : ∀ m : MediaItem, (f m).kind = m.kind ∧ (f m).parentId = m.parentId ∧
      (f m).manualMatchTmdbId = m.manualMatchTmdbId) : (db.saveMediaItem now i f).Forest leaf := by
  have hkinds : KindsStay db (db.saveMediaItem now i f) := .of_itemsKept (.save db now i f hf)
  have hframe : Frame [.mediaItems] db (db.saveMediaItem now i f) := updateMediaItems_frame _ _
  have hrefs : (db.saveMediaItem now i f).sourceMediaRefs = db.sourceMediaRefs :=
    hframe .sourceMediaRefs (by decide)
  refine ⟨h.layered.step hkinds fun j m' hm' => .inl ?_, h.apart.step hkinds fun r hr =>
    .inl ⟨r, hrefs ▸ hr, rfl, rfl, rfl⟩⟩
  obtain ⟨g, hget, hg⟩ := db.saveMediaItem_row now i j f
  obtain ⟨m, hm, rfl⟩ := Option.map_eq_some_iff.1 (hget.symm.trans hm')
  refine ⟨m, hm, ?_⟩
  rcases hg m with heq | ⟨-, heq⟩ <;> rw [heq]
  exacts [⟨rfl, rfl⟩, ⟨(hf m).1, (hf m).2.1⟩]

theorem insert_item (h : db.Forest leaf) (m : MediaItem) (hfits : db.ParentFits m.kind m.parentId) :
    (db.insertMediaItem m).Forest leaf := by
  have hkinds : KindsStay db (db.insertMediaItem m) := .of_itemsKept (.insert db m)
  have hrefs : (db.insertMediaItem m).sourceMediaRefs = db.sourceMediaRefs :=
    insertMediaItem_frame m .sourceMediaRefs (by decide)
  refine ⟨h.layered.step hkinds fun i m' hm' => ?_, h.apart.step hkinds fun r hr =>
    .inl ⟨r, hrefs ▸ hr, rfl, rfl, rfl⟩⟩
  rw [mediaItems_insertMediaItem] at hm'
  rcases Table.mem_insert (Table.mem_of_get? hm') with hrow | rfl
  · exact .inl ⟨m', Table.get?_eq_some.2 ⟨hrow, Table.key_of_get? hm'⟩, rfl, rfl⟩
  · exact .inr hfits

theorem save_reference (h : db.Forest leaf) (i : Nat) (f : Assignment SourceMediaRef.id)
    (hf : ∀ r, SameReference r (f r)) : (db.saveSourceMediaRef now i f).Forest leaf := by
  have hframe : Frame [.sourceMediaRefs] db (db.saveSourceMediaRef now i f) :=
    updateSourceMediaRefs_frame _ _
  have hkinds : KindsStay db (db.saveSourceMediaRef now i f) :=
    .of_itemsKept (.of_frame hframe (by decide))
  have hitems : (db.saveSourceMediaRef now i f).mediaItems = db.mediaItems :=
    hframe .mediaItems (by decide)
  refine ⟨h.layered.step hkinds fun j m' hm' => .inl ⟨m', hitems ▸ hm', rfl, rfl⟩,
    h.apart.step hkinds fun r' hr' => .inl ?_⟩
  rw [saveSourceMediaRef, sourceMediaRefs_updateSourceMediaRefs] at hr'
  obtain ⟨r, hr, rfl⟩ := Table.mem_update.1 hr'
  refine ⟨r, hr, ?_⟩
  split
  exacts [hf r, ⟨rfl, rfl, rfl⟩]

theorem insert_reference (h : db.Forest leaf) (r : SourceMediaRef) {k : MediaKind}
    (hk : db.identityRows.kindOf r.mediaItemId = some k)
    (hleaf : k.isContainer = !leaf r.sourceId r.externalId) :
    (db.insertSourceMediaRef r).Forest leaf := by
  have hframe : Frame [.sourceMediaRefs] db (db.insertSourceMediaRef r) :=
    insertSourceMediaRef_frame r
  have hkinds : KindsStay db (db.insertSourceMediaRef r) :=
    .of_itemsKept (.of_frame hframe (by decide))
  have hitems : (db.insertSourceMediaRef r).mediaItems = db.mediaItems :=
    hframe .mediaItems (by decide)
  refine ⟨h.layered.step hkinds fun j m' hm' => .inl ⟨m', hitems ▸ hm', rfl, rfl⟩,
    h.apart.step hkinds fun r' hr' => ?_⟩
  rw [sourceMediaRefs_insertSourceMediaRef] at hr'
  rcases Table.mem_insert hr' with hold | rfl
  · exact .inl ⟨r', hold, rfl, rfl, rfl⟩
  · exact .inr ⟨k, hk, hleaf⟩

/-- `_apply_media` on a leaf. -/
theorem apply_media (h : db.Forest leaf) (item : MediaFields) {i : Nat} {k : MediaKind}
    {parent : Option Nat}
    (hk : db.identityRows.kindOf i = some k) (hleaf : k.isContainer = false)
    (hitem : item.kind.isContainer = false) (hfits : db.ParentFits item.kind parent) :
    (db.saveMediaItem now i ⟨MediaPersistenceService.applyMedia item parent, fun _ => rfl⟩).Forest
      leaf := by
  set f : Assignment MediaItem.id :=
    ⟨MediaPersistenceService.applyMedia item parent, fun _ => rfl⟩ with hf
  have hkinds : KindsStay db (db.saveMediaItem now i f) := by
    intro j kj hj
    obtain ⟨m, hm, rfl⟩ := Option.map_eq_some_iff.1 hj
    obtain ⟨g, hget, hg⟩ := db.saveMediaItem_row now i j f
    refine ⟨(g m).kind, Option.map_eq_some_iff.2 ⟨g m, hget.trans (congrArg _ hm), rfl⟩, ?_⟩
    rcases hg m with heq | ⟨hid, heq⟩ <;> rw [heq]
    · exact ⟨rfl, fun _ => rfl⟩
    · have hji : j = i := (Table.key_of_get? hm).symm.trans hid
      have hkm : m.kind = k := Option.some_inj.1 (hj.symm.trans (hji ▸ hk))
      rw [hkm, hleaf]
      exact ⟨hitem, fun hc => by cases hc⟩
  have hframe : Frame [.mediaItems] db (db.saveMediaItem now i f) := updateMediaItems_frame _ _
  have hrefs : (db.saveMediaItem now i f).sourceMediaRefs = db.sourceMediaRefs :=
    hframe .sourceMediaRefs (by decide)
  refine ⟨h.layered.step hkinds fun j m' hm' => ?_, h.apart.step hkinds fun r hr =>
    .inl ⟨r, hrefs ▸ hr, rfl, rfl, rfl⟩⟩
  obtain ⟨g, hget, hg⟩ := db.saveMediaItem_row now i j f
  obtain ⟨m, hm, rfl⟩ := Option.map_eq_some_iff.1 (hget.symm.trans hm')
  rcases hg m with heq | ⟨-, heq⟩ <;> rw [heq]
  · exact .inl ⟨m, hm, rfl, rfl⟩
  · exact .inr hfits

end Forest

end Database

section Persist
variable {service : MediaPersistenceService} {item : MediaFields} {leaf : Nat → String → Bool}
  {db db' : Database}

/-- The source knows the item as a leaf, and what is above it as containers. -/
structure MediaFields.Leaf (leaf : Nat → String → Bool) (source : Nat)
    (item : MediaFields) : Prop where
  kind : item.kind.isContainer = false
  id : leaf source item.externalId = true
  containers : ∀ externalId ∈ item.containerIds, leaf source externalId = false

theorem HierarchyWrite.forest (h : HierarchyWrite service item db db')
    (hitem : item.Leaf leaf service.sourceId) (hf : db.Forest leaf) : db'.Forest leaf := by
  cases h with
  | touch r => exact hf.save_reference r.id _ fun _ => ⟨rfl, rfl, rfl⟩
  | refer i externalId observedAt kind _ hid hkind hcontainer =>
    refine hf.insert_reference _ hkind ?_
    rw [hcontainer]
    show true = !leaf service.sourceId externalId
    rw [hitem.containers externalId hid]
    rfl
  | create m _ _ _ hfits => exact hf.insert_item m hfits
  | retitle i f hkeeps => exact hf.save_item i f hkeeps
  | identify i _ hids => exact hf.of_frame hids.frame (by decide) (by decide)
  | detail hframe => exact hf.of_frame hframe (by decide) (by decide)

theorem CatalogWrite.forest (h : CatalogWrite service item db db')
    (hitem : item.Leaf leaf service.sourceId) (hf : db.Forest leaf) : db'.Forest leaf := by
  cases h with
  | hierarchy hw => exact hw.forest hitem hf
  | create m _ _ _ hfits => exact hf.insert_item m hfits
  | update i parent _ hfits hkind =>
    -- the item is known as a leaf, by its kind or by its reference
    obtain ⟨k, hk, hleaf⟩ : ∃ k, db.identityRows.kindOf i = some k ∧ k.isContainer = false := by
      rcases hkind with hkind | ⟨r, hr, rfl⟩
      · exact ⟨item.kind, hkind, hitem.kind⟩
      · obtain ⟨hrow, hsource, hid⟩ := Database.mem_of_byExternalIdentity hr
        obtain ⟨k, hk, hapart⟩ := hf.apart r hrow
        rw [hsource, hid, hitem.id] at hapart
        exact ⟨k, hk, hapart⟩
    exact hf.apply_media item hk hleaf hitem.kind hfits
  | refer i _ _ hkind =>
    refine hf.insert_reference _ hkind ?_
    rw [hitem.kind]
    show false = !leaf service.sourceId item.externalId
    rw [hitem.id]
    rfl
  | observe r => exact hf.save_reference r.id _ fun _ => ⟨rfl, rfl, rfl⟩

theorem CatalogWrites.forest (h : CatalogWrites service item db db')
    (hitem : item.Leaf leaf service.sourceId) (hf : db.Forest leaf) : db'.Forest leaf := by
  induction h with
  | refl => exact hf
  | tail _ hw ih => exact hw.forest hitem ih

theorem MediaPersistenceService.MediaPersisted.forest {i : Nat}
    (h : MediaPersisted service item db i db')
    (hitem : item.Leaf leaf service.sourceId) (hf : db.Forest leaf) : db'.Forest leaf := by
  obtain ⟨mid, hw, hplayback⟩ := h.writes
  exact (CatalogWrites.forest hw hitem hf).of_frame (PlaybackWrites.frame hplayback)
    (by decide) (by decide)

end Persist

end Euvieouvi
