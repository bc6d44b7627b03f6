import Euvieouvi.Playback.Agreement
import Euvieouvi.Sync.Availability
import Mathlib.Data.List.Induction

/-!
# The states of containers

`rebuild_container_watch_states` derives the state of a season, a show, an album or an artist from
the playable items below it in one library, and writes it under the source. A container with items
in several libraries keeps what the last of them says. `containers_aggregate` says when that is the
aggregate of all its available items on the source: when each library's share of the container has
the aggregate of the whole.
-/

namespace Euvieouvi

open Database

namespace MediaPersistenceService

section Aggregate
variable {children children' : List PlayedChild}

theorem aggregateCompletion_last :
    (aggregateCompletion children).2 = latestOf (children.map (·.lastWatchedAt)) := by
  have hlast : children.foldl (fun known child => latest known child.lastWatchedAt) none =
      latestOf (children.map (·.lastWatchedAt)) := by
    rw [latestOf, List.foldl_map]
  unfold aggregateCompletion
  dsimp only
  split
  · exact hlast
  · split <;> exact hlast

theorem le_foldl_min {counts : List Nat} {count n : Nat} : n ≤ counts.foldl min count ↔ n ≤ count ∧
    ∀ m ∈ counts, n ≤ m := by
  induction counts generalizing count with
  | nil => simp
  | cons m counts ih => rw [List.foldl_cons, ih, le_min_iff, and_assoc, List.forall_mem_cons]

theorem foldl_min_mem (counts : List Nat) (count : Nat) :
    counts.foldl min count ∈ count :: counts := by
  induction counts generalizing count with
  | nil => exact List.mem_singleton_self _
  | cons m counts ih =>
    rcases List.mem_cons.1 (ih (min count m)) with h | h
    · rw [List.foldl_cons, h]
      rcases min_choice count m with hm | hm <;> rw [hm] <;> simp
    · exact List.mem_cons_of_mem _ (List.mem_cons_of_mem _ h)

/-- A child without a view leaves the container without one. -/
theorem aggregateCompletion_zero (h : ∃ child ∈ children, child.count = 0) :
    (aggregateCompletion children).1 = 0 := by
  unfold aggregateCompletion
  dsimp only
  split
  · rfl
  next count counts hcounts =>
    obtain ⟨child, hchild, hzero⟩ := h
    have hmem : 0 ∈ children.map (·.count) := hzero ▸ List.mem_map_of_mem hchild
    rw [hcounts] at hmem
    rw [if_pos (List.any_eq_true.2 ⟨0, hmem, rfl⟩)]

/-- Where every child has a view, the container has as many as the least viewed one. -/
theorem aggregateCompletion_least (hne : children ≠ []) (h : ∀ child ∈ children, 0 < child.count) :
    (∃ child ∈ children, child.count = (aggregateCompletion children).1) ∧
      ∀ child ∈ children, (aggregateCompletion children).1 ≤ child.count := by
  unfold aggregateCompletion
  dsimp only
  split
  next hcounts => exact absurd (List.map_eq_nil_iff.1 hcounts) hne
  next count counts hcounts =>
    have hpositive : ¬ (count :: counts).any (· = 0) = true := by
      intro hany
      obtain ⟨n, hn, hzero⟩ := List.any_eq_true.1 hany
      rw [← hcounts] at hn
      obtain ⟨child, hchild, rfl⟩ := List.mem_map.1 hn
      exact (h child hchild).ne' (of_decide_eq_true hzero)
    rw [if_neg hpositive]
    constructor
    · have hmem := foldl_min_mem counts count
      rw [← hcounts] at hmem
      obtain ⟨child, hchild, heq⟩ := List.mem_map.1 hmem
      exact ⟨child, hchild, heq⟩
    · intro child hchild
      have hall := le_foldl_min.1 (le_refl (counts.foldl min count))
      have hmem : child.count ∈ count :: counts := hcounts ▸ List.mem_map_of_mem hchild
      rcases List.mem_cons.1 hmem with hcount | hcount
      · exact hcount ▸ hall.1
      · exact hall.2 _ hcount

theorem aggregateCompletion_pos (hne : children ≠ []) :
    0 < (aggregateCompletion children).1 ↔ ∀ child ∈ children, 0 < child.count := by
  constructor
  · intro hpos child hchild
    by_contra hzero
    exact hpos.ne' (aggregateCompletion_zero ⟨child, hchild, Nat.eq_zero_of_not_pos hzero⟩)
  · intro h
    obtain ⟨⟨child, hchild, hcount⟩, -⟩ := aggregateCompletion_least hne h
    exact hcount ▸ h child hchild

/-- The order and the number of times a child is listed do not matter. -/
theorem aggregateCompletion_congr (h : ∀ child, child ∈ children ↔ child ∈ children') :
    aggregateCompletion children = aggregateCompletion children' := by
  refine Prod.ext ?_ ?_
  · by_cases hnil : children = []
    · subst hnil
      have hnil' : children' = [] := List.eq_nil_iff_forall_not_mem.2 fun child hchild =>
        List.not_mem_nil ((h child).2 hchild)
      rw [hnil']
    · have hnil' : children' ≠ [] := by
        rintro rfl
        exact hnil (List.eq_nil_iff_forall_not_mem.2 fun child hchild =>
          List.not_mem_nil ((h child).1 hchild))
      by_cases hpos : ∀ child ∈ children, 0 < child.count
      · have hpos' : ∀ child ∈ children', 0 < child.count :=
          fun child hchild => hpos child ((h child).2 hchild)
        obtain ⟨⟨child, hchild, hcount⟩, hle⟩ := aggregateCompletion_least hnil hpos
        obtain ⟨⟨child', hchild', hcount'⟩, hle'⟩ := aggregateCompletion_least hnil' hpos'
        exact le_antisymm (hcount' ▸ hle child' ((h child').2 hchild'))
          (hcount ▸ hle' child ((h child).1 hchild))
      · obtain ⟨child, hchild⟩ := not_forall.1 hpos
        obtain ⟨hchild, hzero⟩ := Classical.not_imp.1 hchild
        rw [aggregateCompletion_zero ⟨child, hchild, Nat.eq_zero_of_not_pos hzero⟩,
          aggregateCompletion_zero ⟨child, (h child).1 hchild, Nat.eq_zero_of_not_pos hzero⟩]
  · rw [aggregateCompletion_last, aggregateCompletion_last]
    refine latestOf_congr fun a => ?_
    simp only [List.mem_map, h]

end Aggregate

/-! ### What is below a container -/

variable (service : MediaPersistenceService)

/-- An episode or a track. -/
def isPlayable (m : MediaItem) : Bool := m.kind == .episode || m.kind == .track

/-- What is known about the playback of an item on the source. -/
def playedChild (db : Database) (m : MediaItem) : PlayedChild :=
  match db.byItemAndSource m.id service.sourceId with
  | some state => ⟨m.id, m.parentId, if state.completed then state.viewCount else 0,
      if state.completed then state.lastWatchedAt else none⟩
  | none =>
    let events := db.watchEvents.rows.filter fun e =>
      e.mediaItemId == m.id && e.sourceId == service.sourceId && e.completed
    ⟨m.id, m.parentId, events.length,
      events.foldl (fun known e => latest known (some e.watchedAt)) none⟩

/-- The available episodes and tracks of the source, in whichever library. -/
def sourceItems (db : Database) : List MediaItem :=
  db.mediaItems.rows.filter fun m => isPlayable m &&
    db.sourceMediaRefs.rows.any fun r => r.mediaItemId == m.id &&
      r.sourceId == service.sourceId && r.available

/-- The item is below the container: a child, or a child of one. -/
def below (db : Database) (container : Nat) (parentId : Option Nat) : Bool :=
  parentId == some container || parentId.bind db.identityRows.parentOf == some container

/-- The available items below a container. -/
def itemsBelow (db : Database) (container : Nat) : List MediaItem :=
  (service.sourceItems db).filter fun m => below db container m.parentId

/-- The children of a container in the library of the service. -/
def share (db : Database) (container : Nat) : List PlayedChild :=
  (service.playedChildren db).filter fun child => below db container child.parentId

/-- The children of a container on the source. -/
def whole (db : Database) (container : Nat) : List PlayedChild :=
  (service.itemsBelow db container).map (service.playedChild db)

/-- What the rebuild derives for a container: completed, the view count and the last view. -/
def derived (children : List PlayedChild) : Bool × Nat × Option Time :=
  (decide (0 < (aggregateCompletion children).1), aggregateCompletion children)

/-- What the state of a container says. -/
def containerState (db : Database) (container : Nat) : Option (Bool × Nat × Option Time) :=
  (db.watchStates.get? (container, service.sourceId)).map fun s =>
    (s.completed, s.viewCount, s.lastWatchedAt)

section Rebuild
variable {service} {db : Database} {container : Nat} {observedAt : Time}

theorem containerState_setDerivedWatchState (group : Nat × List PlayedChild) :
    service.containerState (service.setDerivedWatchState observedAt db group) container =
      if group.1 =
        container then some (derived group.2) else service.containerState db container := by
  split
  next heq =>
    subst heq
    unfold containerState setDerivedWatchState saveState byItemAndSource
    dsimp only
    cases hs : db.watchStates.get? (group.1, service.sourceId) with
    | some s =>
      dsimp only
      rw [get?_saveWatchState, hs, Option.map_some, Option.map_some]
      have hkey : s.key = (group.1, service.sourceId) := Table.key_of_get? hs
      split
      next => rfl
      next hsame =>
        have hsame : deriveState _ _ _ s = s := by_contra fun hne => hsame ⟨hkey, hne⟩
        rw [← hsame]
        rfl
    | none =>
      dsimp only
      rw [watchStates_insertWatchState]
      have hnone : db.watchStates.get? (WatchState.key (deriveState (aggregateCompletion group.2).1
          (aggregateCompletion group.2).2 observedAt
            (service.newState group.1 (aggregateCompletion group.2).1
            (decide (0 < (aggregateCompletion group.2).1)) observedAt))) = none := hs
      rw [show (group.1, service.sourceId) =
        WatchState.key (deriveState (aggregateCompletion group.2).1
          (aggregateCompletion group.2).2 observedAt
            (service.newState group.1 (aggregateCompletion group.2).1
            (decide (0 < (aggregateCompletion group.2).1)) observedAt)) from rfl]
      exact congrArg _ (Table.get?_insert_self hnone)
  next hne => exact congrArg _ (get?_setDerivedWatchState (Ne.symm hne))

/-- The last write stays. -/
theorem containerState_foldl {children : List PlayedChild} {groups : List (Nat × List PlayedChild)}
    (h : ∀ g ∈ groups, g.1 = container → ∀ child, child ∈ g.2 ↔ child ∈ children) :
    service.containerState (groups.foldl (service.setDerivedWatchState observedAt) db) container =
      if container ∈ groups.map Prod.fst then some (derived children) else service.containerState db
        container := by
  induction groups generalizing db with
  | nil => rfl
  | cons g groups ih =>
    rw [List.foldl_cons, ih fun g' hg' => h g' (List.mem_cons_of_mem _ hg'),
      containerState_setDerivedWatchState,
      List.map_cons]
    by_cases hlater : container ∈ groups.map Prod.fst
    · rw [if_pos hlater, if_pos (List.mem_cons_of_mem _ hlater)]
    · rw [if_neg hlater]
      by_cases heq : g.1 = container
      · rw [if_pos heq, if_pos (heq ▸ List.mem_cons_self)]
        unfold derived
        rw [aggregateCompletion_congr (h g List.mem_cons_self heq)]
      · rw [if_neg heq, if_neg fun hmem => (List.mem_cons.1 hmem).elim (fun h => heq h.symm) hlater]

theorem playedChildren_eq : service.playedChildren db =
    (db.mediaItems.rows.filter fun m => isPlayable m && db.sourceMediaRefs.rows.any fun r =>
      r.mediaItemId == m.id && r.sourceId == service.sourceId && r.libraryId == service.libraryId &&
        r.available).map
        (service.playedChild db) := rfl

theorem parentId_playedChild (m : MediaItem) :
    (service.playedChild db m).parentId = m.parentId := by
  unfold playedChild
  split <;> rfl

/-- A child is an item of its own row, and playable. -/
theorem exists_of_playedChildren {child : PlayedChild} (h : child ∈ service.playedChildren db) :
    ∃ m ∈ db.mediaItems.rows, isPlayable m = true ∧ service.playedChild db m = child := by
  rw [playedChildren_eq] at h
  obtain ⟨m, hm, rfl⟩ := List.mem_map.1 h
  exact ⟨m, (List.mem_filter.1 hm).1, (Bool.and_eq_true_iff.1 (List.mem_filter.1 hm).2).1, rfl⟩

theorem parentKind_of_isPlayable {m : MediaItem} (h : isPlayable m = true) :
    m.kind.parentKind = some .season ∨ m.kind.parentKind = some .album := by
  rcases Bool.or_eq_true_iff.1 h with h | h
  · rw [eq_of_beq h]; exact .inl rfl
  · rw [eq_of_beq h]; exact .inr rfl

/-- What is directly above a playable item is above nothing that is above one. -/
theorem parent_or_top (h : db.Layered) {m m' : MediaItem} (hm : m ∈ db.mediaItems.rows)
    (hm' : m' ∈ db.mediaItems.rows)
    (hplayable : isPlayable m = true) (hplayable' : isPlayable m' = true)
    (hparent : m.parentId = some container)
    (htop : m'.parentId.bind db.identityRows.parentOf = some container) : False := by
  have hrow : ∀ {m : MediaItem}, m ∈ db.mediaItems.rows → isPlayable m = true →
      ∀ p, m.parentId = some p →
      db.identityRows.kindOf p = some .season ∨ db.identityRows.kindOf p = some .album := by
    intro m hm hplayable p hp
    have hfits := h m.id m (Table.get?_of_mem hm)
    rw [hp] at hfits
    obtain ⟨kp, hkp, hkind⟩ := parentFits_some.1 hfits
    rcases parentKind_of_isPlayable hplayable with hk | hk
    · rw [hk] at hkp; cases hkp; exact .inl hkind
    · rw [hk] at hkp; cases hkp; exact .inr hkind
  obtain ⟨p, hp, hpc⟩ := Option.bind_eq_some_iff.1 htop
  obtain ⟨k, kp, hk, hkp, hkind⟩ := h.parentOf hpc
  have hcontainer := hrow hm hplayable container hparent
  rw [hkind] at hcontainer
  have hbelow := hrow hm' hplayable' p hp
  rw [hk] at hbelow
  rcases hbelow with hbelow | hbelow <;> cases hbelow <;> rcases hcontainer with hc | hc <;>
    cases hc <;> cases hkp

/-- The rows of a group are those of its key. -/
theorem mem_group {rows : List (Nat × PlayedChild)} {g : Nat × List PlayedChild}
    (hg : g ∈ (groupBy Prod.fst rows).map fun group => (group.1, group.2.map Prod.snd))
    (child : PlayedChild) :
    child ∈ g.2 ↔ (g.1, child) ∈ rows := by
  obtain ⟨⟨k, l⟩, hgroup, rfl⟩ := List.mem_map.1 hg
  obtain ⟨rfl, -⟩ := mem_groupBy hgroup
  constructor
  · intro hchild
    obtain ⟨row, hmem, rfl⟩ := List.mem_map.1 hchild
    obtain ⟨hmem, hk⟩ := List.mem_filter.1 hmem
    rw [← of_decide_eq_true hk]
    exact hmem
  · intro hmem
    exact List.mem_map.2 ⟨(k, child), List.mem_filter.2 ⟨hmem, decide_eq_true rfl⟩, rfl⟩

theorem mem_group_keys {rows : List (Nat × PlayedChild)} {k : Nat} :
    k ∈ ((groupBy Prod.fst rows).map fun group => (group.1, group.2.map Prod.snd)).map Prod.fst ↔
      ∃ child, (k, child) ∈ rows := by
  constructor
  · intro hk
    obtain ⟨g, hg, rfl⟩ := List.mem_map.1 hk
    obtain ⟨⟨k, l⟩, hgroup, rfl⟩ := List.mem_map.1 hg
    obtain ⟨row, hmem, hrow⟩ := List.mem_map.1 (mem_groupBy hgroup).2
    exact ⟨row.2, by rw [← hrow]; exact hmem⟩
  · rintro ⟨child, hmem⟩
    exact List.mem_map.2 ⟨_, List.mem_map.2 ⟨_, exists_groupBy hmem, rfl⟩, rfl⟩

/-- The children under their parents. -/
def childRows (service : MediaPersistenceService) (db : Database) : List (Nat × PlayedChild) :=
  (service.playedChildren db).filterMap fun child => child.parentId.map (·, child)

def childGroups (service : MediaPersistenceService) (db : Database) :
    List (Nat × List PlayedChild) :=
  (groupBy Prod.fst (service.childRows db)).map fun group => (group.1, group.2.map Prod.snd)

/-- The children under the parents of their parents. -/
def topRows (service : MediaPersistenceService) (db : Database) : List (Nat × PlayedChild) :=
  (service.childGroups db).flatMap fun group =>
      match (db.mediaItems.get? group.1).bind (·.parentId) with
    | some top => group.2.map (top, ·)
    | none => []

theorem rebuildContainerWatchStates_eq : service.rebuildContainerWatchStates observedAt db =
    (service.childGroups db ++ (groupBy Prod.fst (service.topRows db)).map fun group =>
      (group.1, group.2.map Prod.snd)).foldl
      (service.setDerivedWatchState observedAt) db := rfl

theorem mem_childRows {p : Nat} {child : PlayedChild} :
    (p, child) ∈ service.childRows db ↔ child ∈ service.playedChildren db ∧
    child.parentId = some p := by
  rw [childRows, List.mem_filterMap]
  constructor
  · rintro ⟨child', hchild, hpair⟩
    obtain ⟨p', hp', heq⟩ := Option.map_eq_some_iff.1 hpair
    cases heq
    exact ⟨hchild, hp'⟩
  · rintro ⟨hchild, hp⟩
    exact ⟨child, hchild, by rw [hp]; rfl⟩

theorem mem_topRows {top : Nat} {child : PlayedChild} :
    (top, child) ∈ service.topRows db ↔
      child ∈ service.playedChildren db ∧
      child.parentId.bind db.identityRows.parentOf = some top := by
  rw [topRows, List.mem_flatMap]
  constructor
  · rintro ⟨g, hg, hmem⟩
    split at hmem
    next top' htop =>
      obtain ⟨child', hchild, heq⟩ := List.mem_map.1 hmem
      cases heq
      obtain ⟨hchild, hp⟩ := mem_childRows.1 ((mem_group hg child).1 hchild)
      exact ⟨hchild, by rw [hp]; exact htop⟩
    next => cases hmem
  · rintro ⟨hchild, htop⟩
    obtain ⟨p, hp, hptop⟩ := Option.bind_eq_some_iff.1 htop
    have hrow := mem_childRows.2 ⟨hchild, hp⟩
    have hkey : p ∈ (service.childGroups db).map Prod.fst := mem_group_keys.2 ⟨child, hrow⟩
    obtain ⟨g, hg, rfl⟩ := List.mem_map.1 hkey
    refine ⟨g, hg, ?_⟩
    rw [show (db.mediaItems.get? g.1).bind (·.parentId) = some top from hptop]
    exact List.mem_map_of_mem ((mem_group hg child).2 hrow)

theorem mem_share {child : PlayedChild} : child ∈ service.share db container ↔
    child ∈ service.playedChildren db ∧
    (child.parentId = some container ∨
      child.parentId.bind db.identityRows.parentOf = some container) := by
  rw [share, List.mem_filter, below, Bool.or_eq_true, beq_iff_eq, beq_iff_eq]

/-- A rebuild writes the containers that have a share of its library, and no other. -/
theorem containerState_rebuild (h : db.Layered) :
    service.containerState (service.rebuildContainerWatchStates observedAt db) container =
      if service.share db container = [] then service.containerState db container
      else some (derived (service.share db container)) := by
  have hexclusive : ∀ child ∈ service.playedChildren db, ∀ child' ∈ service.playedChildren db,
      child.parentId = some container →
        child'.parentId.bind db.identityRows.parentOf = some container → False := by
    intro child hchild child' hchild' hparent htop
    obtain ⟨m, hm, hplayable, rfl⟩ := exists_of_playedChildren hchild
    obtain ⟨m', hm', hplayable', rfl⟩ := exists_of_playedChildren hchild'
    rw [parentId_playedChild] at hparent htop
    exact parent_or_top h hm hm' hplayable hplayable' hparent htop
  rw [rebuildContainerWatchStates_eq,
    @containerState_foldl service db container observedAt (service.share db container)]
  · have hkeys : container ∈ (service.childGroups db ++
        (groupBy Prod.fst (service.topRows db)).map fun group =>
          (group.1, group.2.map Prod.snd)).map Prod.fst ↔
          service.share db container ≠ [] := by
      rw [List.map_append, List.mem_append, childGroups, mem_group_keys, mem_group_keys]
      refine Iff.trans ?_ ⟨fun ⟨child, hshare⟩ => List.ne_nil_of_mem hshare,
        List.exists_mem_of_ne_nil _⟩
      constructor
      · rintro (⟨child, hrow⟩ | ⟨child, hrow⟩)
        · exact ⟨child, mem_share.2 ⟨(mem_childRows.1 hrow).1, .inl (mem_childRows.1 hrow).2⟩⟩
        · exact ⟨child, mem_share.2 ⟨(mem_topRows.1 hrow).1, .inr (mem_topRows.1 hrow).2⟩⟩
      · rintro ⟨child, hshare⟩
        obtain ⟨hchild, hparent | htop⟩ := mem_share.1 hshare
        · exact .inl ⟨child, mem_childRows.2 ⟨hchild, hparent⟩⟩
        · exact .inr ⟨child, mem_topRows.2 ⟨hchild, htop⟩⟩
    by_cases hnil : service.share db container = []
    · rw [if_neg fun hmem => hkeys.1 hmem hnil, if_pos hnil]
    · rw [if_pos (hkeys.2 hnil), if_neg hnil]
  · intro g hg hkey child
    subst hkey
    rw [mem_share]
    rcases List.mem_append.1 hg with hg | hg
    · rw [mem_group hg, mem_childRows]
      refine and_congr_right fun hchild => ⟨.inl, fun hbelow => hbelow.resolve_right fun htop => ?_⟩
      obtain ⟨child', hrow⟩ := mem_group_keys.1 (List.mem_map_of_mem hg)
      exact hexclusive child' (mem_childRows.1 hrow).1 child hchild (mem_childRows.1 hrow).2 htop
    · rw [mem_group hg, mem_topRows]
      refine and_congr_right fun hchild =>
        ⟨.inr, fun hbelow => hbelow.resolve_left fun hparent => ?_⟩
      obtain ⟨child', hrow⟩ := mem_group_keys.1 (List.mem_map_of_mem hg)
      exact hexclusive child hchild child' (mem_topRows.1 hrow).1 hparent (mem_topRows.1 hrow).2

theorem mediaItems_rebuild :
    (service.rebuildContainerWatchStates observedAt db).mediaItems = db.mediaItems :=
  service.rebuildContainerWatchStates_frame observedAt db .mediaItems (by decide)

theorem sourceMediaRefs_rebuild :
    (service.rebuildContainerWatchStates observedAt db).sourceMediaRefs = db.sourceMediaRefs :=
  service.rebuildContainerWatchStates_frame observedAt db .sourceMediaRefs (by decide)

theorem layered_rebuild (h : db.Layered) :
    (service.rebuildContainerWatchStates observedAt db).Layered := by
  intro i m hm
  rw [mediaItems_rebuild] at hm
  have hfits := h i m hm
  have hkind : (service.rebuildContainerWatchStates observedAt db).identityRows.kindOf =
      db.identityRows.kindOf := by
    funext i
    exact congrArg (fun t : Table MediaItem.id => (t.get? i).map (·.kind)) mediaItems_rebuild
  unfold Database.ParentFits at hfits ⊢
  rw [hkind]
  exact hfits

/-- The playback of a playable item is the same after a rebuild: a container is not playable. -/
theorem playedChild_rebuild {service' : MediaPersistenceService} (h : db.Layered) {m : MediaItem}
    (hm : m ∈ db.mediaItems.rows) (hplayable : isPlayable m = true) :
    service'.playedChild (service.rebuildContainerWatchStates observedAt db) m =
      service'.playedChild db m := by
  have hkind : db.identityRows.kindOf m.id = some m.kind :=
    Option.map_eq_some_iff.2 ⟨m, Table.get?_of_mem hm, rfl⟩
  have hleaf : m.kind.isContainer = false := by
    rcases Bool.or_eq_true_iff.1 hplayable with hk | hk <;> rw [eq_of_beq hk] <;> rfl
  have hstate : (service.rebuildContainerWatchStates observedAt db).byItemAndSource m.id
      service'.sourceId =
      db.byItemAndSource m.id service'.sourceId :=
    get?_rebuildContainerWatchStates fun j => h.leaf_childless hkind hleaf
  have hevents : (service.rebuildContainerWatchStates observedAt db).watchEvents = db.watchEvents :=
    service.rebuildContainerWatchStates_frame observedAt db .watchEvents (by decide)
  unfold playedChild
  rw [hstate, hevents]

theorem below_rebuild : below (service.rebuildContainerWatchStates observedAt db) = below db := by
  have hparent : (service.rebuildContainerWatchStates observedAt db).identityRows.parentOf =
      db.identityRows.parentOf := by
    funext i
    exact congrArg (fun t : Table MediaItem.id => (t.get? i).bind (·.parentId)) mediaItems_rebuild
  unfold below
  rw [hparent]

theorem share_rebuild (service' : MediaPersistenceService) (h : db.Layered) :
    service'.share (service.rebuildContainerWatchStates observedAt db) container =
      service'.share db container := by
  rw [share, share, below_rebuild, playedChildren_eq, playedChildren_eq, mediaItems_rebuild,
    sourceMediaRefs_rebuild]
  congr 1
  refine List.map_congr_left fun m hm => ?_
  obtain ⟨hm, hkept⟩ := List.mem_filter.1 hm
  exact playedChild_rebuild h hm (Bool.and_eq_true_iff.1 hkept).1

theorem itemsBelow_rebuild (service' : MediaPersistenceService) :
    service'.itemsBelow (service.rebuildContainerWatchStates observedAt db) container =
      service'.itemsBelow db container := by
  rw [itemsBelow, itemsBelow, below_rebuild, sourceItems, sourceItems, mediaItems_rebuild,
    sourceMediaRefs_rebuild]

theorem mem_itemsBelow {m : MediaItem} (hm : m ∈ service.itemsBelow db container) :
    m ∈ db.mediaItems.rows ∧ isPlayable m = true := by
  obtain ⟨hm, -⟩ := List.mem_filter.1 hm
  obtain ⟨hm, hkept⟩ := List.mem_filter.1 hm
  exact ⟨hm, (Bool.and_eq_true_iff.1 hkept).1⟩

theorem whole_rebuild (service' : MediaPersistenceService) (h : db.Layered) :
    service'.whole (service.rebuildContainerWatchStates observedAt db) container =
      service'.whole db container := by
  rw [whole, whole, itemsBelow_rebuild]
  refine List.map_congr_left fun m hm => ?_
  exact playedChild_rebuild h (mem_itemsBelow hm).1 (mem_itemsBelow hm).2

/-- A share is part of the whole. -/
theorem share_subset {child : PlayedChild} (h : child ∈ service.share db container) :
    child ∈ service.whole db container := by
  obtain ⟨hchild, hbelow⟩ := List.mem_filter.1 h
  rw [playedChildren_eq] at hchild
  obtain ⟨m, hm, rfl⟩ := List.mem_map.1 hchild
  obtain ⟨hm, hkept⟩ := List.mem_filter.1 hm
  obtain ⟨hplayable, hany⟩ := Bool.and_eq_true_iff.1 hkept
  rw [parentId_playedChild] at hbelow
  refine List.mem_map.2 ⟨m, List.mem_filter.2 ⟨List.mem_filter.2 ⟨hm, ?_⟩, hbelow⟩, rfl⟩
  rw [hplayable, Bool.true_and]
  obtain ⟨r, hr, href⟩ := List.any_eq_true.1 hany
  refine List.any_eq_true.2 ⟨r, hr, ?_⟩
  simp only [Bool.and_eq_true] at href ⊢
  exact ⟨href.1.1, href.2⟩

end Rebuild

/-- The item was completed on the source, how often, and when last. -/
def completedOn (db : Database) (item : Nat) : Bool :=
  match db.byItemAndSource item service.sourceId with
  | some s => s.completed
  | none =>
    db.watchEvents.rows.any fun e => e.mediaItemId == item &&
      e.sourceId == service.sourceId && e.completed

def viewsOn (db : Database) (item : Nat) : Nat :=
  match db.byItemAndSource item service.sourceId with
  | some s => s.viewCount
  | none =>
    db.watchEvents.rows.countP fun e => e.mediaItemId == item &&
      e.sourceId == service.sourceId && e.completed

def lastWatchedOn (db : Database) (item : Nat) : Option Time :=
  match db.byItemAndSource item service.sourceId with
  | some s => if s.completed then s.lastWatchedAt else none
  | none => latestOf ((db.watchEvents.rows.filter fun e =>
      e.mediaItemId == item && e.sourceId == service.sourceId && e.completed).map fun e =>
        some e.watchedAt)

/-- The state of a container is the aggregate of the available items below it. -/
structure Aggregates (db : Database) (container : Nat) (s : WatchState) : Prop where
  completed : s.completed = true ↔ ∀ m ∈ service.itemsBelow db container,
    service.completedOn db m.id = true
  least : s.completed = true →
    (∃ m ∈ service.itemsBelow db container, service.viewsOn db m.id = s.viewCount) ∧
    ∀ m ∈ service.itemsBelow db container, s.viewCount ≤ service.viewsOn db m.id
  unviewed : s.completed = false → s.viewCount = 0
  last : s.lastWatchedAt =
    latestOf ((service.itemsBelow db container).map fun m => service.lastWatchedOn db m.id)

section States
variable {service} {db : Database} {container : Nat}

theorem count_playedChild (h : db.StatesAgree) (m : MediaItem) :
    (0 < (service.playedChild db m).count ↔ service.completedOn db m.id = true) ∧
      (service.completedOn db m.id = true →
        (service.playedChild db m).count = service.viewsOn db m.id) := by
  unfold playedChild completedOn viewsOn
  cases hs : db.byItemAndSource m.id service.sourceId with
  | some s =>
    dsimp only
    have hagrees := h _ s hs
    cases hc : s.completed with
    | true => exact ⟨⟨fun _ => rfl, fun _ => hagrees.1 hc⟩, fun _ => rfl⟩
    | false =>
      exact ⟨⟨fun h => absurd h (Nat.lt_irrefl 0), fun h => by cases h⟩, fun h => by cases h⟩
  | none =>
    dsimp only
    rw [← List.countP_eq_length_filter]
    exact ⟨List.countP_pos_iff.trans List.any_eq_true.symm, fun _ => rfl⟩

theorem lastWatchedAt_playedChild (m : MediaItem) :
    (service.playedChild db m).lastWatchedAt = service.lastWatchedOn db m.id := by
  unfold playedChild lastWatchedOn
  cases db.byItemAndSource m.id service.sourceId with
  | some s => rfl
  | none =>
    dsimp only
    rw [latestOf, List.foldl_map]

/-- The columns that the rebuild derives from all children are the aggregate. -/
theorem aggregates_iff (h : db.StatesAgree) (hne : service.itemsBelow db container ≠ [])
    {s : WatchState} :
    service.Aggregates db container s ↔
      (s.completed, s.viewCount, s.lastWatchedAt) = derived (service.whole db container) := by
  have hwhole : service.whole db container ≠ [] := fun hnil => hne (List.map_eq_nil_iff.1 hnil)
  have hpos : 0 < (aggregateCompletion (service.whole db container)).1 ↔
      ∀ m ∈ service.itemsBelow db container, service.completedOn db m.id = true := by
    rw [aggregateCompletion_pos hwhole, whole, List.forall_mem_map]
    exact forall₂_congr fun m _ => (count_playedChild h m).1
  have hlast : (aggregateCompletion (service.whole db container)).2 =
      latestOf ((service.itemsBelow db container).map fun m => service.lastWatchedOn db m.id) := by
    rw [aggregateCompletion_last, whole, List.map_map]
    exact congrArg _ (List.map_congr_left fun m _ => lastWatchedAt_playedChild m)
  have hleast : (∀ m ∈ service.itemsBelow db container, service.completedOn db m.id = true) →
      (∃ m ∈ service.itemsBelow db container,
          service.viewsOn db m.id = (aggregateCompletion (service.whole db container)).1) ∧
        ∀ m ∈ service.itemsBelow db container,
          (aggregateCompletion (service.whole db container)).1 ≤ service.viewsOn db m.id := by
    intro hall
    obtain ⟨⟨child, hchild, hcount⟩, hle⟩ := aggregateCompletion_least hwhole
      ((aggregateCompletion_pos hwhole).1 (hpos.2 hall))
    obtain ⟨m, hm, rfl⟩ := List.mem_map.1 hchild
    refine ⟨⟨m, hm, ?_⟩, fun m' hm' => ?_⟩
    · rw [← hcount, (count_playedChild h m).2 (hall m hm)]
    · rw [← (count_playedChild h m').2 (hall m' hm')]
      exact hle _ (List.mem_map_of_mem hm')
  have hzero : (¬ ∀ m ∈ service.itemsBelow db container, service.completedOn db m.id = true) →
      (aggregateCompletion (service.whole db container)).1 = 0 :=
    fun hnot => Nat.eq_zero_of_not_pos fun hp => hnot (hpos.1 hp)
  constructor
  · intro hs
    have hcompleted : s.completed =
        decide (0 < (aggregateCompletion (service.whole db container)).1) := by
      rw [Bool.eq_iff_iff, decide_eq_true_iff, hpos]
      exact hs.completed
    refine Prod.ext hcompleted (Prod.ext ?_ (hs.last.trans hlast.symm))
    show s.viewCount = (aggregateCompletion (service.whole db container)).1
    by_cases hall : ∀ m ∈ service.itemsBelow db container, service.completedOn db m.id = true
    · obtain ⟨⟨m, hm, hcount⟩, hle⟩ := hs.least (hs.completed.2 hall)
      obtain ⟨⟨m', hm', hcount'⟩, hle'⟩ := hleast hall
      exact le_antisymm (hcount' ▸ hle m' hm') (hcount ▸ hle' m hm)
    · rw [hzero hall]
      exact hs.unviewed (Bool.eq_false_iff.2 fun hc => hall (hs.completed.1 hc))
  · intro hs
    obtain ⟨hcompleted, hrest⟩ := Prod.ext_iff.1 hs
    obtain ⟨hcount, hlast'⟩ := Prod.ext_iff.1 hrest
    have hcompleted : s.completed = true ↔ ∀ m ∈ service.itemsBelow db container,
        service.completedOn db m.id = true := by
      rw [show s.completed =
        decide (0 < (aggregateCompletion (service.whole db container)).1) from hcompleted,
        decide_eq_true_iff]
      exact hpos
    have hcount : s.viewCount = (aggregateCompletion (service.whole db container)).1 := hcount
    refine ⟨hcompleted, fun hc => ?_, fun hc => ?_, hlast'.trans hlast⟩
    · rw [hcount]
      exact hleast (hcompleted.1 hc)
    · rw [hcount]
      exact hzero fun hall => Bool.false_ne_true (hc.symm.trans (hcompleted.2 hall))

end States

/-! ### Rebuilds in any order -/

/-- The service of a library. -/
def ofLibrary (service : MediaPersistenceService) (library : Nat) : MediaPersistenceService :=
  { service with libraryId := library }

/-- The rebuild of one library of the source, at a time. -/
def rebuildLibrary (service : MediaPersistenceService) (db : Database)
    (l : Nat × Time) : Database :=
  (service.ofLibrary l.1).rebuildContainerWatchStates l.2 db

/-- Some available item below the container is in one of these libraries. -/
def SharedBy (service : MediaPersistenceService) (libraries : List Nat) (db : Database)
    (container : Nat) : Prop :=
  ∃ l ∈ libraries, (service.ofLibrary l).share db container ≠ []

/-- Each share of the library has the aggregate of the whole. -/
def AgreesWithWhole (service : MediaPersistenceService) (library : Nat) (db : Database) : Prop :=
  ∀ container, (service.ofLibrary library).share db container ≠ [] →
    derived ((service.ofLibrary library).share db container) = derived (service.whole db container)

/-- The states of the containers with items in these libraries are the aggregates on the source. -/
def ContainersAggregate (service : MediaPersistenceService) (libraries : List Nat)
    (db : Database) : Prop :=
  ∀ container, service.SharedBy libraries db container →
    ∃ s, db.watchStates.get? (container, service.sourceId) = some s ∧
      service.Aggregates db container s

section Orders
variable {service : MediaPersistenceService} {db : Database} {container library : Nat}
  {libraries : List Nat}

theorem itemsBelow_ne_nil (h : service.SharedBy libraries db container) :
    service.itemsBelow db container ≠ [] := by
  obtain ⟨l, -, hshare⟩ := h
  obtain ⟨child, hchild⟩ := List.exists_mem_of_ne_nil _ hshare
  have hmem : child ∈ service.whole db container :=
    @share_subset (service.ofLibrary l) db container child hchild
  obtain ⟨m, hm, -⟩ := List.mem_map.1 hmem
  exact List.ne_nil_of_mem hm

theorem containersAggregate_iff (h : db.StatesAgree) : service.ContainersAggregate libraries db ↔
    ∀ container, service.SharedBy libraries db container →
      service.containerState db container = some (derived (service.whole db container)) := by
  refine forall_congr' fun container => forall_congr' fun hshared => ?_
  rw [containerState, Option.map_eq_some_iff]
  exact exists_congr fun s => and_congr_right fun _ => aggregates_iff h (itemsBelow_ne_nil hshared)

variable (l : Nat × Time)

theorem statesAgree_rebuildLibrary (h : db.StatesAgree) :
    (service.rebuildLibrary db l).StatesAgree :=
  rebuildContainerWatchStates_agree h

theorem sharedBy_rebuildLibrary (h : db.Layered) :
    service.SharedBy libraries (service.rebuildLibrary db l) container ↔
    service.SharedBy libraries db container :=
  exists_congr fun l' => and_congr_right fun _ =>
    not_congr (by rw [rebuildLibrary, share_rebuild _ h])

theorem agreesWithWhole_rebuildLibrary (h : db.Layered) :
    service.AgreesWithWhole library (service.rebuildLibrary db l) ↔
    service.AgreesWithWhole library db := by
  refine forall_congr' fun container => ?_
  rw [rebuildLibrary, share_rebuild _ h, whole_rebuild _ h]

/-- After the rebuild of a library, the containers it has a share of say what the share says. -/
theorem containerState_rebuildLibrary (h : db.Layered) :
    service.containerState (service.rebuildLibrary db l) container =
      if (service.ofLibrary l.1).share db container = [] then service.containerState db container
      else some (derived ((service.ofLibrary l.1).share db container)) :=
  @containerState_rebuild (service.ofLibrary l.1) db container l.2 h

variable {l}

/-- What the rebuild of a library whose shares agree with the whole adds to the containers that say
it. -/
theorem derived_rebuildLibrary (hl : db.Layered) (hagrees : service.AgreesWithWhole l.1 db)
    (hdone : ∀ container, (service.ofLibrary l.1).share db container = [] →
      service.SharedBy libraries db container →
      service.containerState db container = some (derived (service.whole db container))) :
    ∀ container, service.SharedBy (l.1 :: libraries) (service.rebuildLibrary db l) container →
      service.containerState (service.rebuildLibrary db l) container =
        some (derived (service.whole (service.rebuildLibrary db l) container)) := by
  intro container hshared
  rw [sharedBy_rebuildLibrary l hl] at hshared
  rw [containerState_rebuildLibrary l hl, rebuildLibrary, whole_rebuild _ hl]
  split
  next hnil =>
    refine hdone container hnil ?_
    obtain ⟨l', hl', hshare⟩ := hshared
    rcases List.mem_cons.1 hl' with rfl | hl'
    · exact absurd hnil hshare
    · exact ⟨l', hl', hshare⟩
  next hne => rw [hagrees container hne]

/-- Rebuilds change no share and no whole. -/
theorem rebuilds_keep (order : List (Nat × Time)) (hl : db.Layered) (ha : db.StatesAgree) :
    (order.foldl service.rebuildLibrary db).Layered ∧
    (order.foldl service.rebuildLibrary db).StatesAgree ∧
      ∀ library, service.AgreesWithWhole library (order.foldl service.rebuildLibrary db) ↔
      service.AgreesWithWhole library db := by
  induction order generalizing db with
  | nil => exact ⟨hl, ha, fun _ => Iff.rfl⟩
  | cons l order ih =>
    obtain ⟨hl', ha', hagrees⟩ := ih (layered_rebuild hl) (statesAgree_rebuildLibrary l ha)
    exact ⟨hl', ha', fun library => (hagrees library).trans (agreesWithWhole_rebuildLibrary l hl)⟩

theorem sharedBy_snoc {order : List (Nat × Time)}
    (h : service.SharedBy ((order ++ [l]).map Prod.fst) db container) :
    service.SharedBy (l.1 :: order.map Prod.fst) db container := by
  obtain ⟨l', hmem, hshare⟩ := h
  refine ⟨l', ?_, hshare⟩
  rw [List.map_append, List.mem_append] at hmem
  rcases hmem with hmem | hmem
  · exact List.mem_cons_of_mem _ hmem
  · rw [List.mem_singleton.1 hmem]; exact List.mem_cons_self

theorem derived_rebuilds (order : List (Nat × Time)) (hl : db.Layered) (ha : db.StatesAgree)
    (h : ∀ l ∈ order, service.AgreesWithWhole l.1 db) :
    ∀ container, service.SharedBy (order.map Prod.fst)
    (order.foldl service.rebuildLibrary db) container →
      service.containerState (order.foldl service.rebuildLibrary db) container =
        some (derived (service.whole (order.foldl service.rebuildLibrary db) container)) := by
  induction order using List.reverseRecOn with
  | nil => rintro container ⟨l, hmem, -⟩; cases hmem
  | append_singleton order l ih =>
    intro container hshared
    obtain ⟨hl', -, hagrees⟩ := @rebuilds_keep service db order hl ha
    have hdone := ih fun l' hl' => h l' (List.mem_append_left _ hl')
    rw [List.foldl_append] at hshared ⊢
    exact derived_rebuildLibrary hl' ((hagrees l.1).2 (h l (by simp)))
      (fun container _ => hdone container) container
      (sharedBy_snoc hshared)

/-- Rebuilds of all libraries, in every order, leave the aggregates exactly when each library's
share of a container has the aggregate of the whole. -/
theorem rebuilds_aggregate_iff (hl : db.Layered) (ha : db.StatesAgree)
    (libraries : List (Nat × Time)) :
    (∀ order : List (Nat × Time), order.Perm libraries →
        service.ContainersAggregate (order.map Prod.fst) (order.foldl service.rebuildLibrary db)) ↔
      ∀ l ∈ libraries, service.AgreesWithWhole l.1 db := by
  constructor
  · -- the library that is rebuilt last says what its shares say
    intro h l hmem
    have hperm : (libraries.erase l ++ [l]).Perm libraries :=
      List.perm_append_comm.trans (List.perm_cons_erase hmem).symm
    have hlast := h _ hperm
    rw [List.foldl_append] at hlast
    obtain ⟨hl', ha', hagrees⟩ := @rebuilds_keep service db (libraries.erase l) hl ha
    refine (hagrees l.1).1 fun container hne => ?_
    have hstate := (containersAggregate_iff (statesAgree_rebuildLibrary l ha')).1 hlast container
      ((sharedBy_rebuildLibrary l hl').2 ⟨l.1, by simp, hne⟩)
    rw [containerState_rebuildLibrary l hl', if_neg hne, rebuildLibrary,
      whole_rebuild _ hl'] at hstate
    exact Option.some.inj hstate
  · intro h order hperm
    rw [containersAggregate_iff (rebuilds_keep order hl ha).2.1]
    exact derived_rebuilds order hl ha fun l hmem => h l (hperm.mem_iff.1 hmem)

end Orders

/-! ### Synchronizations of libraries -/

/-- The session when the rebuild of the library starts: its catalog, its sweep and its history are
done. -/
def beforeRebuild (service : MediaPersistenceService) (l : LibraryScan) (s : PersistSession) :
    PersistSession :=
  l.history.foldl (service.syncHistoryPage l)
    { service.syncMedia l s with store := (service.syncMedia l s).store.markMissingUnavailable l }

theorem store_syncLibrary (service : MediaPersistenceService) (l : LibraryScan)
    (s : PersistSession) :
    (service.syncLibrary l s).store =
      service.rebuildLibrary (service.beforeRebuild l s).store (l.libraryId, l.rebuiltAt) := rfl

/-- A run over the libraries of the source, with those that are done. -/
structure ScanProgress where
  session : PersistSession
  synchronized : List Nat := []

namespace ScanProgress

def step (service : MediaPersistenceService) (p : ScanProgress) (l : LibraryScan) : ScanProgress :=
  ⟨service.syncLibrary l p.session, l.libraryId :: p.synchronized⟩

/-- The catalog is layered and the states agree with their counts when the rebuild starts, and what
the synchronization of the library did before leaves the containers that are done and that it has no
share of. -/
def LeavesOthers (service : MediaPersistenceService) (p : ScanProgress) (l : LibraryScan) : Prop :=
  let db := p.session.store
  let db' := (service.beforeRebuild l p.session).store
  db'.Layered ∧ db'.StatesAgree ∧
    ∀ container, (service.ofLibrary l.libraryId).share db' container = [] →
      service.SharedBy p.synchronized db' container →
      service.SharedBy p.synchronized db container ∧
        service.containerState db' container = service.containerState db container ∧
        service.whole db' container = service.whole db container

def SharesAgree (service : MediaPersistenceService) (p : ScanProgress) (l : LibraryScan) : Prop :=
  service.AgreesWithWhole l.libraryId (service.beforeRebuild l p.session).store

/-- The containers that are done say the aggregate. -/
structure Derived (service : MediaPersistenceService) (p : ScanProgress) : Prop where
  agree : p.synchronized ≠ [] → p.session.store.StatesAgree
  derived : ∀ container, service.SharedBy p.synchronized p.session.store container →
    service.containerState p.session.store container =
      some (derived (service.whole p.session.store container))

variable {service : MediaPersistenceService} {p : ScanProgress}

theorem Derived.aggregate (h : p.Derived service) :
    service.ContainersAggregate p.synchronized p.session.store := by
  intro container hshared
  have hne : p.synchronized ≠ [] := by
    obtain ⟨l, hl, -⟩ := hshared
    exact List.ne_nil_of_mem hl
  exact (containersAggregate_iff (h.agree hne)).2 h.derived container hshared

theorem Derived.step (h : p.Derived service) {l : LibraryScan} (hothers : p.LeavesOthers service l)
    (hagrees : p.SharesAgree service l) : (p.step service l).Derived service := by
  obtain ⟨hlayered, hstates, hleft⟩ := hothers
  have hstore : (p.step service l).session.store =
      service.rebuildLibrary (service.beforeRebuild l p.session).store (l.libraryId, l.rebuiltAt) :=
    store_syncLibrary service l p.session
  have hdone : (p.step service l).synchronized = (l.libraryId, l.rebuiltAt).1 :: p.synchronized :=
    rfl
  constructor
  · intro _
    rw [hstore]
    exact statesAgree_rebuildLibrary _ hstates
  · rw [hstore, hdone]
    refine derived_rebuildLibrary hlayered hagrees fun container hnil hshared => ?_
    obtain ⟨hbefore, hstate, hwhole⟩ := hleft container hnil hshared
    rw [hstate, hwhole]
    exact h.derived container hbefore

end ScanProgress

/-- After a run over libraries of a source, in which no synchronization changes the containers that
it has no share of and each library's share of a container has the aggregate of the whole, the
states of the containers are the aggregates of the available items below them on the source. Of a
catalog that is only rebuilt, this holds after every order of the libraries exactly when the shares
agree with the whole. -/
theorem containers_aggregate (service : MediaPersistenceService) :
    (∀ (s : PersistSession) (libraries : List LibraryScan),
        Along (ScanProgress.step service)
        (fun p l => p.LeavesOthers service l ∧ p.SharesAgree service l) ⟨s, []⟩ libraries →
          ∀ pre, pre <+: libraries →
            service.ContainersAggregate (pre.map (·.libraryId)) (service.fullScan pre s).store) ∧
      ∀ db : Database, db.Layered → db.StatesAgree → ∀ libraries : List (Nat × Time),
        ((∀ order : List (Nat × Time), order.Perm libraries →
            service.ContainersAggregate (order.map Prod.fst)
              (order.foldl service.rebuildLibrary db)) ↔
          ∀ l ∈ libraries, service.AgreesWithWhole l.1 db) := by
  refine ⟨fun s libraries h pre hpre => ?_, fun db hl ha libraries =>
    rebuilds_aggregate_iff hl ha libraries⟩
  obtain ⟨suf, rfl⟩ := hpre
  have hrun : ∀ (libraries : List LibraryScan) (p : ScanProgress),
      (libraries.foldl (ScanProgress.step service) p).session =
        service.fullScan libraries p.session ∧
        ∀ n, n ∈ (libraries.foldl (ScanProgress.step service) p).synchronized ↔
          n ∈ p.synchronized ∨ n ∈ libraries.map (·.libraryId) := by
    intro libraries
    induction libraries with
    | nil => exact fun p => ⟨rfl, fun n => by simp⟩
    | cons l libraries ih =>
      intro p
      obtain ⟨hsession, hmem⟩ := ih (p.step service l)
      refine ⟨hsession, fun n => (hmem n).trans ?_⟩
      rw [List.map_cons, List.mem_cons, ScanProgress.step, List.mem_cons]
      tauto
  have hderived : (pre.foldl (ScanProgress.step service) ⟨s, []⟩).Derived service :=
    (Along.append.1 h).1.invariant (fun p l (hp : p.Derived service) hok => hp.step hok.1 hok.2)
      ⟨fun hne => absurd rfl hne, fun container ⟨l, hl, _⟩ => by cases hl⟩
  obtain ⟨hsession, hmem⟩ := hrun pre ⟨s, []⟩
  intro container hshared
  have haggregate := hderived.aggregate container
  rw [hsession] at haggregate
  refine haggregate ?_
  obtain ⟨l, hl, hshare⟩ := hshared
  exact ⟨l, (hmem l).2 (.inr hl), hshare⟩

/-- The containers above a child. -/
def above (db : Database) (child : PlayedChild) : List Nat :=
  child.parentId.toList ++ (child.parentId.bind db.identityRows.parentOf).toList

theorem mem_above_of_share {service : MediaPersistenceService} {db : Database} {container : Nat}
    (h : service.share db container ≠ []) :
    ∃ child ∈ service.playedChildren db, container ∈ above db child := by
  obtain ⟨child, hchild⟩ := List.exists_mem_of_ne_nil _ h
  obtain ⟨hmem, hbelow⟩ := List.mem_filter.1 hchild
  refine ⟨child, hmem, ?_⟩
  simp only [below, Bool.or_eq_true, beq_iff_eq] at hbelow
  simp only [above, List.mem_append, Option.mem_toList]
  exact hbelow

/-- An episode of one show, watched once, in a library. -/
def watchedEpisode (library number : Nat) : LibraryScan where
  libraryId := library
  media := [⟨0, [], [.mapped {
    item := {
      externalId := toString number
      libraryExternalId := toString library
      kind := .episode
      title := toString number
      showExternalId := some "s"
      showTitle := some "S"
      seasonNumber := some 1
      episodeNumber := some number
      lastViewedAt := some 5
      viewCount := some 1
      completed := some true
      complete := by simp [MediaFields.Complete] }
    observedAt := 6
    retriedAt := 6 }]⟩]
  sweptAt := fun _ => 7
  flushedAt := 7
  history := []
  rebuiltAt := 8

namespace ScanProgress

/-- `LeavesOthers` and `SharesAgree` on the rows, where the library has a share of every container
that is done. -/
def Covers (service : MediaPersistenceService) (p : ScanProgress) (l : LibraryScan)
    (db : Database) : Prop :=
  (∀ m ∈ db.mediaItems.rows, db.ParentFits m.kind m.parentId) ∧
  (∀ s ∈ db.watchStates.rows, s.completed = decide (0 < s.viewCount)) ∧
  (∀ n ∈ p.synchronized, ∀ child ∈ (service.ofLibrary n).playedChildren db,
    ∀ container ∈ above db child,
    (service.ofLibrary l.libraryId).share db container ≠ []) ∧
  ∀ child ∈ (service.ofLibrary l.libraryId).playedChildren db, ∀ container ∈ above db child,
    derived ((service.ofLibrary l.libraryId).share db container) =
      derived (service.whole db container)

instance decidableCovers (service : MediaPersistenceService) (p : ScanProgress) (l : LibraryScan)
    (db : Database) :
    Decidable (p.Covers service l db) := by unfold Covers; infer_instance

theorem Covers.ok {service : MediaPersistenceService} {p : ScanProgress} {l : LibraryScan}
    (h : p.Covers service l (service.beforeRebuild l p.session).store) :
    p.LeavesOthers service l ∧ p.SharesAgree service l := by
  obtain ⟨hfits, hstates, hdone, hshares⟩ := h
  refine ⟨⟨fun i m hm => hfits m (Table.get?_eq_some.1 hm).1, fun k s hs => ?_, ?_⟩, ?_⟩
  · rw [WatchState.Agrees, hstates s (Table.get?_eq_some.1 hs).1, decide_eq_true_iff]
  · rintro container hnil ⟨n, hn, hshare⟩
    obtain ⟨child, hchild, habove⟩ := mem_above_of_share hshare
    exact absurd hnil (hdone n hn child hchild container habove)
  · intro container hshare
    obtain ⟨child, hchild, habove⟩ := mem_above_of_share hshare
    exact hshares child hchild container habove

end ScanProgress

theorem containers_aggregate_twoLibraries :
    (plainService 1).ContainersAggregate [10, 11]
        ((plainService 1).fullScan [watchedEpisode 10 1, watchedEpisode 11 2] ⟨.empty, []⟩).store ∧
      (plainService 1).containerState
        ((plainService 1).fullScan [watchedEpisode 10 1, watchedEpisode 11 2]
          ⟨.empty, []⟩).store 2 =
          some (true, 1, some 5) :=
  ⟨((plainService 1).containers_aggregate).1 ⟨.empty, []⟩ [watchedEpisode 10 1, watchedEpisode 11 2]
    ⟨ScanProgress.Covers.ok (by decide +kernel),
      ScanProgress.Covers.ok (by decide +kernel), trivial⟩ _
      (List.prefix_refl _), by decide +kernel⟩

/-- A season with one episode in each of two libraries; only the first is watched. -/
def sharedSeason : Database :=
  let watched : WatchState := ⟨3, 1, 1, some 5, some 5, true, none, 5, 5⟩
  { Database.empty with
    mediaItems := ⟨[{ id := 1, kind := .show }, { id := 2, kind := .season, parentId := some 1 },
      { id := 3, kind := .episode, parentId := some 2 },
        { id := 4, kind := .episode, parentId := some 2 }], by decide⟩
    sourceMediaRefs := ⟨[⟨1, 1, 10, 3, "3", none, none, 0, true, none, none, 0⟩,
      ⟨2, 1, 11, 4, "4", none, none, 0, true, none, none, 0⟩], by decide⟩
    watchStates := ⟨[watched], by decide⟩ }

theorem sharedSeason_layered : sharedSeason.Layered := by
  intro i m hm
  obtain ⟨hm, -⟩ := Table.get?_eq_some.1 hm
  have hall : ∀ m ∈ sharedSeason.mediaItems.rows,
      sharedSeason.ParentFits m.kind m.parentId := by decide
  exact hall m hm

/-- The library of the watched episode is rebuilt last and calls the season watched. -/
theorem shared_season_completed :
    ¬ ∀ (service : MediaPersistenceService) (db : Database), db.Layered → db.StatesAgree →
    ∀ libraries : List (Nat × Time),
      service.ContainersAggregate (libraries.map Prod.fst)
      (libraries.foldl service.rebuildLibrary db) := by
  intro h
  have hstates : sharedSeason.StatesAgree := by
    intro k s hs
    obtain ⟨hs, -⟩ := Table.get?_eq_some.1 hs
    have hall : ∀ s ∈ sharedSeason.watchStates.rows, s.completed = true ∧
        0 < s.viewCount := by decide
    exact .of_completed (hall s hs).1 (hall s hs).2
  have haggregate := h (plainService 1) sharedSeason sharedSeason_layered hstates [(11, 9), (10, 9)]
  have hkept := (@rebuilds_keep (plainService 1) sharedSeason
    [(11, 9), (10, 9)] sharedSeason_layered hstates).2.1
  have hstate := (containersAggregate_iff hkept).1 haggregate 2 ⟨10, by decide, by decide +kernel⟩
  exact absurd hstate (by decide +kernel)

end MediaPersistenceService

end Euvieouvi
