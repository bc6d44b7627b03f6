import Euvieouvi.Catalog.Forest
import Euvieouvi.Playback.Calls
import Euvieouvi.Scripts.Trakt
import Euvieouvi.Sync.Availability
import Euvieouvi.Webhooks.Completions

/-!
# History and state agree

Events and watch states are written by different calls and moved apart by merges. Every event has a
completed state of its item on its source, and a state is completed exactly when it counts views.
The derived states of containers may lose a completion, so events have to be of leaves: no source
uses an id both for a leaf and for a container.
-/

namespace Euvieouvi

open Database

/-- The flag and the count say the same. -/
def WatchState.Agrees (s : WatchState) : Prop := s.completed = true ↔ 0 < s.viewCount

theorem WatchState.Agrees.of_completed {s : WatchState} (hc : s.completed = true)
    (hv : 0 < s.viewCount) : s.Agrees := iff_of_true hc hv

theorem WatchState.Agrees.of_not_completed {s : WatchState} (hc : s.completed = false)
    (hv : s.viewCount = 0) : s.Agrees := by
  unfold Agrees
  simp [hc, hv]

theorem WatchState.Agrees.absorb {w l : WatchState} (hw : w.Agrees) (hl : l.Agrees) :
    (w.absorb l).Agrees := by
  show ((w.completed || l.completed) = true) ↔ 0 < max w.viewCount l.viewCount
  rw [Bool.or_eq_true, lt_max_iff]
  exact or_congr hw hl

namespace Database

def StatesAgree (db : Database) : Prop := ∀ k s, db.watchStates.get? k = some s → s.Agrees

namespace StatesAgree
variable {db db' : Database} {now : Time} {k : Nat × Nat} {f : Assignment WatchState.key}

theorem of_states (h : db.StatesAgree) (heq : db'.watchStates = db.watchStates) :
    db'.StatesAgree := by
  intro k s hs
  exact h k s (heq ▸ hs)

theorem insert (h : db.StatesAgree) {s : WatchState} (hs : s.Agrees) :
    (db.insertWatchState s).StatesAgree := by
  intro k s' hs'
  rw [watchStates_insertWatchState] at hs'
  rcases Table.mem_insert (Table.mem_of_get? hs') with hrow | rfl
  · exact h k s' (Table.get?_eq_some.2 ⟨hrow, Table.key_of_get? hs'⟩)
  · exact hs

theorem save (h : db.StatesAgree)
    (hf : ∀ s, db.watchStates.get? k = some s → s.Agrees → (f s).Agrees) :
    (db.saveWatchState now k f).StatesAgree := by
  intro k' s' hs'
  rw [get?_saveWatchState] at hs'
  obtain ⟨s, hs, rfl⟩ := Option.map_eq_some_iff.1 hs'
  split
  next hchanged =>
    have hk : k' = k := (Table.key_of_get? hs).symm.trans hchanged.1
    exact hf s (hk ▸ hs) (h k' s hs)
  next => exact h k' s hs

theorem put {new : WatchState} (h : db.StatesAgree) (hnew : (f new).Agrees)
    (hf : ∀ s, db.watchStates.get? k = some s → s.Agrees → (f s).Agrees) :
    (db.putWatchState now k new f).StatesAgree := by
  unfold putWatchState
  split
  · exact h.save hf
  · exact h.insert hnew

theorem foldl {α : Type} {g : Database → α → Database}
    (hg : ∀ db a, db.StatesAgree → (g db a).StatesAgree) (h : db.StatesAgree)
    (l : List α) : (l.foldl g db).StatesAgree := by
  induction l generalizing db with
  | nil => exact h
  | cons a l ih => exact ih (hg db a h)

end StatesAgree

end Database

/-! ### What the writers do to states -/

/-- The mappers count the views of what they call completed. -/
def MediaFields.Counted (item : MediaFields) : Prop :=
  item.completed = some true → 0 < item.viewCount.getD 0

namespace MediaPersistenceService
variable {service : MediaPersistenceService} {item : MediaFields} {event : ExternalWatchEvent}
  {origin : EventOrigin}
  {db db' : Database}

theorem saveState_agree {i : Nat} {new : WatchState} {f : Assignment WatchState.key}
    (h : db.StatesAgree) (hnew : (f new).Agrees)
    (hf : ∀ s : WatchState, s.Agrees → (f s).Agrees) :
    (service.saveState i new f db).StatesAgree := by
  unfold saveState
  split
  · exact h.save fun s _ => hf s
  · exact h.insert hnew

/-- `incoming_completed`. -/
theorem incomingCompleted_iff (hitem : item.Counted) :
    (item.completed.getD false || decide (0 < item.viewCount.getD 0)) = true ↔
    0 < item.viewCount.getD 0 := by
  rw [Bool.or_eq_true, decide_eq_true_eq]
  refine or_iff_right_of_imp fun hcompleted => hitem ?_
  rcases hc : item.completed with _ | c
  · rw [hc] at hcompleted; cases hcompleted
  · rw [hc] at hcompleted
    exact congrArg some hcompleted

theorem agrees_observeState (hitem : item.Counted) {observedAt : Time} {s : WatchState}
    (hs : s.Agrees) :
    (observeState item observedAt s).Agrees := by
  show ((s.completed || item.completed.getD false || decide (0 < item.viewCount.getD 0)) = true) ↔
    0 < max s.viewCount (item.viewCount.getD 0)
  rw [Bool.or_assoc, Bool.or_eq_true, lt_max_iff]
  exact or_congr hs (incomingCompleted_iff hitem)

theorem syncWatchState_agree (hitem : item.Counted) {i : Nat} {observedAt : Time}
    (h : db.StatesAgree) :
    (service.syncWatchState i item observedAt db).StatesAgree := by
  unfold syncWatchState
  split
  · have hnew : (service.newState i (item.viewCount.getD 0)
        (item.completed.getD false || decide (0 < item.viewCount.getD 0)) observedAt).Agrees :=
      incomingCompleted_iff hitem
    exact saveState_agree h (agrees_observeState hitem hnew) fun s hs =>
      agrees_observeState hitem hs
  · exact h

theorem agrees_completeState {count : Nat} (hcount : 0 < count) (s : WatchState) :
    (completeState count event s).Agrees :=
  .of_completed rfl (lt_max_of_lt_right hcount)

/-- The event that was just added counts. -/
theorem eventCount_pos {i : Nat} {id : Nat} (hc : event.completed = true)
    (hmem : service.newEvent id i event origin ∈ db.watchEvents.rows) :
    0 < service.eventCount db i event := by
  refine lt_max_of_lt_right (List.countP_pos_iff.2 ⟨_, hmem, ?_⟩)
  simp [newEvent, hc]

theorem recordEvent_agree (hc : event.completed = true) {i : Nat} (h : db.StatesAgree) :
    (service.recordEvent i event origin db).StatesAgree := by
  have hfree : db.watchEvents.get? (service.newEvent db.watchEvents.nextId i event origin).id =
      none := Table.get?_nextId _
  have hmem : service.newEvent db.watchEvents.nextId i event origin ∈
      (db.insertWatchEvent
        (service.newEvent db.watchEvents.nextId i event origin)).watchEvents.rows := by
    rw [watchEvents_insertWatchEvent, Table.rows_insert_of_get?_none hfree]
    exact List.mem_append_right _ List.mem_cons_self
  have hinserted :
      (db.insertWatchEvent (service.newEvent db.watchEvents.nextId i event origin)).StatesAgree :=
    h.of_states (insertWatchEvent_frame _ .watchStates (by decide))
  have happlied : (service.applyEventToWatchState i event
      (db.insertWatchEvent
        (service.newEvent db.watchEvents.nextId i event origin))).StatesAgree := by
    have hcount := eventCount_pos hc hmem
    exact saveState_agree hinserted (agrees_completeState hcount _) fun s _ =>
      agrees_completeState hcount s
  unfold recordEvent
  dsimp only
  split
  · exact happlied.of_states rfl
  · exact happlied

theorem setDerivedWatchState_agree {observedAt : Time} {group : Nat × List PlayedChild}
    (h : db.StatesAgree) :
    (service.setDerivedWatchState observedAt db group).StatesAgree := by
  have hderived : ∀ count last (s : WatchState), (deriveState count last observedAt s).Agrees := by
    intro count last s
    exact decide_eq_true_iff
  unfold setDerivedWatchState
  exact saveState_agree h (hderived _ _ _) fun s _ => hderived _ _ s

theorem rebuildContainerWatchStates_agree {observedAt : Time} (h : db.StatesAgree) :
    (service.rebuildContainerWatchStates observedAt db).StatesAgree :=
  h.foldl (fun _ _ h => setDerivedWatchState_agree h) _

end MediaPersistenceService

section Writers
variable {db db' : Database} {now : Time}

theorem EventWrite.agree {service : MediaPersistenceService} {event : ExternalWatchEvent}
    {origin : EventOrigin}
    (hw : EventWrite service event origin db db') (h : db.StatesAgree) : db'.StatesAgree := by
  cases hw with
  | refresh => exact h.of_states (updateWatchEvents_frame _ _ .watchStates (by decide))
  | record r hc => exact MediaPersistenceService.recordEvent_agree hc h

theorem persistAndEnqueueProgress_agree (py : PyLib) (p : ProgressUpdate) (h : db.StatesAgree) :
    (db.persistAndEnqueueProgress py p).StatesAgree := by
  have hassign : ∀ s : WatchState, s.Agrees → (p.assign s).Agrees := by
    intro s hs
    unfold ProgressUpdate.assign
    dsimp only
    split
    · exact hs
    next hc =>
      refine .of_not_completed rfl ?_
      have hviews : ¬ 0 < s.viewCount := fun hviews => hc (hs.2 hviews)
      show s.viewCount = 0
      omega
  unfold persistAndEnqueueProgress
  split
  next r _ =>
    have hput : (db.putWatchState p.now (r.mediaItemId, p.sourceId) (p.newState r.mediaItemId)
        ⟨p.assign, p.key_assign⟩).StatesAgree :=
      h.put (hassign _ (.of_not_completed rfl rfl)) fun s _ => hassign s
    dsimp only
    split
    exacts [hput, hput.of_states rfl]
  next => exact h.of_states rfl

theorem AsyncTaskExecutor.UpdateWrites.agree {u : WatchUpdate} (hw : UpdateWrites now u db db')
    (h : db.StatesAgree) : db'.StatesAgree := by
  have hassign : ∀ s : WatchState, s.completed = false → s.Agrees → (u.assign s).Agrees := by
    intro s hopen hs
    unfold WatchUpdate.assign
    dsimp only
    split
    · exact .of_completed rfl (lt_max_of_lt_right Nat.one_pos)
    · refine .of_not_completed rfl ?_
      have hviews : ¬ 0 < s.viewCount := fun hviews => absurd (hs.2 hviews) (by rw [hopen]; decide)
      show s.viewCount = 0
      omega
  induction hw with
  | refl => exact h
  | tail _ hw ih =>
    cases hw with
    | invalidate reference => exact ih.of_states (watchStates_saveSourceMediaRef now reference _ _)
    | put key hopen =>
      refine ih.put ?_ fun s hs => hassign s (hopen s hs)
      show (u.assign (u.newState now key)).Agrees
      cases hc : u.completed with
      | true =>
        unfold WatchUpdate.assign
        rw [if_pos hc]
        exact .of_completed rfl (lt_max_of_lt_right Nat.one_pos)
      | false => exact hassign _ hc (.of_not_completed hc (by simp [WatchUpdate.newState, hc]))

theorem recordSuccesses_agree (now : Time) (cs : List WatchSyncCandidate) (h : db.StatesAgree) :
    (db.recordSuccesses now cs).StatesAgree := by
  have hassign : ∀ (c : WatchSyncCandidate) (s : WatchState), s.Agrees →
      (c.assign now s).Agrees := by
    intro c s hs
    unfold WatchSyncCandidate.assign
    dsimp only
    split
    · exact .of_completed rfl (lt_max_of_lt_left Nat.one_pos)
    · split
      exacts [hs, hs]
  have hall : ∀ (cs : List WatchSyncCandidate) (s : WatchState), s.Agrees →
      (WatchSyncCandidate.assignAll now cs s).Agrees := by
    intro cs
    induction cs with
    | nil => exact fun _ hs => hs
    | cons c cs ih => exact fun s hs => ih _ (hassign c s hs)
  have hnew : ∀ (c : WatchSyncCandidate) (i : Nat), (c.newState now i).Agrees := by
    intro c i
    cases hc : c.completed with
    | true => exact .of_completed hc (by simp [WatchSyncCandidate.newState, hc])
    | false => exact .of_not_completed hc (by simp [WatchSyncCandidate.newState, hc])
  refine h.foldl (fun db k h => ?_) _
  unfold recordState
  split
  · exact h.insert (hall _ _ (hnew _ _))
  · exact h.save fun s _ => hall _ s

theorem MergeItem.agree {w l : Nat} (hm : MergeItem w l db db') (h : db.StatesAgree) :
    db'.StatesAgree := by
  rintro ⟨i, source⟩ s hs
  rw [hm.states] at hs
  split at hs
  · cases hs
  split at hs
  · cases hw : db.watchStates.get? (w, source) with
    | none =>
      cases hl : db.watchStates.get? (l, source) with
      | none => rw [hw, hl] at hs; cases hs
      | some lost => rw [hw, hl] at hs; cases hs; exact h _ lost hl
    | some kept =>
      cases hl : db.watchStates.get? (l, source) with
      | none => rw [hw, hl] at hs; cases hs; exact h _ _ hw
      | some lost => rw [hw, hl] at hs; cases hs; exact (h _ kept hw).absorb (h _ lost hl)
  · exact h _ s hs

end Writers

namespace Database
variable {db db' : Database} {leaf : Nat → String → Bool} {i source : Nat}

/-- The item is there, and it is no container. -/
def IsLeaf (db : Database) (i : Nat) : Prop :=
  ∃ k, db.identityRows.kindOf i = some k ∧ k.isContainer = false

/-- A catalog whose history and states agree. -/
structure History (leaf : Nat → String → Bool) (db : Database) : Prop extends db.Forest leaf where
  states : db.StatesAgree
  played : ∀ e ∈ db.watchEvents.rows, db.PlayedOn e.mediaItemId e.sourceId
  onLeaves : ∀ e ∈ db.watchEvents.rows, db.IsLeaf e.mediaItemId

theorem PlayedOn.later {σ : Nat → Nat} (h : db.PlayedOn i source) (hk : KnowledgeKept σ db db') :
    db'.PlayedOn (σ i) source := by
  obtain ⟨s, hs, hc⟩ := h
  obtain ⟨s', hs', hle⟩ := hk i source s hs
  exact ⟨s', hs', fun ht => hle.completed (hc ht)⟩

theorem IsLeaf.of_itemsKept (h : db.IsLeaf i) (hk : ItemsKept db db') : db'.IsLeaf i := by
  obtain ⟨k, hkind, hleaf⟩ := h
  exact ⟨k, hk.kindOf hkind, hleaf⟩

theorem IsLeaf.of_frame {written : List TableName} (h : db.IsLeaf i) (hframe : Frame written db db')
    (hw : .mediaItems ∉ written) :
    db'.IsLeaf i := h.of_itemsKept (.of_frame hframe hw)

/-- A step after which every event was there, up to what it says of its playback, or belongs to a
completed state of a leaf. -/
theorem History.step (h : History leaf db) (hforest : db'.Forest leaf) (hstates : db'.StatesAgree)
    (hknowledge : KnowledgeKept id db db') (hleaves : ∀ i, db.IsLeaf i → db'.IsLeaf i)
    (hevents : ∀ e' ∈ db'.watchEvents.rows,
      (∃ e ∈ db.watchEvents.rows, e.mediaItemId = e'.mediaItemId ∧ e.sourceId = e'.sourceId) ∨
      db'.PlayedOn e'.mediaItemId e'.sourceId ∧ db'.IsLeaf e'.mediaItemId) : History leaf db' := by
  refine ⟨hforest, hstates, fun e' he' => ?_, fun e' he' => ?_⟩
  · rcases hevents e' he' with ⟨e, he, hi, hs⟩ | hnew
    · rw [← hi, ← hs]
      exact (h.played e he).later hknowledge
    · exact hnew.1
  · rcases hevents e' he' with ⟨e, he, hi, -⟩ | hnew
    · rw [← hi]
      exact hleaves _ (h.onLeaves e he)
    · exact hnew.2

/-- A step that leaves the catalog and the events alone. -/
theorem History.of_frame {written : List TableName} (h : History leaf db)
    (hframe : Frame written db db')
    (hw : .mediaItems ∉ written ∧ .sourceMediaRefs ∉ written ∧ .watchEvents ∉ written)
    (hstates : db'.StatesAgree) (hknowledge : KnowledgeKept id db db') : History leaf db' := by
  have hevents : db'.watchEvents = db.watchEvents := hframe .watchEvents hw.2.2
  refine h.step (h.toForest.of_frame hframe hw.1 hw.2.1) hstates hknowledge
    (fun i hi => hi.of_frame hframe hw.1) fun e' he' => ?_
  exact .inl ⟨e', hevents ▸ he', rfl, rfl⟩

section Persist
variable {service : MediaPersistenceService} {item : MediaFields} {event : ExternalWatchEvent}
  {origin : EventOrigin}

theorem History.eventWrite (h : History leaf db) (hw : EventWrite service event origin db db')
    (hleaf : leaf service.sourceId event.mediaExternalId = true) : History leaf db' := by
  refine h.step (h.toForest.of_frame hw.frame (by decide) (by decide))
    (hw.agree h.states) hw.knowledge
    (fun i hi => hi.of_frame hw.frame (by decide)) fun e' he' => ?_
  have hframe := hw.frame
  cases hw with
  | refresh existing r =>
    rw [MediaPersistenceService.refreshStored, saveWatchEvent, watchEvents_updateWatchEvents] at he'
    obtain ⟨e, he, rfl⟩ := Table.mem_update.1 he'
    refine .inl ⟨e, he, ?_⟩
    split
    exacts [⟨rfl, rfl⟩, ⟨rfl, rfl⟩]
  | record r hc hr =>
    rcases MediaPersistenceService.mem_recordEvent.1 he' with he | rfl
    · exact .inl ⟨e', he, rfl, rfl⟩
    · obtain ⟨hrow, hsource, hid⟩ := mem_of_byExternalIdentity hr
      obtain ⟨k, hk, hapart⟩ := h.apart r hrow
      rw [hsource, hid, hleaf] at hapart
      have hitem : db.IsLeaf r.mediaItemId := ⟨k, hk, hapart⟩
      exact .inr ⟨MediaPersistenceService.playedOn_recordEvent, hitem.of_frame hframe (by decide)⟩

/-- A leaf that is persisted again stays one. -/
theorem IsLeaf.catalogWrite (h : db.IsLeaf i) (hw : CatalogWrite service item db db')
    (hitem : item.kind.isContainer = false) : db'.IsLeaf i := by
  cases hw with
  | hierarchy hw => exact h.of_itemsKept hw.itemsKept
  | create m => exact h.of_itemsKept (.insert db m)
  | update j parent =>
    obtain ⟨k, hk, hleaf⟩ := h
    obtain ⟨m, hm, rfl⟩ := Option.map_eq_some_iff.1 hk
    obtain ⟨g, hget, hg⟩ := db.saveMediaItem_row service.now j i
      ⟨MediaPersistenceService.applyMedia item parent, fun _ => rfl⟩
    refine ⟨(g m).kind, kindOf_of_get? (hget.trans (congrArg _ hm)), ?_⟩
    rcases hg m with heq | ⟨-, heq⟩ <;> rw [heq]
    exacts [hleaf, hitem]
  | refer => exact h.of_frame (insertSourceMediaRef_frame _) (by decide)
  | observe => exact h.of_frame (updateSourceMediaRefs_frame _ _) (by decide)

theorem History.mediaPersisted (h : History leaf db) (hp : service.MediaPersisted item db i db')
    (hitem : item.Leaf leaf service.sourceId) (hcounted : item.Counted) : History leaf db' := by
  obtain ⟨mid, hcatalog, hplayback⟩ := hp.writes
  have hframe := CatalogWrites.frame hcatalog
  have hevents : mid.watchEvents = db.watchEvents := hframe .watchEvents (by decide)
  have hstates : mid.watchStates = db.watchStates := hframe .watchStates (by decide)
  have hleaves : ∀ j, db.IsLeaf j → mid.IsLeaf j := by
    intro j hj
    clear hplayback hframe hevents hstates
    induction hcatalog with
    | refl => exact hj
    | tail _ hw ih => exact ih.catalogWrite hw hitem.kind
  have hmid : History leaf mid := h.step (CatalogWrites.forest hcatalog hitem h.toForest)
    (h.states.of_states hstates) (.of_states hstates)
    hleaves fun e' he' => .inl ⟨e', hevents ▸ he', rfl, rfl⟩
  clear hp hcatalog hframe hevents hstates hleaves
  induction hplayback with
  | refl => exact hmid
  | tail _ hw ih =>
    have hknowledge := hw.knowledge
    cases hw with
    | observe r observedAt =>
      exact ih.of_frame (service.syncWatchState_frame _ _ _) (by decide)
        (MediaPersistenceService.syncWatchState_agree hcounted ih.states) hknowledge
    | event event origin hid hw => exact ih.eventWrite hw (by rw [hid]; exact hitem.id)

end Persist

section Merges
variable {py : PyLib} {log : List MergeStep}

theorem History.merge {w l : Nat} (h : History leaf db) (hm : MergeItem w l db db') (hne : w ≠ l)
    (hkinds : db.SameKind w l) (hforest : db'.Forest leaf) : History leaf db' := by
  have hknowledge := hm.knowledge hne
  have hrow : ∀ e' ∈ db'.watchEvents.rows, ∃ e ∈ db.watchEvents.rows,
      e'.mediaItemId = mergeInto w l e.mediaItemId ∧ e'.sourceId = e.sourceId := by
    intro e' he'
    rw [hm.events] at he'
    obtain ⟨e, he, rfl⟩ := Table.mem_update.1 he'
    refine ⟨e, he, ?_⟩
    unfold mergeInto
    by_cases hl : e.mediaItemId = l
    · simp [hl]
    · simp [hl]
  refine ⟨hforest, hm.agree h.states, fun e' he' => ?_, fun e' he' => ?_⟩
  · obtain ⟨e, he, hi, hs⟩ := hrow e' he'
    rw [hi, hs]
    exact (h.played e he).later hknowledge
  · obtain ⟨e, he, hi, -⟩ := hrow e' he'
    obtain ⟨k, hk, hleaf⟩ := h.onLeaves e he
    rw [hi]
    by_cases hl : e.mediaItemId = l
    · obtain ⟨kw, hkw, hsame⟩ := hkinds
      obtain rfl := hsame k (hl ▸ hk)
      rw [hl, mergeInto_loser]
      exact ⟨k, by rw [hm.kindOf_eq hne]; exact hkw, hleaf⟩
    · rw [mergeInto_of_ne hl]
      exact ⟨k, by rw [hm.kindOf_eq hl]; exact hk, hleaf⟩

theorem History.move {parent j : Nat} (h : History leaf db) (hm : MoveItem parent j db db')
    (hforest : db'.Forest leaf) : History leaf db' := by
  have hstates : db'.watchStates = db.watchStates := hm.frame .watchStates (by decide)
  have hevents : db'.watchEvents = db.watchEvents := hm.frame .watchEvents (by decide)
  refine h.step hforest (h.states.of_states hstates) (.of_states hstates) (fun i hi => ?_)
    fun e' he' => .inl ⟨e', hevents ▸ he', rfl, rfl⟩
  obtain ⟨k, hk, hleaf⟩ := hi
  exact ⟨k, by rw [hm.kindOf_eq]; exact hk, hleaf⟩

theorem History.reconcileSteps {G : Prop} (h : History leaf db)
    (hs : ReconcileSteps py True G db log db') : History leaf db' := by
  induction hs with
  | refl => exact h
  | tail hbefore hstep ih =>
    have hforest := (hbefore.tail hstep).forest trivial h.toForest
    cases hstep with
    | merge now step hne _ hkinds =>
      exact ih.merge (step.before.mergeItem_spec now hne) hne (hkinds trivial) hforest
    | move now parent i => exact ih.move (Database.saveParent_spec _ now parent i) hforest
    | recover now s s' m _ hs =>
      have hitems := recoverItem_itemsKept hs
      have hsame : s'.db.watchStates = s.db.watchStates ∧ s'.db.watchEvents = s.db.watchEvents := by
        rcases recoverItem_spec hs with heq | ⟨metadata, -, -, hids⟩
        · rw [heq]; exact ⟨rfl, rfl⟩
        · exact ⟨(hids.frame .watchStates (by decide)).trans
            (updateMediaItems_frame _ _ .watchStates (by decide)),
            (hids.frame .watchEvents (by decide)).trans
              (updateMediaItems_frame _ _ .watchEvents (by decide))⟩
      exact ih.step hforest (ih.states.of_states hsame.1) (.of_states hsame.1)
        (fun j hj => hj.of_itemsKept hitems)
        fun e' he' => .inl ⟨e', hsame.2 ▸ he', rfl, rfl⟩
    | stale => exact ⟨hforest, ih.states, ih.played, ih.onLeaves⟩

end Merges

section Containers
variable {service : MediaPersistenceService} {observedAt : Time}

theorem get?_setDerivedWatchState {group : Nat × List MediaPersistenceService.PlayedChild}
    (hi : i ≠ group.1) :
    (service.setDerivedWatchState observedAt db group).watchStates.get? (i, source) =
      db.watchStates.get? (i, source) := by
  have hne : (i, source) ≠ (group.1, service.sourceId) := fun h => hi (congrArg Prod.fst h)
  unfold MediaPersistenceService.setDerivedWatchState MediaPersistenceService.saveState
  dsimp only
  split
  · rw [get?_saveWatchState]
    cases hs : db.watchStates.get? (i, source) with
    | none => rfl
    | some s =>
      have hkey : s.key = (i, source) := Table.key_of_get? hs
      rw [Option.map_some, if_neg (fun h => hne (hkey.symm.trans h.1))]
  · rw [watchStates_insertWatchState, Table.get?_insert_ne]
    exact hne.symm

/-- Only parents are written. -/
theorem get?_rebuildContainerWatchStates (hi : ∀ j, db.identityRows.parentOf j ≠ some i) :
    (service.rebuildContainerWatchStates observedAt db).watchStates.get? (i, source) =
      db.watchStates.get? (i, source) := by
  have hloop : ∀ (groups : List (Nat × List MediaPersistenceService.PlayedChild)) (d : Database),
      (∀ g ∈ groups, g.1 ≠ i) →
      (groups.foldl (service.setDerivedWatchState observedAt) d).watchStates.get? (i, source) =
        d.watchStates.get? (i, source) := by
    intro groups
    induction groups with
    | nil => exact fun _ _ => rfl
    | cons g groups ih =>
      intro d hne
      rw [List.foldl_cons, ih _ fun g' hg' => hne g' (List.mem_cons_of_mem _ hg')]
      exact get?_setDerivedWatchState (hne g List.mem_cons_self).symm
  have hchild : ∀ child ∈ service.playedChildren db, child.parentId ≠ some i := by
    intro child hchild
    obtain ⟨m, hm, rfl⟩ := List.mem_map.1 hchild
    have hparent : db.identityRows.parentOf m.id = m.parentId := by
      have hrow : db.mediaItems.get? m.id = some m :=
        Table.get?_eq_some.2 ⟨(List.mem_filter.1 hm).1, rfl⟩
      exact (congrArg (·.bind MediaItem.parentId) hrow : _)
    intro hp
    refine hi m.id (hparent.trans ?_)
    split at hp <;> exact hp
  have hkeys : ∀ {rows : List (Nat × MediaPersistenceService.PlayedChild)}
      {g : Nat × List MediaPersistenceService.PlayedChild},
      g ∈ (groupBy Prod.fst rows).map (fun group => (group.1, group.2.map Prod.snd)) →
        ∃ row ∈ rows, row.1 = g.1 := by
    intro rows g hg
    obtain ⟨⟨k, l⟩, hgroup, rfl⟩ := List.mem_map.1 hg
    exact List.mem_map.1 (mem_groupBy hgroup).2
  refine hloop _ _ fun g hg => ?_
  rcases List.mem_append.1 hg with hg | hg
  · obtain ⟨row, hrow, hk⟩ := hkeys hg
    obtain ⟨child, hmem, hpair⟩ := List.mem_filterMap.1 hrow
    obtain ⟨p, hp, rfl⟩ := Option.map_eq_some_iff.1 hpair
    intro heq
    exact hchild child hmem (hp.trans (congrArg some (hk.trans heq)))
  · obtain ⟨row, hrow, hk⟩ := hkeys hg
    obtain ⟨group, -, hrow⟩ := List.mem_flatMap.1 hrow
    split at hrow
    next top htop =>
      obtain ⟨child, -, rfl⟩ := List.mem_map.1 hrow
      intro heq
      exact hi group.1 (htop.trans (congrArg some (hk.trans heq)))
    next => cases hrow

theorem History.rebuild (h : History leaf db) :
    History leaf (service.rebuildContainerWatchStates observedAt db) := by
  have hframe := service.rebuildContainerWatchStates_frame observedAt db
  have hevents : (service.rebuildContainerWatchStates observedAt db).watchEvents = db.watchEvents :=
    hframe .watchEvents (by decide)
  refine ⟨h.toForest.of_frame hframe (by decide) (by decide),
    MediaPersistenceService.rebuildContainerWatchStates_agree h.states,
    fun e he => ?_, fun e he => ?_⟩
  · rw [hevents] at he
    obtain ⟨k, hk, hleaf⟩ := h.onLeaves e he
    obtain ⟨s, hs, hc⟩ := h.played e he
    exact ⟨s,
      (get?_rebuildContainerWatchStates fun j => h.layered.leaf_childless hk hleaf).trans hs, hc⟩
  · rw [hevents] at he
    exact (h.onLeaves e he).of_frame hframe (by decide)

end Containers

end Database

/-! ### Imports -/

namespace TraktImport
variable {trakt : TraktImport} {db db' : Database} {item : Nat}

theorem get?_refreshWatchState_of_ne {k : Nat × Nat} (hk : k ≠ (item, trakt.sourceId)) :
    (trakt.refreshWatchState db item).watchStates.get? k = db.watchStates.get? k := by
  unfold refreshWatchState
  dsimp only
  split
  · rw [watchStates_insertWatchState, Table.get?_insert_ne]
    exact hk.symm
  · rw [watchStates_updateWatchStates, Table.get?_update]
    cases hs : db.watchStates.get? k with
    | none => rfl
    | some s =>
      have hkey : s.key = k := Table.key_of_get? hs
      rw [Option.map_some, if_neg (by rw [hkey]; simpa using hk)]

/-- The state of the item counts its events. -/
theorem get?_refreshWatchState_self :
    ∃ s, (trakt.refreshWatchState db item).watchStates.get? (item, trakt.sourceId) = some s ∧
    s.completed = true ∧
    (db.watchEvents.rows.filter fun e => e.mediaItemId == item &&
      e.sourceId == trakt.sourceId).length ≤ s.viewCount ∧
    ∀ old, db.watchStates.get? (item, trakt.sourceId) = some old → old.AtMost s := by
  unfold refreshWatchState
  dsimp only
  split
  next hnone =>
    rw [watchStates_insertWatchState]
    refine ⟨_, Table.get?_insert_self hnone, rfl, le_rfl, fun old hold => ?_⟩
    rw [hnone] at hold
    cases hold
  next s hs =>
    have hkey : s.key = (item, trakt.sourceId) := Table.key_of_get? hs
    rw [watchStates_updateWatchStates, Table.get?_update, hs, Option.map_some,
      if_pos (by simpa using hkey)]
    refine ⟨_, rfl, rfl, le_max_right _ _, fun old hold => ?_⟩
    obtain rfl := Option.some_inj.1 hold
    exact ⟨fun _ => rfl, le_max_left _ _, .refl _⟩

theorem refreshWatchState_knowledge : KnowledgeKept id db (trakt.refreshWatchState db item) := by
  intro i source s hs
  by_cases hk : (i, source) = (item, trakt.sourceId)
  · obtain ⟨s', hs', -, -, hle⟩ := @get?_refreshWatchState_self trakt db item
    rw [id_eq, hk]
    exact ⟨s', hs', hle s (hk ▸ hs)⟩
  · exact ⟨s, (get?_refreshWatchState_of_ne hk).trans hs, .refl s⟩

theorem refreshWatchState_frame :
    Frame [.watchStates, .dirtyItems] db (trakt.refreshWatchState db item) := by
  unfold refreshWatchState
  dsimp only
  split
  · exact insertWatchState_frame _
  · exact updateWatchStates_frame _ _

theorem refreshWatchState_agree (h : db.StatesAgree)
    (hev : ∃ e ∈ db.watchEvents.rows, e.mediaItemId = item ∧ e.sourceId = trakt.sourceId) :
    (trakt.refreshWatchState db item).StatesAgree := by
  intro k s hs
  by_cases hk : k = (item, trakt.sourceId)
  · obtain ⟨s', hs', hc, hcount, -⟩ := @get?_refreshWatchState_self trakt db item
    obtain rfl : s = s' := Option.some_inj.1 (hs.symm.trans (hk ▸ hs'))
    obtain ⟨e, he, hi, hsource⟩ := hev
    have hmem : e ∈ db.watchEvents.rows.filter fun e => e.mediaItemId == item &&
        e.sourceId == trakt.sourceId :=
      List.mem_filter.2 ⟨he, by simp [hi, hsource]⟩
    have := List.length_pos_of_mem hmem
    exact .of_completed hc (by omega)
  · exact h k s ((get?_refreshWatchState_of_ne hk).symm.trans hs)

/-- The states of all the items. -/
theorem refreshWatchStates (items : List Nat) (h : db.StatesAgree)
    (hev : ∀ i ∈ items, ∃ e ∈ db.watchEvents.rows, e.mediaItemId = i ∧
      e.sourceId = trakt.sourceId) :
    let refreshed := items.foldl trakt.refreshWatchState db
    Frame [.watchStates, .dirtyItems] db refreshed ∧ refreshed.StatesAgree ∧
      KnowledgeKept id db refreshed ∧
      ∀ i ∈ items, refreshed.PlayedOn i trakt.sourceId := by
  induction items generalizing db with
  | nil => exact ⟨.refl db, h, .refl db, fun i hi => by cases hi⟩
  | cons item items ih =>
    have hframe : Frame [.watchStates, .dirtyItems] db (trakt.refreshWatchState db item) :=
      refreshWatchState_frame
    have hevents : (trakt.refreshWatchState db item).watchEvents = db.watchEvents :=
      hframe .watchEvents (by decide)
    have hrest := ih (refreshWatchState_agree h (hev item List.mem_cons_self)) fun i hi => by
      rw [hevents]; exact hev i (List.mem_cons_of_mem _ hi)
    obtain ⟨hframe', hagree, hknowledge, hplayed⟩ := hrest
    refine ⟨hframe.trans hframe', hagree, refreshWatchState_knowledge.trans hknowledge,
      fun i hi => ?_⟩
    rcases List.mem_cons.1 hi with rfl | hi
    · obtain ⟨s, hs, hc, -, -⟩ := @get?_refreshWatchState_self trakt db i
      have hself : (trakt.refreshWatchState db i).PlayedOn i trakt.sourceId := ⟨s, hs, fun _ => hc⟩
      exact hself.later hknowledge
    · exact hplayed i hi

/-- Events were added, for leaves that are touched. -/
structure Imported (trakt : TraktImport) (db : Database) (s : Database × List Nat) : Prop where
  frame : Frame [.watchEvents, .dirtyItems] db s.1
  rows : ∀ e ∈ s.1.watchEvents.rows, e ∈ db.watchEvents.rows ∨ e.mediaItemId ∈ s.2 ∧
    e.sourceId = trakt.sourceId
  touched : ∀ i ∈ s.2,
    (∃ e ∈ s.1.watchEvents.rows, e.mediaItemId = i ∧ e.sourceId = trakt.sourceId) ∧ db.IsLeaf i

theorem Imported.step {s s' : Database × List Nat} {event : HistoryEvent × Nat}
    (h : Imported trakt db s) (hleaf : db.IsLeaf event.2)
    (hs : trakt.importEvent s event = some s') : Imported trakt db s' := by
  unfold importEvent at hs
  split at hs
  · cases hs; exact h
  split at hs
  · cases hs
  cases hs
  have hfree : s.1.watchEvents.get? (trakt.newEvent s.1.watchEvents.nextId event.1 event.2).id =
      none := Table.get?_nextId _
  have hrows : ∀ e, e ∈ (s.1.insertWatchEvent
      (trakt.newEvent s.1.watchEvents.nextId event.1 event.2)).watchEvents.rows ↔
      e ∈ s.1.watchEvents.rows ∨ e = trakt.newEvent s.1.watchEvents.nextId event.1 event.2 := by
    intro e
    rw [watchEvents_insertWatchEvent, Table.rows_insert_of_get?_none hfree, List.mem_append,
      List.mem_singleton]
  refine ⟨h.frame.trans (insertWatchEvent_frame _), fun e he => ?_, fun i hi => ?_⟩
  · rcases (hrows e).1 he with he | rfl
    · rcases h.rows e he with he | ⟨hi, hsource⟩
      exacts [.inl he, .inr ⟨List.mem_cons_of_mem _ hi, hsource⟩]
    · exact .inr ⟨List.mem_cons_self, rfl⟩
  · rcases List.mem_cons.1 hi with rfl | hi
    · exact ⟨⟨_, (hrows _).2 (.inr rfl), rfl, rfl⟩, hleaf⟩
    · obtain ⟨⟨e, he, hitem⟩, hleaf'⟩ := h.touched i hi
      exact ⟨⟨e, (hrows e).2 (.inl he), hitem⟩, hleaf'⟩

theorem Imported.foldlM {events : List (HistoryEvent × Nat)} {s s' : Database × List Nat}
    (h : Imported trakt db s)
    (hleaves : ∀ x ∈ events, db.IsLeaf x.2) (hs : events.foldlM trakt.importEvent s = some s') :
    Imported trakt db s' := by
  induction events generalizing s with
  | nil => cases hs; exact h
  | cons event events ih =>
    obtain ⟨mid, hmid, hs⟩ := Option.bind_eq_some_iff.1 hs
    exact ih (h.step (hleaves event List.mem_cons_self) hmid)
      (fun x hx => hleaves x (List.mem_cons_of_mem _ hx)) hs

theorem importEvents_history {leaf : Nat → String → Bool} {events : List (HistoryEvent × Nat)}
    (h : History leaf db)
    (hleaves : ∀ x ∈ events, db.IsLeaf x.2) : History leaf (trakt.importEvents events db) := by
  unfold importEvents
  split
  next => exact h
  next imported touched hs =>
    have hstart : Imported trakt db (db, []) :=
      ⟨.refl db, fun e he => .inl he, fun i hi => by cases hi⟩
    have himported := hstart.foldlM hleaves hs
    have hstates : imported.watchStates = db.watchStates := himported.frame .watchStates (by decide)
    have hmem : ∀ i, i ∈ touched.dedup.mergeSort (· ≤ ·) ↔ i ∈ touched :=
      fun i => List.mem_mergeSort.trans List.mem_dedup
    obtain ⟨hframe, hagree, hknowledge, hplayed⟩ :=
      @refreshWatchStates trakt imported (touched.dedup.mergeSort (· ≤ ·))
      (h.states.of_states hstates) fun i hi => (himported.touched i ((hmem i).1 hi)).1
    dsimp only at hframe hagree hknowledge hplayed ⊢
    generalize (touched.dedup.mergeSort (· ≤ ·)).foldl trakt.refreshWatchState imported =
      refreshed at hframe hagree hknowledge hplayed ⊢
    have hall : Frame [.watchEvents, .watchStates, .dirtyItems] db refreshed :=
      (himported.frame.mono (by decide)).trans (hframe.mono (by decide))
    have hevents : refreshed.watchEvents = imported.watchEvents := hframe .watchEvents (by decide)
    have hrefreshed : History leaf refreshed := by
      refine h.step (h.toForest.of_frame hall (by decide) (by decide)) hagree
        ((KnowledgeKept.of_states hstates).trans hknowledge)
        (fun i hi => hi.of_frame hall (by decide)) fun e' he' => ?_
      rw [hevents] at he'
      rcases himported.rows e' he' with he | ⟨hi, hsource⟩
      · exact .inl ⟨e', he, rfl, rfl⟩
      · refine .inr ⟨?_, (himported.touched _ hi).2.of_frame hall (by decide)⟩
        rw [hsource]
        exact hplayed _ ((hmem _).2 hi)
    split
    · exact hrefreshed
    · exact ⟨⟨hrefreshed.layered, hrefreshed.apart⟩, hrefreshed.states, hrefreshed.played,
        hrefreshed.onLeaves⟩

end TraktImport

/-! ### Runs -/

/-- The calls that write history or states. -/
inductive HistoryCall
  | playback (call : PlaybackCall)
  | rebuild (service : MediaPersistenceService) (observedAt : Time)
  | importTrakt (trakt : TraktImport) (events : List (HistoryEvent × Nat))

namespace HistoryCall
variable {db : Database} {leaf : Nat → String → Bool}

def apply (db : Database) : HistoryCall → Database
  | playback call => call.apply db
  | rebuild service observedAt => service.rebuildContainerWatchStates observedAt db
  | importTrakt trakt events => trakt.importEvents events db

/-- What a server gives: an item is a leaf below containers, whose views are counted, and an event
is one of a leaf. An event of the import is matched to an item of its kind. -/
def Proper (leaf : Nat → String → Bool) (db : Database) : HistoryCall → Prop
  | playback (.persistMedia service _ item _ _) => item.Leaf leaf service.sourceId ∧ item.Counted
  | playback (.persistEvent service _ event _) => leaf service.sourceId event.mediaExternalId = true
  | playback (.watchUpdate _ inputs u) =>
    ∀ probe found, inputs.getMediaItem u.externalId probe = .ok found →
      found.Leaf leaf u.sourceId ∧ found.Counted
  | importTrakt _ events => ∀ x ∈ events, db.IsLeaf x.2
  | _ => True

theorem history_updateWrites {now : Time} {u : WatchUpdate} {db' : Database}
    (hw : AsyncTaskExecutor.UpdateWrites now u db db')
    (h : History leaf db) : History leaf db' := by
  induction hw with
  | refl => exact h
  | tail hbefore hw ih =>
    have hagree := AsyncTaskExecutor.UpdateWrites.agree (Relation.ReflTransGen.single hw) ih.states
    have hknowledge := hw.knowledge
    cases hw with
    | invalidate reference =>
      have hframe : ∀ d : Database, Frame [.sourceMediaRefs] d (d.saveSourceMediaRef now reference
          ⟨fun r => { r with available := false, unavailableSince := some now }, fun _ => rfl⟩) :=
        fun d => d.saveSourceMediaRef_frame now reference _
      have hforest : ∀ d : Database, d.Forest leaf → (d.saveSourceMediaRef now reference
          ⟨fun r => { r with available := false, unavailableSince := some now }, fun _ =>
            rfl⟩).Forest leaf :=
        fun d hd => hd.save_reference reference _ fun _ => ⟨rfl, rfl, rfl⟩
      refine ih.step (hforest _ ih.toForest) hagree hknowledge
        (fun i hi => hi.of_frame (hframe _) (by decide)) fun e' he' => ?_
      have hevents : ∀ d : Database, (d.saveSourceMediaRef now reference
          ⟨fun r => { r with available := false, unavailableSince := some now }, fun _ =>
            rfl⟩).watchEvents = d.watchEvents :=
        fun d => hframe d .watchEvents (by decide)
      rw [hevents] at he'
      exact .inl ⟨e', he', rfl, rfl⟩
    | put => exact ih.of_frame (putWatchState_frame _ _ _ _ _) (by decide) hagree hknowledge

theorem history_playback (h : History leaf db) (call : PlaybackCall)
    (hp : (playback call).Proper leaf db) :
    History leaf (call.apply db) := by
  have hknowledge := PlaybackCall.knowledge h.layered.rooted call
  cases call with
  | persistMedia service cache item hleaf observedAt =>
    rcases PlaybackCall.persistMedia_commit service cache db item hleaf
      observedAt with heq | ⟨i, hpersisted⟩
    · show History leaf ((service.persistMedia item observedAt).commit cache db)
      rw [heq]; exact h
    · exact h.mediaPersisted hpersisted hp.1 hp.2
  | persistEvent service cache event origin =>
    rcases PlaybackCall.persistEvent_commit service cache db event origin with heq | hw
    · show History leaf ((service.persistEvent event origin).commit cache db)
      rw [heq]; exact h
    · exact h.eventWrite hw hp
  | progress py p =>
    exact h.of_frame (PlaybackCall.progress_frame py p db) (by decide)
      (persistAndEnqueueProgress_agree py p h.states) hknowledge
  | watchUpdate executor inputs u =>
    obtain ⟨recovered, hrecovered, hwrites⟩ := executor.applyWatchUpdate_writes inputs u db
    refine history_updateWrites hwrites ?_
    rcases hrecovered.persisted with rfl | ⟨service, found, probe, library, i, hfound,
      hsource, hpersisted⟩
    · exact h
    · obtain ⟨hleaf, hcounted⟩ := hp probe found hfound
      exact h.mediaPersisted hpersisted
        ⟨hleaf.kind, hsource ▸ hleaf.id, hsource ▸ hleaf.containers⟩ hcounted
  | recordSuccesses now cs =>
    exact h.of_frame (recordSuccesses_frame now cs db) (by decide)
      (recordSuccesses_agree now cs h.states) hknowledge
  | reconcile py now call =>
    have hsteps := call.steps (L := True) (G := False) py now h.layered.rooted (fun _ => h.layered)
      fun h => h.elim
    exact h.reconcileSteps hsteps
  | elsewhere => exact ⟨⟨h.layered, h.apart⟩, h.states, h.played, h.onLeaves⟩

theorem history_step (h : History leaf db) (call : HistoryCall) (hp : call.Proper leaf db) :
    History leaf (call.apply db) := by
  cases call with
  | playback call => exact history_playback h call hp
  | rebuild => exact h.rebuild
  | importTrakt trakt events => exact TraktImport.importEvents_history h hp

theorem history_empty : History leaf Database.empty where
  layered i m hm := by cases hm
  apart r hr := by cases hr
  states k s hs := by cases hs
  played e he := by cases he
  onLeaves e he := by cases he

end HistoryCall

/-- History and state agree after every run: a completed event has a completed state, and a state is
completed exactly when it counts views. -/
theorem history_and_state_agree (leaf : Nat → String → Bool) (calls : List HistoryCall)
    (h : Along HistoryCall.apply (HistoryCall.Proper leaf) .empty calls) :
    (∀ e ∈ (calls.foldl HistoryCall.apply .empty).watchEvents.rows, e.completed = true →
      ∃ s, (calls.foldl HistoryCall.apply .empty).watchStates.get? (e.mediaItemId, e.sourceId) =
        some s ∧ s.completed = true) ∧
    ∀ k s, (calls.foldl HistoryCall.apply .empty).watchStates.get? k = some s →
    (s.completed = true ↔ 0 < s.viewCount) := by
  have hhistory := h.invariant (I := History leaf)
    (fun db call hdb hp => HistoryCall.history_step hdb call hp) HistoryCall.history_empty
  refine ⟨fun e he _ => ?_, hhistory.states⟩
  obtain ⟨s, hs, hc⟩ := hhistory.played e he
  exact ⟨s, hs, hc trivial⟩

section Example

def playedTrack : ExternalMediaItem where
  externalId := "t"
  libraryExternalId := "1"
  kind := .track
  title := "a"
  artistExternalId := some "x"
  artistTitle := some "b"
  albumExternalId := some "y"
  albumTitle := some "c"
  complete := by simp [MediaFields.Complete]

def playEvent (externalId : String) : ExternalWatchEvent where
  mediaExternalId := externalId
  libraryExternalId := "1"
  watchedAt := 0
  completed := true

/-- A track is persisted, something is played, and the states of the containers are derived. -/
def playedThenDerived (externalId : String) : List HistoryCall :=
  [.playback (.persistMedia (plainService 1) [] playedTrack rfl 0),
    .playback (.persistEvent (plainService 1) [] (playEvent externalId) .synchronization),
    .rebuild (plainService 1) 0]

theorem history_and_state_agree_track :
    ((playedThenDerived "t").foldl HistoryCall.apply .empty).watchStates.rows.map
      (·.viewCount) = [1, 1, 1] ∧
      ∀ k s, ((playedThenDerived "t").foldl HistoryCall.apply .empty).watchStates.get? k = some s →
        (s.completed = true ↔ 0 < s.viewCount) := by
  refine ⟨by
    decide +kernel, (history_and_state_agree (fun _ externalId => externalId == "t")
      (playedThenDerived "t") ?_).2⟩
  refine ⟨⟨⟨rfl, rfl, by decide⟩, fun hc => by cases hc⟩, rfl, trivial, trivial⟩

/-- An event that names an album: the album is completed, until its state is derived from its
track. -/
theorem container_event_disagrees : ∃ calls : List HistoryCall,
    (∀ service cache item hleaf t, .playback (.persistMedia service cache item hleaf t) ∈ calls →
      item.Counted) ∧
      ∃ e ∈ (calls.foldl HistoryCall.apply .empty).watchEvents.rows, e.completed = true ∧
        ∀ s, (calls.foldl HistoryCall.apply .empty).watchStates.get? (e.mediaItemId, e.sourceId) =
          some s → s.completed = false := by
  refine ⟨playedThenDerived "y", fun service cache item hleaf t hmem => ?_, ?_⟩
  · simp only [playedThenDerived, List.mem_cons, HistoryCall.playback.injEq, reduceCtorEq,
      List.not_mem_nil, or_false] at hmem
    obtain ⟨-, -, rfl, -⟩ := hmem
    exact fun hc => by cases hc
  · have hend : ((playedThenDerived "y").foldl HistoryCall.apply .empty).watchEvents.rows.any
        fun e => e.completed &&
        (((playedThenDerived "y").foldl HistoryCall.apply .empty).watchStates.get?
          (e.mediaItemId, e.sourceId)).all (!·.completed) := by
      decide +kernel
    obtain ⟨e, he, hboth⟩ := List.any_eq_true.1 hend
    rw [Bool.and_eq_true, Option.all_eq_true] at hboth
    exact ⟨e, he, hboth.1, fun s hs => by simpa using hboth.2 s hs⟩

end Example

end Euvieouvi
