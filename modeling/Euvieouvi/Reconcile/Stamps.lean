import Euvieouvi.Persist.Failures
import Euvieouvi.Reconcile.Calls
import Euvieouvi.Reconcile.Respects

/-!
# What a reconciliation stamps

A merge assigns rows by statements that leave `updated_at`; only the fields that the winner takes
from the loser are flushed. So a call that merges stamps an item where a merge fills a field of a
winner that stays (`stamped_of_fills`), and a call that merges nothing leaves the rows as they were,
or a title was flushed (`quiet_or_stamped`).
-/

namespace Euvieouvi

/-- The winner takes a field that it lacks and the loser has. -/
def MergeStep.Fills (step : MergeStep) : Prop :=
  ∃ w l, step.before.mediaItems.get? step.winner = some w ∧
    step.before.mediaItems.get? step.loser = some l ∧ w.fillMissing l ≠ w

theorem MergeStep.Fills.ne {step : MergeStep} (h : step.Fills) : step.loser ≠ step.winner := by
  obtain ⟨w, l, hw, hl, hne⟩ := h
  intro heq
  obtain rfl : l = w := Option.some_inj.1 (hl.symm.trans (heq ▸ hw))
  refine hne ?_
  unfold MediaItem.fillMissing
  simp only [Option.or_self]

/-- A merge fills a field of its winner, and no later one deletes this winner. -/
def FillsLastingly (log : List MergeStep) : Prop :=
  ∃ before step after, log = before ++ step :: after ∧ step.Fills ∧ ∀ later ∈ after,
    later.loser ≠ step.winner

namespace Database

/-- The item is there, written at that time or later. -/
def ItemStamped (T : Time) (i : Nat) (db : Database) : Prop :=
  ∃ m, db.mediaItems.get? i = some m ∧ T ≤ m.updatedAt

section Stamps
variable {T now : Time} {db db' db'' : Database} {i w l : Nat} {log log' : List MergeStep}

theorem ItemStamped.of_table (h : db.ItemStamped T i) (htable : db'.mediaItems = db.mediaItems) :
    db'.ItemStamped T i := by
  unfold ItemStamped
  rwa [htable]

theorem ItemStamped.of_frame {written : List TableName} (h : db.ItemStamped T i)
    (hframe : Frame written db db') (hw : .mediaItems ∉ written) : db'.ItemStamped T i :=
  h.of_table (hframe .mediaItems hw)

theorem ItemStamped.save (h : db.ItemStamped T i) (hT : T ≤ now) (j : Nat)
    (f : Assignment MediaItem.id) :
    (db.saveMediaItem now j f).ItemStamped T i := by
  obtain ⟨m, hm, hlate⟩ := h
  refine ⟨_, (db.get?_saveMediaItem now j i f).trans (congrArg _ hm), ?_⟩
  dsimp only
  split
  exacts [hT, hlate]

/-- An item that changes is written. -/
theorem stamped_save (hT : T ≤ now) (f : Assignment MediaItem.id) {m : MediaItem}
    (hm : db.mediaItems.get? i = some m)
    (hne : f m ≠ m) : (db.saveMediaItem now i f).ItemStamped T i := by
  have hid : m.id = i := Table.key_of_get? hm
  refine ⟨_, (db.get?_saveMediaItem now i i f).trans (congrArg _ hm), ?_⟩
  dsimp only
  rw [if_pos (by simp [hid, hne])]
  exact hT

theorem ItemStamped.moveChildren (h : db.ItemStamped T i) (w l : Nat) :
    (db.moveChildren w l).ItemStamped T i := by
  obtain ⟨m, hm, hlate⟩ := h
  unfold Database.moveChildren
  refine ⟨if m.parentId == some l then { m with parentId := some w } else m, ?_, ?_⟩
  · rw [mediaItems_updateMediaItems, Table.get?_update, hm]
    rfl
  · split
    exacts [hlate, hlate]

theorem ItemStamped.deleteMediaItem (h : db.ItemStamped T i) (hne : l ≠ i) :
    (db.deleteMediaItem l).ItemStamped T i := by
  obtain ⟨m, hm, hlate⟩ := h
  refine ⟨m, ?_, hlate⟩
  rw [mediaItems_deleteMediaItem]
  split
  · rw [Table.get?_delete_key (k := l) fun _ => beq_iff_eq, if_neg hne.symm]
    exact hm
  · exact hm

/-- What is stamped before the statements of a merge is so after them, but for the loser. -/
theorem stamped_mergeItem (h : (db.fillMissing now w l).ItemStamped T i) (hne : l ≠ i) :
    (db.mergeItem now w l).ItemStamped T i := by
  unfold mergeItem
  refine ItemStamped.deleteMediaItem (ItemStamped.moveChildren ?_ w l) hne
  generalize db.fillMissing now w l = d₁ at h ⊢
  have hdrop := h.of_frame (d₁.dropContradictedIdentifiers_frame w l) (by decide)
  generalize d₁.dropContradictedIdentifiers w l = d₂ at hdrop ⊢
  have hmeta := hdrop.of_frame (d₂.moveMetadata_frame w l) (by decide)
  generalize d₂.moveMetadata w l = d₃ at hmeta ⊢
  have hstates := hmeta.of_frame (d₃.mergeWatchStates_frame w l) (by decide)
  generalize d₃.mergeWatchStates w l = d₄ at hstates ⊢
  have hevents : (d₄.moveWatchEvents w l).ItemStamped T i :=
    hstates.of_frame (updateWatchEvents_frame _ _) (by decide)
  exact hevents.of_frame (updateSourceMediaRefs_frame _ _) (by decide)

theorem ItemStamped.fillMissing (h : db.ItemStamped T i) (hT : T ≤ now) (w l : Nat) :
    (db.fillMissing now w l).ItemStamped T i := by
  unfold Database.fillMissing
  split
  exacts [h.save hT _ _, h]

theorem stamped_of_fills (hT : T ≤ now) {step : MergeStep} (h : step.Fills) :
    (step.before.mergeItem now step.winner step.loser).ItemStamped T step.winner := by
  refine stamped_mergeItem ?_ h.ne
  obtain ⟨w, l, hw, hl, hne⟩ := h
  unfold Database.fillMissing
  rw [hl]
  exact stamped_save hT _ hw hne

/-- The stamps that the merges of a log leave. -/
structure StampsLast (T : Time) (db : Database) (log : List MergeStep) (db' : Database) : Prop where
  keep : ∀ i, db.ItemStamped T i → (∀ step ∈ log, step.loser ≠ i) → db'.ItemStamped T i
  fill : ∀ before step after, log = before ++ step :: after → step.Fills →
    (∀ later ∈ after, later.loser ≠ step.winner) →
    db'.ItemStamped T step.winner

theorem StampsLast.of_keep (h : ∀ i, db.ItemStamped T i → db'.ItemStamped T i) :
    StampsLast T db [] db' where
  keep i hi _ := h i hi
  fill before step after hlog := by cases before <;> cases hlog

theorem StampsLast.trans (h : StampsLast T db log db') (h' : StampsLast T db' log' db'') :
    StampsLast T db (log ++ log') db'' where
  keep i hi hlog :=
      h'.keep i (h.keep i hi fun step hs => hlog step (List.mem_append_left _ hs)) fun step hs =>
    hlog step (List.mem_append_right _ hs)
  fill before step after hlog hfills hlater := by
    rcases List.append_eq_append_iff.1 hlog with ⟨between, rfl, hlog'⟩ | ⟨between, hlog₁, hlog'⟩
    · exact h'.fill between step after hlog' hfills hlater
    · cases between with
      | nil => exact h'.fill [] step after hlog'.symm hfills hlater
      | cons first between =>
        obtain ⟨rfl, rfl⟩ := List.cons.inj hlog'
        exact h'.keep step.winner (h.fill before step between hlog₁ hfills fun later hl =>
          hlater later (List.mem_append_left _ hl))
          fun later hl => hlater later (List.mem_append_right _ hl)

theorem stampsLast_respects (hT : T ≤ now) : RespectsLog now (StampsLast T) where
  refl _ := .of_keep fun _ => id
  trans h h' := h.trans h'
  merge step := {
    keep :=
      fun i hi hlog => stamped_mergeItem (hi.fillMissing hT _ _) (hlog step List.mem_cons_self)
    fill := fun before other after hlog hfills _ => by
      rcases before with _ | ⟨first, before⟩
      · obtain ⟨rfl, -⟩ := List.cons.inj hlog
        exact stamped_of_fills hT hfills
      · exact absurd (List.cons.inj hlog).2 (by simp) }
  move _ _ _ := .of_keep fun _ hi => hi.save hT _ _
  stale _ := .of_keep fun _ hi => hi.of_table rfl

end Stamps

section Quiet
variable {now : Time} {db d : Database}

/-- No less is merged than the duplicates of the canonical item. -/
theorem length_le_mergeDuplicates (now : Time) (c : Nat) (items : List Nat) (db : Database) :
    (items.filter (· ≠ c)).length ≤ (db.mergeDuplicates now c items).2.length := by
  have hlen := le_length_mergeDuplicates now c (items.filter (· ≠ c)) (db, [])
  rw [List.length_nil, Nat.zero_add] at hlen
  exact hlen

theorem mergeGroup_quiet {ids : List Nat} {physical : Bool}
    (h : db.mergeGroup now ids physical = some (d, [])) :
    d = db ∧ ((db.live ids).filter (· ≠ db.canonical (db.live ids))).length = 0 := by
  unfold mergeGroup at h
  dsimp only at h
  split_ifs at h
  have hmerged := Option.some_inj.1 h
  have hlog : (db.mergeDuplicates now (db.canonical (db.live ids)) (db.live ids)).2 = [] :=
    congrArg Prod.snd hmerged
  have hlen := length_le_mergeDuplicates now (db.canonical (db.live ids)) (db.live ids) db
  refine ⟨(congrArg Prod.fst hmerged).symm.trans (mergeDuplicates_quiet hlog), ?_⟩
  rw [hlog, List.length_nil] at hlen
  omega

theorem reconcilePhysicalGroups_quiet (groups : List (List Nat)) {acc : Database × List MergeStep}
    (h : (groups.foldl (reconcilePhysicalGroup now) acc).2 = []) :
    acc.2 = [] ∧ (groups.foldl (reconcilePhysicalGroup now) acc).1 = acc.1 := by
  induction groups generalizing acc with
  | nil => exact ⟨h, rfl⟩
  | cons ids groups ih =>
    obtain ⟨hlog, hdb⟩ := ih h
    rw [List.foldl_cons, hdb]
    unfold reconcilePhysicalGroup at hlog ⊢
    split at hlog
    next d log hgroup =>
      obtain ⟨hacc, rfl⟩ := List.append_eq_nil_iff.1 hlog
      exact ⟨hacc, (mergeGroup_quiet hgroup).1⟩
    next => exact ⟨hlog, rfl⟩

theorem reconcilePhysicalItem_quiet {item : Nat} (h : (db.reconcilePhysicalItem now item).2 = []) :
    (db.reconcilePhysicalItem now item).1 = db := by
  unfold reconcilePhysicalItem at h ⊢
  dsimp only at h ⊢
  split_ifs at h ⊢ with hlog
  · exact (reconcilePhysicalGroups_quiet _ hlog).2
  · exact absurd h hlog

theorem mergeConfirmedItems_quiet {ids : List Nat}
    (h : db.mergeConfirmedItems now ids = .ok (d, [])) : d = db := by
  unfold mergeConfirmedItems at h
  dsimp only at h
  split_ifs at h with hmissing hkinds hsafe hlog
  · exact (congrArg Prod.fst (Except.ok.inj h)).symm.trans (mergeDuplicates_quiet hlog)
  · exact absurd (congrArg Prod.snd (Except.ok.inj h)) hlog

theorem reconcileGroups_quiet (groups : List (List Nat × Bool)) {s : ReconcileLoop}
    (h : (groups.foldl (reconcileGroup now) s).log = []) :
    s.log = [] ∧ (groups.foldl (reconcileGroup now) s).db = s.db ∧
      (groups.foldl (reconcileGroup now) s).merged = s.merged := by
  induction groups generalizing s with
  | nil => exact ⟨h, rfl, rfl⟩
  | cons group groups ih =>
    obtain ⟨hlog, hdb, hmerged⟩ := ih h
    rw [List.foldl_cons, hdb, hmerged]
    unfold reconcileGroup at hlog ⊢
    dsimp only at hlog ⊢
    split_ifs at hlog ⊢
    · exact ⟨hlog, rfl, rfl⟩
    · split at hlog
      next => exact ⟨hlog, rfl, rfl⟩
      next d log hgroup =>
        obtain ⟨hs, rfl⟩ := List.append_eq_nil_iff.1 hlog
        obtain ⟨rfl, hnone⟩ := mergeGroup_quiet hgroup
        exact ⟨hs, rfl, by dsimp only; omega⟩

end Quiet

/-! ### Titles -/

/-- The items whose titles `_recover_embedded_identifiers` reads. -/
def titledItems (db : Database) : List MediaItem :=
  db.mediaItems.rows.filter fun m => (m.kind = .movie || m.kind = .show) &&
    (ilike ['t', 'm', 'd', 'b'] m.title || ilike ['t', 'v', 'd', 'b'] m.title ||
      ilike ['i', 'm', 'd', 'b'] m.title)

/-- The item gets its identifiers from a title that stays as it is. -/
def GainsSilently (py : PyLib) (db : Database) (m : MediaItem) : Prop :=
  ∃ metadata, parseEmbeddedIdentifiers py m.title = some metadata ∧ metadata.identifiers ≠ [] ∧
    metadata.title = m.title ∧
    ∀ r ∈ db.mediaIdentifiers.rows, r.mediaItemId = m.id →
      stableProviders.contains r.provider = false

section Titles
variable {py : PyLib} {T now : Time} {db : Database}

/-- Nothing is written by the recovery so far, or a title. -/
def RecoveryStamps (T : Time) (db : Database) (s : Recovery) : Prop :=
  s.db = db ∧ s.recovered = 0 ∧ s.normalized = 0 ∨ ∃ i, s.db.ItemStamped T i

theorem ItemStamped.insertIdentifiers {i : Nat} (h : db.ItemStamped T i) (item : Nat) (now : Time)
    (missing : List ExternalIdentifier) :
    (missing.foldl (fun db i => db.insertMediaIdentifier
      ⟨db.mediaIdentifiers.nextId, item, i.provider, i.externalId, now⟩) db).ItemStamped T i := by
  induction missing generalizing db with
  | nil => exact h
  | cons x missing ih => exact ih (h.of_frame (insertMediaIdentifier_frame _) (by decide))

theorem saveMediaItem_same {i : Nat} {f : Assignment MediaItem.id} {m : MediaItem}
    (hm : db.mediaItems.get? i = some m) (hf : f m = m) :
    db.saveMediaItem now i f = db := by
  unfold saveMediaItem updateMediaItems
  rw [if_neg]
  simp only [List.any_eq_true, Bool.and_eq_true, beq_iff_eq, decide_eq_true_eq, not_exists,
    not_and, not_not]
  rintro m' hm' hid
  have hget := Table.get?_of_mem hm'
  rw [hid, hm] at hget
  obtain rfl := Option.some_inj.1 hget
  exact hf

theorem ItemStamped.recoverItem {i : Nat} {s s' : Recovery} {m : MediaItem} (hT : T ≤ now)
    (h : s.db.ItemStamped T i)
    (hs : Database.recoverItem py now s m = some s') : s'.db.ItemStamped T i := by
  obtain ⟨metadata, -, rfl⟩ := Option.map_eq_some_iff.1 hs
  split
  · exact h
  · dsimp only
    split
    · exact h
    · exact (h.save hT m.id _).insertIdentifiers m.id now _

theorem recoveryStamps_recoverItem {s s' : Recovery} {m : MediaItem} (hT : T ≤ now)
    (hm : db.mediaItems.get? m.id = some m)
    (hgains : ¬ GainsSilently py db m) (h : RecoveryStamps T db s)
    (hs : Database.recoverItem py now s m = some s') :
    RecoveryStamps T db s' := by
  rcases h with ⟨hdb, hrecovered, hnormalized⟩ | ⟨i, h⟩
  · obtain ⟨metadata, hparse, rfl⟩ := Option.map_eq_some_iff.1 hs
    rw [hdb, hrecovered, hnormalized]
    dsimp only
    split_ifs with hnone hconflict htitle
    · exact .inl ⟨hdb, hrecovered, hnormalized⟩
    · exact .inl ⟨rfl, rfl, rfl⟩
    · -- The title changes, and the item is flushed.
      refine .inr
        ⟨m.id, ItemStamped.insertIdentifiers (stamped_save hT _ hm fun heq => htitle ?_) m.id now _⟩
      exact congrArg MediaItem.title heq
    · have htitle : metadata.title = m.title := not_not.1 htitle
      have hsame : db.saveMediaItem now m.id ⟨fun m => { m with title := metadata.title }, fun _ =>
          rfl⟩ = db :=
        saveMediaItem_same hm (by rw [htitle])
      have hmissing :
          metadata.identifiers.filter (fun i => !(db.mediaIdentifiers.rows.filter fun r =>
          r.mediaItemId == m.id && stableProviders.contains r.provider).any fun r =>
            r.provider == i.provider && r.externalId == i.externalId) = [] := by
        by_contra hmissing
        refine hgains ⟨metadata, hparse, hnone, htitle, fun r hr hitem => ?_⟩
        have hexisting := not_not.1 (not_and.1 hconflict hmissing)
        have hrow := List.filter_eq_nil_iff.1 hexisting r hr
        simpa [hitem] using hrow
      exact .inl ⟨by rw [hmissing, hsame]; rfl, by rw [hmissing]; rfl, rfl⟩
  · exact .inr ⟨i, h.recoverItem hT hs⟩

/-- Nothing is written by the recovery, or a title, if every item that gains identifiers gets
another title. -/
theorem recoverEmbeddedIdentifiers_stamps {recovery : Recovery} (hT : T ≤ now)
    (hgains : ∀ m ∈ db.titledItems, ¬ GainsSilently py db m)
    (h : db.recoverEmbeddedIdentifiers py now = some recovery) : RecoveryStamps T db recovery := by
  have hloop : ∀ (items : List MediaItem) (s s' : Recovery), (∀ m ∈ items, m ∈ db.titledItems) →
      RecoveryStamps T db s →
      items.foldlM (Database.recoverItem py now) s = some s' → RecoveryStamps T db s' := by
    intro items
    induction items with
    | nil =>
      intro s s' _ h hs
      cases hs
      exact h
    | cons m items ih =>
      intro s s' hitems h hs
      rw [List.foldlM_cons] at hs
      obtain ⟨s₁, hs₁, hs⟩ := Option.bind_eq_some_iff.1 hs
      have hm : m ∈ db.titledItems := hitems m List.mem_cons_self
      have hrow : db.mediaItems.get? m.id = some m := Table.get?_of_mem (List.mem_of_mem_filter hm)
      exact ih s₁ s' (fun m' hm' => hitems m' (List.mem_cons_of_mem m hm'))
        (recoveryStamps_recoverItem hT hrow (hgains m hm) h hs₁) hs
  exact hloop db.titledItems { db := db } recovery (fun _ h => h) (.inl ⟨rfl, rfl, rfl⟩) h

/-- A call on the whole catalog that merges nothing. -/
theorem reconcileCatalog_stamps {result : ReconcileResult} {d : Database} (hT : T ≤ now)
    (hgains : ∀ m ∈ db.titledItems, ¬ GainsSilently py db m)
    (h : db.reconcileCatalog py now false = some (result, d, [])) :
    d = db ∨ ∃ i, d.ItemStamped T i := by
  unfold reconcileCatalog at h
  obtain ⟨recovery, hrecovery, hresult⟩ := Option.map_eq_some_iff.1 h
  have hstamps := recoverEmbeddedIdentifiers_stamps hT hgains hrecovery
  dsimp only at hresult
  rw [if_neg Bool.false_ne_true] at hresult
  generalize hgroups : recovery.db.physicalGroups.map (·, true) ++
    (recovery.db.duplicateGroups.filter fun ids => !recovery.db.physicalGroups.contains ids).map
      (·, false) = groups at hresult
  obtain ⟨-, rfl, hlog⟩ : _ ∧ _ = d ∧ _ = [] := by
    obtain ⟨hfirst, hrest⟩ := Prod.mk.inj hresult
    exact ⟨hfirst, Prod.mk.inj hrest⟩
  obtain ⟨-, hdb, hmerged⟩ := reconcileGroups_quiet groups hlog
  rw [hdb, hmerged]
  rcases hstamps with ⟨hsame, hrecovered, hnormalized⟩ | ⟨i, hi⟩
  · refine .inl ?_
    rw [if_neg (by simp [hrecovered, hnormalized]), hsame]
  · refine .inr ⟨i, ?_⟩
    split
    exacts [hi.of_table rfl, hi]

end Titles

namespace ReconcileCall
variable {py : PyLib} {T now : Time} {db : Database}

theorem stampsLast (hT : T ≤ now) (call : ReconcileCall) : StampsLast T db (call.lasting py now db)
    (call.apply py now db) := by
  have hstamps := stampsLast_respects hT
  cases call with
  | catalog dryRun =>
    cases dryRun with
    | true =>
      dsimp only [lasting, apply]
      cases hcall : db.reconcileCatalog py now true with
      | none => exact hstamps.refl db
      | some answer =>
        obtain ⟨recovery, -, hresult⟩ := Option.map_eq_some_iff.1 hcall
        obtain rfl : db = answer.2.1 := congrArg (fun r => r.2.1) hresult
        exact hstamps.refl _
    | false =>
      dsimp only [lasting, merges, apply]
      cases hcall : db.reconcileCatalog py now false with
      | none => exact hstamps.refl db
      | some answer =>
        exact hstamps.reconcileCatalog
          (fun s s' m hs => .of_keep fun i hi => hi.recoverItem hT hs) hcall
  | matching kind identifiers preferred =>
    exact hstamps.reconcileMatchingItems kind identifiers preferred db
  | physical item => exact hstamps.reconcilePhysicalItem item db
  | confirmed ids =>
    dsimp only [lasting, merges, apply]
    cases hcall : db.mergeConfirmedItems now ids with
    | error e => exact hstamps.refl db
    | ok answer => exact hstamps.mergeConfirmedItems hcall

/-- A merge fills a field of an item that stays, or nothing is merged and no item gets identifiers
from a title that stays, unless the call fails. -/
def Tells (py : PyLib) (now : Time) (db : Database) (call : ReconcileCall) : Prop :=
  FillsLastingly (call.lasting py now db) ∨
    call.lasting py now db = [] ∧
      (call = catalog false → (db.reconcileCatalog py now false).isSome = true →
        ∀ m ∈ db.titledItems, ¬ GainsSilently py db m)

/-- A call that merges nothing. -/
theorem quiet_or_stamped (hT : T ≤ now) (call : ReconcileCall) (hlog : call.lasting py now db = [])
    (hgains : call = catalog false → (db.reconcileCatalog py now false).isSome = true →
      ∀ m ∈ db.titledItems, ¬ GainsSilently py db m) :
    call.apply py now db = db ∨ ∃ i, (call.apply py now db).ItemStamped T i := by
  cases call with
  | catalog dryRun =>
    cases dryRun with
    | true =>
      dsimp only [apply]
      cases hcall : db.reconcileCatalog py now true with
      | none => exact .inl rfl
      | some answer =>
        obtain ⟨recovery, -, hresult⟩ := Option.map_eq_some_iff.1 hcall
        obtain rfl : db = answer.2.1 := congrArg (fun r => r.2.1) hresult
        exact .inl rfl
    | false =>
      dsimp only [lasting, merges] at hlog
      dsimp only [apply]
      cases hcall : db.reconcileCatalog py now false with
      | none => exact .inl rfl
      | some answer =>
        obtain ⟨result, d, log⟩ := answer
        rw [hcall] at hlog
        obtain rfl : log = [] := hlog
        exact reconcileCatalog_stamps hT (hgains rfl (by rw [hcall]; rfl)) hcall
  | matching kind identifiers preferred => exact .inl (reconcileMatchingItems_quiet hlog)
  | physical item => exact .inl (reconcilePhysicalItem_quiet hlog)
  | confirmed ids =>
    dsimp only [lasting, merges] at hlog
    dsimp only [apply]
    cases hcall : db.mergeConfirmedItems now ids with
    | error e => exact .inl rfl
    | ok answer =>
      obtain ⟨d, log⟩ := answer
      rw [hcall] at hlog
      obtain rfl : log = [] := hlog
      exact .inl (mergeConfirmedItems_quiet hcall)

theorem Tells.stamps {call : ReconcileCall} (h : call.Tells py now db) (hT : T ≤ now) :
    call.apply py now db = db ∨ ∃ i, (call.apply py now db).ItemStamped T i := by
  rcases h with ⟨before, step, after, hlog, hfills, hlater⟩ | ⟨hlog, hgains⟩
  · exact .inr ⟨step.winner, (stampsLast hT call).fill before step after hlog hfills hlater⟩
  · exact quiet_or_stamped hT call hlog hgains

end ReconcileCall

end Database

end Euvieouvi
