import Euvieouvi.Reconcile.Entry

/-!
# What every merge respects

A relation that one merge, one new parent and the mark of the projection respect is respected by
every entry point of the reconciliation, in any catalog. The relation may say something about the
merges in between (`RespectsLog`).
-/

namespace Euvieouvi

/-- The primitive changes of a reconciliation at this moment respect `R`, which knows their
merges. -/
structure RespectsLog (now : Time) (R : Database → List MergeStep → Database → Prop) : Prop where
  refl : ∀ db, R db [] db
  trans : ∀ {db db' db'' log log'}, R db log db' → R db' log' db'' → R db (log ++ log') db''
  merge : ∀ step : MergeStep,
    R step.before [step] (step.before.mergeItem now step.winner step.loser)
  move : ∀ (db : Database) (parent i : Nat), R db [] (db.saveParent now parent i)
  stale : ∀ db : Database, R db [] db.markProjectionStale

/-- The merges that a loop adds to its log. -/
def LogExtends (R : Database → List MergeStep → Database → Prop)
    (acc acc' : Database × List MergeStep) : Prop :=
  ∃ log, acc'.2 = acc.2 ++ log ∧ R acc.1 log acc'.1

namespace RespectsLog
variable {now : Time} {R : Database → List MergeStep → Database → Prop} {db d : Database}
  {log : List MergeStep}

theorem quiet (h : RespectsLog now R) {db' : Database} (hd : R db log d) (hd' : R d [] db') :
    R db log db' := by
  have hboth := h.trans hd hd'
  rwa [List.append_nil] at hboth

theorem extends_refl (h : RespectsLog now R) (acc : Database × List MergeStep) :
    LogExtends R acc acc :=
  ⟨[], (List.append_nil _).symm, h.refl _⟩

theorem extends_trans (h : RespectsLog now R) {acc acc' acc'' : Database × List MergeStep}
    (h₁ : LogExtends R acc acc') (h₂ : LogExtends R acc' acc'') : LogExtends R acc acc'' := by
  obtain ⟨log, hlog, hR⟩ := h₁
  obtain ⟨log', hlog', hR'⟩ := h₂
  exact ⟨log ++ log', by rw [hlog', hlog, List.append_assoc], h.trans hR hR'⟩

theorem foldl (h : RespectsLog now R) {α : Type}
    {f : Database × List MergeStep → α → Database × List MergeStep}
    (hf : ∀ acc a, LogExtends R acc (f acc a)) (l : List α) (acc : Database × List MergeStep) :
    LogExtends R acc (l.foldl f acc) := by
  induction l generalizing acc with
  | nil => exact h.extends_refl _
  | cons a l ih => exact h.extends_trans (hf acc a) (ih _)

/-- A loop that starts with an empty log. -/
theorem of_extends {acc : Database × List MergeStep} (h : LogExtends R (db, []) acc) :
    R db acc.2 acc.1 := by
  obtain ⟨log, hlog, hR⟩ := h
  rw [List.nil_append] at hlog
  rwa [hlog]

theorem writeParents (h : RespectsLog now R) (parent : Nat) (pending : List Nat) (db : Database) :
    R db [] (db.writeParents now parent pending) := by
  induction pending generalizing db with
  | nil => exact h.refl db
  | cons i pending ih => exact h.trans (h.move db parent i) (ih _)

theorem mergeEpisode (h : RespectsLog now R) (winner : Nat) (s : Database.SeasonLoop)
    (episode : MediaItem) :
    LogExtends R (s.db, s.log) ((Database.mergeEpisode now winner s episode).db,
      (Database.mergeEpisode now winner s episode).log) := by
  unfold Database.mergeEpisode
  dsimp only
  set byFile := if s.db.sharedIdentifierCandidates winner episode.id =
    [] then s.db.sharedFileCandidates winner episode
    else s.db.sharedIdentifierCandidates winner episode.id
  set s₁ := if byFile = [] ∧ episode.episodeNumber = none then s
    else { s with db := s.db.writeParents now winner s.pending, pending := [] } with hs₁
  have hflush : LogExtends R (s.db, s.log) (s₁.db, s₁.log) := by
    rw [hs₁]
    split
    · exact h.extends_refl _
    · exact ⟨[], (List.append_nil _).symm, h.writeParents winner _ _⟩
  clear_value s₁ byFile
  refine h.extends_trans hflush ?_
  split
  next candidate _ =>
    have hmerged := h.merge ⟨s₁.db, candidate, episode.id⟩
    dsimp only at hmerged
    generalize s₁.db.mergeItem now candidate episode.id = d at hmerged ⊢
    split
    · exact ⟨_, rfl, hmerged⟩
    · exact h.extends_refl _
  next => exact h.extends_refl _

theorem mergeSeason (h : RespectsLog now R) (winner loser : Nat) (db : Database) :
    R db (db.mergeSeason now winner loser).2 (db.mergeSeason now winner loser).1 := by
  have hloop : ∀ (episodes : List MediaItem) (s : Database.SeasonLoop), LogExtends R (s.db, s.log)
      ((episodes.foldl (Database.mergeEpisode now winner) s).db,
        (episodes.foldl (Database.mergeEpisode now winner) s).log) := by
    intro episodes
    induction episodes with
    | nil => exact fun s => h.extends_refl _
    | cons episode episodes ih =>
      exact fun s => h.extends_trans (h.mergeEpisode winner s episode) (ih _)
  unfold Database.mergeSeason
  dsimp only
  exact h.quiet (of_extends (hloop _ { db := db })) (h.writeParents winner _ _)

theorem mergeShowSeason (h : RespectsLog now R) (winner : Nat) (acc : Database × List MergeStep)
    (season : MediaItem) :
    LogExtends R acc (Database.mergeShowSeason now winner acc season) := by
  unfold Database.mergeShowSeason
  dsimp only
  split
  next candidate _ =>
    have hseason := h.mergeSeason candidate.id season.id acc.1
    generalize acc.1.mergeSeason now candidate.id season.id = merged at hseason ⊢
    obtain ⟨d, log⟩ := merged
    have hmerged := h.trans hseason (h.merge ⟨d, candidate.id, season.id⟩)
    dsimp only at hmerged ⊢
    generalize d.mergeItem now candidate.id season.id = d' at hmerged ⊢
    exact ⟨_, by rw [List.append_assoc], hmerged⟩
  · exact ⟨[], (List.append_nil _).symm, h.move acc.1 winner season.id⟩
  · exact h.extends_refl _

theorem mergeHierarchy (h : RespectsLog now R) (winner loser : Nat) (db : Database) :
    R db (db.mergeHierarchy now winner loser).2 (db.mergeHierarchy now winner loser).1 := by
  unfold Database.mergeHierarchy
  split
  · exact h.refl db
  · exact of_extends (h.foldl (h.mergeShowSeason winner) _ (db, []))

theorem mergeDuplicates (h : RespectsLog now R) (canonical : Nat) (items : List Nat)
    (db : Database) :
    R db (db.mergeDuplicates now canonical items).2 (db.mergeDuplicates now canonical items).1 := by
  refine of_extends (h.foldl (fun acc duplicate => ?_) _ (db, []))
  have hhierarchy := h.mergeHierarchy canonical duplicate acc.1
  unfold Database.mergeDuplicate Database.mergePair
  generalize acc.1.mergeHierarchy now canonical duplicate = merged at hhierarchy ⊢
  obtain ⟨d, log⟩ := merged
  have hmerged := h.trans hhierarchy (h.merge ⟨d, canonical, duplicate⟩)
  dsimp only at hmerged ⊢
  generalize d.mergeItem now canonical duplicate = d' at hmerged ⊢
  exact ⟨_, rfl, hmerged⟩

theorem marked (h : RespectsLog now R) {acc : Database × List MergeStep} (hd : R db acc.2 acc.1) :
    R db (if acc.2 = [] then acc else (acc.1.markProjectionStale, acc.2)).2
      (if acc.2 = [] then acc else (acc.1.markProjectionStale, acc.2)).1 := by
  split
  exacts [hd, h.quiet hd (h.stale acc.1)]

theorem reconcileMatchingItems (h : RespectsLog now R) (kind : MediaKind)
    (identifiers : List ExternalIdentifier)
    (preferred : Option Nat) (db : Database) :
    R db (db.reconcileMatchingItems now kind identifiers preferred).2
      (db.reconcileMatchingItems now kind identifiers preferred).1 := by
  unfold Database.reconcileMatchingItems
  dsimp only
  split
  · exact h.refl db
  · split
    · exact h.refl db
    · set ids := ((db.mediaIdentifiers.rows.filter fun r => (db.identityRows.kindOf r.mediaItemId) =
        some kind &&
        (identifiers.filter fun i => stableProviders.contains i.provider &&
          i.externalId ≠ "").contains
          ⟨r.provider, r.externalId⟩).map (·.mediaItemId)).eraseDups
      set canonical := (preferred.filter (db.live ids).contains).getD (db.canonical (db.live ids))
      have hmerged := h.mergeDuplicates canonical (db.live ids) db
      generalize db.mergeDuplicates now canonical (db.live ids) = merged at hmerged ⊢
      exact h.marked hmerged

/-- A group of duplicates that is merged. -/
theorem mergeGroup (h : RespectsLog now R) {ids : List Nat} {physical : Bool}
    (hgroup : db.mergeGroup now ids physical = some (d, log)) : R db log d := by
  unfold Database.mergeGroup at hgroup
  dsimp only at hgroup
  split_ifs at hgroup
  have hmerged := h.mergeDuplicates (db.canonical (db.live ids)) (db.live ids) db
  rwa [Option.some_inj.1 hgroup] at hmerged

theorem reconcilePhysicalItem (h : RespectsLog now R) (item : Nat) (db : Database) :
    R db (db.reconcilePhysicalItem now item).2 (db.reconcilePhysicalItem now item).1 := by
  have hloop := of_extends (h.foldl (f := Database.reconcilePhysicalGroup now) (fun acc ids => by
    unfold Database.reconcilePhysicalGroup
    split
    next d log hgroup => exact ⟨log, rfl, h.mergeGroup hgroup⟩
    next => exact h.extends_refl _) (db.physicalGroups (some item)) (db, []))
  unfold Database.reconcilePhysicalItem
  generalize (db.physicalGroups (some item)).foldl (Database.reconcilePhysicalGroup now) (db, []) =
    merged at hloop ⊢
  exact h.marked hloop

theorem mergeConfirmedItems (h : RespectsLog now R) {ids : List Nat}
    (hmerge : db.mergeConfirmedItems now ids = .ok (d, log)) :
    R db log d := by
  have hmerged := h.mergeDuplicates (db.canonical (db.live ids)) (db.live ids) db
  unfold Database.mergeConfirmedItems at hmerge
  dsimp only at hmerge
  generalize db.mergeDuplicates now (db.canonical (db.live ids)) (db.live ids) =
    merged at hmerged hmerge
  obtain ⟨d', log'⟩ := merged
  split_ifs at hmerge
  · obtain ⟨rfl, rfl⟩ := Prod.mk.inj (Except.ok.inj hmerge)
    exact hmerged
  · obtain ⟨rfl, rfl⟩ := Prod.mk.inj (Except.ok.inj hmerge)
    exact h.quiet hmerged (h.stale d')

/-- The whole catalog, if the recovery of identifiers from a title respects `R` too. -/
theorem reconcileCatalog (h : RespectsLog now R) {py : PyLib} {result : Database.ReconcileResult}
    (hrecover : ∀ (s s' : Database.Recovery) (m : MediaItem), Database.recoverItem py now s m =
      some s' → R s.db [] s'.db)
    (hcall : db.reconcileCatalog py now false = some (result, d, log)) : R db log d := by
  have hrecovered : ∀ (items : List MediaItem) (s s' : Database.Recovery),
      items.foldlM (Database.recoverItem py now) s = some s' →
      R s.db [] s'.db := by
    intro items
    induction items with
    | nil =>
      intro s s' hs
      cases hs
      exact h.refl _
    | cons m items ih =>
      intro s s' hs
      rw [List.foldlM_cons] at hs
      obtain ⟨s₁, hs₁, hs⟩ := Option.bind_eq_some_iff.1 hs
      exact h.trans (hrecover s s₁ m hs₁) (ih s₁ s' hs)
  have hloop : ∀ (groups : List (List Nat × Bool)) (s : Database.ReconcileLoop),
      LogExtends R (s.db, s.log)
      ((groups.foldl (Database.reconcileGroup now) s).db,
        (groups.foldl (Database.reconcileGroup now) s).log) := by
    intro groups
    induction groups with
    | nil => exact fun s => h.extends_refl _
    | cons group groups ih =>
      intro s
      refine h.extends_trans ?_ (ih _)
      unfold Database.reconcileGroup
      dsimp only
      split
      · exact h.extends_refl _
      · split
        next => exact h.extends_refl _
        next d log hgroup => exact ⟨log, rfl, h.mergeGroup hgroup⟩
  unfold Database.reconcileCatalog at hcall
  obtain ⟨recovery, hrecovery, hresult⟩ := Option.map_eq_some_iff.1 hcall
  dsimp only at hresult
  have hmerged := fun groups => h.trans (hrecovered _ { db := db } recovery hrecovery)
    (of_extends (hloop groups { db := recovery.db }))
  obtain ⟨-, rfl, rfl⟩ : _ = result ∧ _ = d ∧ _ = log := by
    obtain ⟨hfirst, hrest⟩ := Prod.mk.inj hresult
    exact ⟨hfirst, Prod.mk.inj hrest⟩
  rw [if_neg Bool.false_ne_true]
  split
  exacts [h.quiet (hmerged _) (h.stale _), hmerged _]

end RespectsLog

/-- The primitive changes of the reconciliation respect `R`. -/
structure Respects (R : Database → Database → Prop) : Prop where
  refl : ∀ db, R db db
  trans : ∀ {db db' db''}, R db db' → R db' db'' → R db db''
  merge : ∀ (db : Database) (now : Time) (w l : Nat), R db (db.mergeItem now w l)
  move : ∀ (db : Database) (now : Time) (parent i : Nat), R db (db.saveParent now parent i)
  stale : ∀ db : Database, R db db.markProjectionStale

namespace Respects
variable {R : Database → Database → Prop} {db : Database} (now : Time)

theorem log (h : Respects R) : RespectsLog now fun db _ db' => R db db' where
  refl := h.refl
  trans := h.trans
  merge step := h.merge step.before now step.winner step.loser
  move db parent i := h.move db now parent i
  stale := h.stale

theorem reconcileMatchingItems (h : Respects R) (kind : MediaKind)
    (identifiers : List ExternalIdentifier)
    (preferred : Option Nat) (db : Database) :
    R db (db.reconcileMatchingItems now kind identifiers preferred).1 :=
  (h.log now).reconcileMatchingItems kind identifiers preferred db

theorem reconcilePhysicalItem (h : Respects R) (item : Nat) (db : Database) :
    R db (db.reconcilePhysicalItem now item).1 :=
  (h.log now).reconcilePhysicalItem item db

end Respects

end Euvieouvi
