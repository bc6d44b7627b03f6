import Euvieouvi.Catalog.Layers
import Euvieouvi.Reconcile.History

/-!
# Steps of the reconciliation

What an entry point of the reconciliation does is a sequence of four kinds of steps: two items are
merged, an item gets another parent, identifiers are read from a title, and the projection is
marked. `ReconcileStep` says each of them with the guard it happens under, so that what the
reconciliation keeps is a case analysis over it. A merge is recorded in a log.
-/

namespace Euvieouvi

namespace Database
variable {db db' db'' : Database}

/-- A row has a parent when its kind asks for one. -/
def Rooted (db : Database) : Prop :=
  ∀ i m, db.mediaItems.get? i = some m → m.parentId.isSome = m.kind.parentKind.isSome

theorem Layered.rooted (h : db.Layered) : db.Rooted := by
  intro i m hm
  have hfits := congrArg Option.isSome (h i m hm)
  rwa [Option.isSome_map, Option.isSome_map] at hfits

theorem Rooted.parentOf (h : db.Rooted) {i : Nat} {k : MediaKind}
    (hk : db.identityRows.kindOf i = some k)
    (hroot : k.parentKind = none) : db.identityRows.parentOf i = none := by
  obtain ⟨m, hm, rfl⟩ := Option.map_eq_some_iff.1 hk
  have hsome := h i m hm
  rw [hroot, Option.isSome_none, Option.isSome_eq_false_iff, Option.isNone_iff_eq_none] at hsome
  refine Option.bind_eq_none_iff.2 fun m' hm' => ?_
  obtain rfl : m = m' := Option.some_inj.1 (hm.symm.trans hm')
  exact hsome

/-- Two items of one kind, if the second is there. -/
def SameKind (db : Database) (w l : Nat) : Prop :=
  ∃ k, db.identityRows.kindOf w = some k ∧ ∀ k', db.identityRows.kindOf l = some k' → k' = k

/-- A merge that loses no manual match: that of a season or an episode, which have none, or one
after which the winner has the match of the loser. -/
def ManualGuarded (db : Database) (w l : Nat) : Prop :=
  db.identityRows.kindOf l = some .season ∨ db.identityRows.kindOf l = some .episode ∨
    ∀ x, db.identityRows.manualMatchOf l = some x → db.identityRows.manualMatchOf w = some x

/-- The kinds are right where `L` holds, and the merges are guarded where `G` does. -/
inductive ReconcileStep (py : PyLib) (L G : Prop) : Database → List MergeStep → Database → Prop
  | merge (now : Time) (step : MergeStep) : step.winner ≠ step.loser →
    step.before.mediaItems.contains step.winner = true →
      (L → step.before.SameKind step.winner step.loser) →
        (G → step.before.ManualGuarded step.winner step.loser) →
      ReconcileStep py L G step.before [step] (step.before.mergeItem now step.winner step.loser)
  | move {db : Database} (now : Time) (parent i : Nat) (k : MediaKind) :
    db.identityRows.kindOf i = some k →
      k.parentKind.isSome = true → (L → db.ParentFits k (some parent)) →
      ReconcileStep py L G db [] (db.saveParent now parent i)
  | recover (now : Time) (s s' : Recovery) (m : MediaItem) : s.db.mediaItems.get? m.id = some m →
      recoverItem py now s m = some s' → ReconcileStep py L G s.db [] s'.db
  | stale (db : Database) : ReconcileStep py L G db [] db.markProjectionStale

/-- Some steps, and the log of their merges. -/
inductive ReconcileSteps (py : PyLib) (L G : Prop) : Database → List MergeStep → Database → Prop
  | refl (db : Database) : ReconcileSteps py L G db [] db
  | tail {db db' db'' : Database} {log log' : List MergeStep} : ReconcileSteps py L G db log db' →
      ReconcileStep py L G db' log' db'' → ReconcileSteps py L G db (log ++ log') db''

/-- A title that is recovered: the item keeps everything but its title, and only identifiers are
written besides. -/
theorem recoverItem_spec {py : PyLib} {now : Time} {s s' : Recovery} {m : MediaItem}
    (h : recoverItem py now s m = some s') :
    s'.db = s.db ∨ ∃ metadata, parseEmbeddedIdentifiers py m.title = some metadata ∧
    metadata.identifiers ≠ [] ∧
      Identified m.id (s.db.saveMediaItem now m.id
        ⟨fun m => { m with title := metadata.title }, fun _ => rfl⟩) s'.db := by
  unfold recoverItem at h
  obtain ⟨metadata, hparsed, hresult⟩ := Option.map_eq_some_iff.1 h
  split at hresult
  · rw [← hresult]; exact .inl rfl
  next hids =>
    dsimp only at hresult
    split at hresult
    · rw [← hresult]; exact .inl rfl
    · rw [← hresult]
      exact .inr ⟨metadata, hparsed, hids, insertIdentifiers_identified now m.id _ _⟩

theorem recoverItem_itemsKept {py : PyLib} {now : Time} {s s' : Recovery} {m : MediaItem}
    (h : recoverItem py now s m = some s') : ItemsKept s.db s'.db := by
  rcases recoverItem_spec h with heq | ⟨metadata, -, -, hids⟩
  · rw [heq]; exact .refl _
  · exact (ItemsKept.save s.db now m.id _ fun _ => ⟨rfl, rfl, rfl⟩).trans
      (.of_frame hids.frame (by decide))

/-! ### What the steps keep -/

section Steps
variable {py : PyLib} {L G : Prop} {leaf : Nat → String → Bool} {log log' : List MergeStep}

theorem Layered.merge {w l : Nat} (h : db.Layered) (hs : MergeItem w l db db') (hne : w ≠ l)
    (hkinds : db.SameKind w l) :
    db'.Layered := by
  obtain ⟨k, hw, hl⟩ := hkinds
  intro i m' hm'
  obtain ⟨g, hg, hget⟩ := hs.get?_eq
  rw [hget] at hm'
  split at hm'
  · cases hm'
  obtain ⟨m, hm, rfl⟩ := Option.map_eq_some_iff.1 hm'
  obtain ⟨hkind, hparent⟩ := hg m
  have hfits := h i m hm
  rw [hkind, hparent]
  rcases hp : m.parentId with _ | p
  · rw [hp, parentFits_none] at hfits
    exact parentFits_none.2 hfits
  · rw [hp] at hfits
    obtain ⟨kp, hkp, hkindp⟩ := parentFits_some.1 hfits
    refine parentFits_some.2 ⟨kp, hkp, ?_⟩
    by_cases hpl : p = l
    · rw [hpl, mergeInto_loser, hs.kindOf_eq hne, hw, hl kp (hpl ▸ hkindp)]
    · rw [mergeInto_of_ne hpl, hs.kindOf_eq hpl, hkindp]

/-- A new parent leaves the other rows, and the kind of its own. -/
theorem moveItem_row {parent i j : Nat} {m' : MediaItem} (hs : MoveItem parent i db db')
    (hm' : db'.mediaItems.get? j = some m') : ∃ m, db.mediaItems.get? j = some m ∧
    m'.kind = m.kind ∧
      (m'.parentId = m.parentId ∨ j = i ∧ m'.parentId = some parent) := by
  obtain ⟨g, hg, hget⟩ := hs.items
  rw [hget] at hm'
  obtain ⟨m, hm, rfl⟩ := Option.map_eq_some_iff.1 hm'
  obtain ⟨hkind, hparent⟩ := hg m
  refine ⟨m, hm, hkind, ?_⟩
  split at hparent
  next hid => exact .inr ⟨(Table.key_of_get? hm).symm.trans hid, hparent⟩
  next => exact .inl hparent

theorem Layered.move {parent i : Nat} {k : MediaKind} (h : db.Layered)
    (hs : MoveItem parent i db db')
    (hi : db.identityRows.kindOf i = some k) (hfits : db.ParentFits k (some parent)) :
    db'.Layered := by
  have hkinds : KindsStay db db' := fun j kj hj => ⟨kj, hs.kindOf_eq.trans hj, rfl, fun _ => rfl⟩
  refine h.step hkinds fun j m' hm' => ?_
  obtain ⟨m, hm, hkind, hparent⟩ := moveItem_row hs hm'
  rcases hparent with hparent | ⟨rfl, hparent⟩
  · exact .inl ⟨m, hm, hkind, hparent⟩
  · have hmk : m.kind = k :=
      Option.some_inj.1 (Eq.trans (Option.map_eq_some_iff.2 ⟨m, hm, rfl⟩).symm hi)
    rw [hkind, hparent, hmk]
    exact .inr hfits

/-- A recovered row keeps everything but its title. -/
theorem recoverItem_rows {R : MediaItem → MediaItem → Prop} (hrefl : ∀ m, R m m) {py : PyLib}
    {now : Time} {s s' : Recovery} {m : MediaItem} (h : recoverItem py now s m = some s')
    (htitle : ∀ (m : MediaItem) (title : String) (now : Time),
      R m { m with title := title, updatedAt := now }) :
    RowsRelate R s.db s'.db := by
  rcases recoverItem_spec h with heq | ⟨metadata, -, -, hids⟩
  · rw [heq]; exact .refl hrefl _
  · intro i m' hm'
    rw [show s'.db.mediaItems = _ from hids.frame .mediaItems (by decide)] at hm'
    obtain ⟨g, hget, hg⟩ :=
      s.db.saveMediaItem_row now m.id i ⟨fun m => { m with title := metadata.title }, fun _ => rfl⟩
    obtain ⟨m₀, hm₀, rfl⟩ := Option.map_eq_some_iff.1 (hget.symm.trans hm')
    refine ⟨m₀, hm₀, ?_⟩
    rcases hg m₀ with heq | ⟨-, heq⟩ <;> rw [heq]
    exacts [hrefl m₀, htitle m₀ _ now]

namespace ReconcileStep

theorem remains (h : ReconcileStep py L G db log db') : Remains db db' := by
  cases h with
  | merge now step => exact step.before.mergeItem_remains now step.winner step.loser
  | move now parent i => exact db.saveParent_remains now parent i
  | recover now s s' m _ hs =>
    exact recoverItem_rows (fun _ => ⟨rfl, rfl⟩) hs fun _ _ _ => ⟨rfl, rfl⟩
  | stale =>
    exact .of_frame (fun name (_ : name ∉ ([] : List TableName)) => by
      cases name <;> rfl) (by decide)

theorem rooted (h : ReconcileStep py L G db log db') (hr : db.Rooted) : db'.Rooted := by
  intro i m' hm'
  cases h with
  | merge now step hne =>
    obtain ⟨g, hg, hget⟩ := (step.before.mergeItem_spec now hne).get?_eq
    rw [hget] at hm'
    split at hm'
    · cases hm'
    obtain ⟨m, hm, rfl⟩ := Option.map_eq_some_iff.1 hm'
    rw [(hg m).1, (hg m).2, Option.isSome_map]
    exact hr i m hm
  | move now parent j k hk hsome =>
    obtain ⟨m, hm, hkind, hparent⟩ := moveItem_row (db.saveParent_spec now parent j) hm'
    rw [hkind]
    rcases hparent with hparent | ⟨rfl, hparent⟩
    · rw [hparent]; exact hr i m hm
    · have hmk : m.kind = k :=
        Option.some_inj.1 (Eq.trans (Option.map_eq_some_iff.2 ⟨m, hm, rfl⟩).symm hk)
      rw [hparent, hmk, hsome]; rfl
  | recover now s s' m _ hs =>
    obtain ⟨m₀, hm₀, hkind, hparent⟩ :=
      recoverItem_rows (R := fun m m' => m'.kind = m.kind ∧ m'.parentId = m.parentId)
        (fun _ => ⟨rfl, rfl⟩) hs
        (fun _ _ _ => ⟨rfl, rfl⟩) i m' hm'
    rw [hkind, hparent]; exact hr i m₀ hm₀
  | stale => exact hr i m' hm'

theorem layered (h : ReconcileStep py L G db log db') (hL : L) (hl : db.Layered) : db'.Layered := by
  cases h with
  | merge now step hne _ hkinds =>
    exact hl.merge (step.before.mergeItem_spec now hne) hne (hkinds hL)
  | move now parent i k hi _ hfits => exact hl.move (db.saveParent_spec now parent i) hi (hfits hL)
  | recover now s s' m _ hs =>
    refine hl.step (.of_itemsKept (recoverItem_itemsKept hs)) fun i m' hm' => .inl ?_
    exact recoverItem_rows (R := fun m m' => m'.kind = m.kind ∧ m'.parentId = m.parentId)
      (fun _ => ⟨rfl, rfl⟩) hs
      (fun _ _ _ => ⟨rfl, rfl⟩) i m' hm'
  | stale => exact hl

theorem apart (h : ReconcileStep py L G db log db') (hL : L) (ha : db.LeavesApart leaf) :
    db'.LeavesApart leaf := by
  cases h with
  | merge now step hne _ hkinds =>
    have hs := step.before.mergeItem_spec now hne
    obtain ⟨k, hw, hloser⟩ := hkinds hL
    intro r' hr'
    rw [hs.references] at hr'
    obtain ⟨r, hr, rfl⟩ := Table.mem_update.1 hr'
    obtain ⟨kr, hkr, hleaf⟩ := ha r hr
    by_cases hl : r.mediaItemId = step.loser
    · rw [if_pos (beq_iff_eq.2 hl)]
      refine ⟨kr, ?_, hleaf⟩
      show (step.before.mergeItem now step.winner step.loser).identityRows.kindOf
        step.winner = some kr
      rw [hs.kindOf_eq hne, hw, hloser kr (hl ▸ hkr)]
    · rw [if_neg (by simpa using hl)]
      exact ⟨kr, (hs.kindOf_eq hl).trans hkr, hleaf⟩
  | move now parent i =>
    have hs := db.saveParent_spec now parent i
    have hrefs : (db.saveParent now parent i).sourceMediaRefs = db.sourceMediaRefs :=
      hs.frame .sourceMediaRefs (by decide)
    intro r hr
    obtain ⟨k, hk, hleaf⟩ := ha r (hrefs ▸ hr)
    exact ⟨k, hs.kindOf_eq.trans hk, hleaf⟩
  | recover now s s' m _ hs =>
    have hrefs : s'.db.sourceMediaRefs = s.db.sourceMediaRefs := by
      rcases recoverItem_spec hs with heq | ⟨metadata, -, -, hids⟩
      · rw [heq]
      · refine Eq.trans (hids.frame .sourceMediaRefs (by decide)) ?_
        exact updateMediaItems_frame _ _ .sourceMediaRefs (by decide)
    exact ha.step (.of_itemsKept (recoverItem_itemsKept hs)) fun r hr =>
      .inl ⟨r, hrefs ▸ hr, rfl, rfl, rfl⟩
  | stale => exact ha

end ReconcileStep

namespace ReconcileSteps

theorem single (h : ReconcileStep py L G db log db') : ReconcileSteps py L G db log db' :=
  (refl db).tail h

theorem trans (h : ReconcileSteps py L G db log db') (h' : ReconcileSteps py L G db' log' db'') :
    ReconcileSteps py L G db (log ++ log') db'' := by
  induction h' with
  | refl => rwa [List.append_nil]
  | tail _ hs ih => rw [← List.append_assoc]; exact ih.tail hs

/-- A step that merges nothing. -/
theorem quiet (h : ReconcileSteps py L G db log db') (hs : ReconcileStep py L G db' [] db'') :
    ReconcileSteps py L G db log db'' :=
  List.append_nil log ▸ h.tail hs

theorem remains (h : ReconcileSteps py L G db log db') : Remains db db' := by
  induction h with
  | refl => exact .refl _
  | tail _ hs ih => exact ih.trans hs.remains

theorem rooted (h : ReconcileSteps py L G db log db') (hr : db.Rooted) : db'.Rooted := by
  induction h with
  | refl => exact hr
  | tail _ hs ih => exact hs.rooted ih

theorem layered (h : ReconcileSteps py L G db log db') (hL : L) (hl : db.Layered) :
    db'.Layered := by
  induction h with
  | refl => exact hl
  | tail _ hs ih => exact hs.layered hL ih

theorem forest (h : ReconcileSteps py L G db log db') (hL : L) (hf : db.Forest leaf) :
    db'.Forest leaf := by
  induction h with
  | refl => exact hf
  | tail _ hs ih => exact ⟨hs.layered hL ih.layered, hs.apart hL ih.apart⟩

end ReconcileSteps

end Steps

section Pairs
variable {py : PyLib} {L G : Prop} {kept lost c d : Nat} {log L₀ : List MergeStep}

/-- The steps of `_merge_hierarchy`: the episodes and the seasons of two shows. -/
theorem hierarchy_steps
    (h : MergeRun (HierarchyMerge kept lost L₀) (HierarchyMove kept lost L₀) db log db')
    (hl : L → db.Layered) (hkept : db.identityRows.kindOf kept = some .show) :
    ReconcileSteps py L G db log db' := by
  suffices hall : ReconcileSteps py L G db log db' ∧
      db'.identityRows.kindOf kept = some .show from hall.1
  induction h with
  | refl => exact ⟨.refl _, hkept⟩
  | @merge _ _ _ step _ hb hm hs ih =>
    subst hb
    obtain ⟨hsteps, hkept⟩ := ih
    have hkeptLoser : kept ≠ step.loser := by
      rintro rfl
      rcases hm.loserKind with hloser | hloser <;> rw [hkept] at hloser <;> cases hloser
    obtain ⟨now, hmerged⟩ := hs.run
    rw [hmerged] at hs ⊢
    refine ⟨hsteps.tail ?_, (hs.kindOf_eq hkeptLoser).trans hkept⟩
    obtain ⟨p, hp⟩ := hm.winnerParent
    refine .merge now step hm.ne (IdentityRows.contains_of_parentOf hp) (fun hL => ?_) fun _ => ?_
    · cases hm with
      | season hp =>
        refine ⟨.season, hp.winnerKind, fun k' hk' => ?_⟩
        rw [hp.loserKind] at hk'
        exact (Option.some_inj.1 hk').symm
      | episode seasons _ hm hp =>
        -- what is below a season is an episode
        obtain ⟨k, kp, hk, hkp, hkindp⟩ :=
          (ReconcileSteps.layered hsteps hL (hl hL)).parentOf hm.winner
        rw [hp.winnerKind, Option.some_inj] at hkindp
        subst hkindp
        refine ⟨.episode, ?_, fun k' hk' => ?_⟩
        · rw [hk]; cases k <;> cases hkp; rfl
        · rw [hm.kind] at hk'
          exact (Option.some_inj.1 hk').symm
    · rcases hm.loserKind with hloser | hloser
      exacts [.inr (.inl hloser), .inl hloser]
  | move _ hv hs ih =>
    obtain ⟨hsteps, hkept⟩ := ih
    obtain ⟨now, hmoved⟩ := hs.run
    rw [hmoved] at hs ⊢
    refine ⟨hsteps.quiet ?_, hs.kindOf_eq.trans hkept⟩
    cases hv with
    | season hv =>
      exact .move now _ _ .season hv.kind rfl fun _ =>
        parentFits_some.2 ⟨.show, rfl, hv.parent ▸ hkept⟩
    | episode seasons _ hv hp =>
      exact .move now _ _ .episode hv.kind rfl fun _ =>
        parentFits_some.2 ⟨.season, rfl, hv.parent ▸ hp.winnerKind⟩

/-- A duplicate that `_safe_sources` let pass. -/
structure Duplicate (L G : Prop) (c d : Nat) (db : Database) : Prop where
  ne : c ≠ d
  kind : L → db.SameKind c d
  manual : G → ∀ x, db.identityRows.manualMatchOf d = some x →
    db.identityRows.manualMatchOf c = some x

theorem Duplicate.later (h : Duplicate L G c d db) (hr : Remains db db')
    (hc : db'.mediaItems.contains c = true) :
    Duplicate L G c d db' where
  ne := h.ne
  kind hL := by
    obtain ⟨k, hw, hl⟩ := h.kind hL
    exact ⟨k, (hr.kindOf_eq hc).trans hw, fun k' hk' => hl k' (KindsKept.of_remains hr d k' hk')⟩
  manual hG x hx := by
    rw [hr.manualMatchOf_eq hc]
    exact h.manual hG x (hr.manualMatchOf hx)

theorem mergePair_steps (now : Time) (hr : db.Rooted) (hl : L → db.Layered)
    (hc : db.mediaItems.contains c = true) (hd : Duplicate L G c d db) :
    ReconcileSteps py L G db (db.mergePair now c d).2 (db.mergePair now c d).1 ∧
      (db.mergePair now c d).1.mediaItems.contains c = true := by
  have hmerge : ∀ (db₁ : Database) (log : List MergeStep), ReconcileSteps py L G db log db₁ →
      db₁.mediaItems.contains c = true →
      ReconcileSteps py L G db (log ++ [⟨db₁, c, d⟩]) (db₁.mergeItem now c d) ∧
        (db₁.mergeItem now c d).mediaItems.contains c = true := by
    intro db₁ log hsteps hc₁
    have hd₁ := hd.later hsteps.remains hc₁
    refine ⟨hsteps.tail (.merge now ⟨db₁, c, d⟩ hd.ne hc₁ hd₁.kind fun hG =>
      .inr (.inr (hd₁.manual hG))), ?_⟩
    exact (db₁.mergeItem_spec now hd.ne).contains_iff.2 ⟨hc₁, hd.ne⟩
  by_cases hshow : db.identityRows.kindOf c = some .show
  · have hrun := mergeHierarchy_run now hd.ne fun _ => hr.parentOf hshow rfl
    have hkept := (hrun.other_kept hshow (by decide) (by decide)).1
    have hsteps : ReconcileSteps py L G db (db.mergeHierarchy now c d).2
        (db.mergeHierarchy now c d).1 :=
      hierarchy_steps hrun hl hshow
    unfold mergePair
    generalize db.mergeHierarchy now c d = merged at hkept hsteps ⊢
    obtain ⟨db₁, log⟩ := merged
    dsimp only at hkept hsteps ⊢
    exact hmerge db₁ log hsteps (IdentityRows.contains_of_kindOf hkept)
  · rw [mergePair_of_not_show now d hshow]
    dsimp only
    have hsingle := hmerge db [] (.refl db) hc
    rw [List.nil_append] at hsingle
    exact hsingle

theorem mergeDuplicates_steps (now : Time) {items : List Nat} (hr : db.Rooted) (hl : L → db.Layered)
    (hc : db.mediaItems.contains c = true) (hd : ∀ d ∈ items, c ≠ d → Duplicate L G c d db) :
    ReconcileSteps py L G db (db.mergeDuplicates now c items).2
      (db.mergeDuplicates now c items).1 := by
  have hloop : ∀ (duplicates : List Nat) (acc : Database × List MergeStep),
      (∀ d ∈ duplicates, Duplicate L G c d db) →
      ReconcileSteps py L G db acc.2 acc.1 → acc.1.mediaItems.contains c = true →
        ReconcileSteps py L G db (duplicates.foldl (mergeDuplicate now c) acc).2
          (duplicates.foldl (mergeDuplicate now c) acc).1 := by
    intro duplicates
    induction duplicates with
    | nil => exact fun _ _ hsteps _ => hsteps
    | cons d duplicates ih =>
      intro acc hd hsteps hc
      obtain ⟨hmerged, hc'⟩ := mergePair_steps now (hsteps.rooted hr)
        (fun hL => hsteps.layered hL (hl hL)) hc ((hd d List.mem_cons_self).later hsteps.remains hc)
      rw [List.foldl_cons]
      unfold mergeDuplicate
      generalize acc.1.mergePair now c d = merged at hmerged hc' ⊢
      obtain ⟨db', log⟩ := merged
      exact ih (db', acc.2 ++ log) (fun d' hd' => hd d' (List.mem_cons_of_mem d hd'))
        (hsteps.trans hmerged) hc'
  refine hloop _ (db, []) (fun d hmem => ?_) (.refl db) hc
  obtain ⟨hd', hne⟩ := List.mem_filter.1 hmem
  exact hd d hd' fun heq => by simp [heq] at hne

end Pairs

end Database

end Euvieouvi
