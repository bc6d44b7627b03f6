import Euvieouvi.Reconcile.Hierarchy

/-!
# What a merge conserves

A merge of two items moves every event, reference and descendant of the loser to an item that takes
the place of its own, leaves everything else alone, and joins what is known about the two. What the
winner ends with depends only on which items were merged into it, so the order does not matter.
Below a show it can matter which of several episodes its own one takes in.
-/

namespace Euvieouvi

/-- `i` is `root` or below it. -/
inductive Under (db : Database) (root : Nat) : Nat → Prop
  | self : Under db root root
  | child {i p : Nat} : db.identityRows.parentOf i = some p → Under db root p → Under db root i

section Logs
variable {kept lost : Nat} {log : List MergeStep} {db db' : Database}

theorem HierarchyMerge.loserKind {step : MergeStep} (h : HierarchyMerge kept lost log step) :
    step.before.identityRows.kindOf step.loser = some .episode ∨
      step.before.identityRows.kindOf step.loser = some .season := by
  cases h with
  | season hp => exact .inr hp.loserKind
  | episode _ _ hs => exact .inl hs.kind

theorem HierarchyMerge.winnerParent {step : MergeStep} (h : HierarchyMerge kept lost log step) :
    ∃ p, step.before.identityRows.parentOf step.winner = some p := by
  cases h with
  | season hp => exact ⟨_, hp.winnerParent⟩
  | episode _ _ hs => exact ⟨_, hs.winner⟩

theorem HierarchyMerge.ne {step : MergeStep} (h : HierarchyMerge kept lost log step) :
    step.winner ≠ step.loser := by
  cases h with
  | season hp => exact hp.ne
  | episode _ _ hs hp => exact hs.ne hp.ne

theorem HierarchyMove.kind {parent i : Nat} (h : HierarchyMove kept lost log db parent i) :
    db.identityRows.kindOf i = some .episode ∨ db.identityRows.kindOf i = some .season := by
  cases h with
  | season hs => exact .inr hs.kind
  | episode _ _ hs => exact .inl hs.kind

theorem HierarchyMove.present {parent i : Nat} (h : HierarchyMove kept lost log db parent i) :
    db.mediaItems.contains parent = true ∧ db.mediaItems.contains i = true := by
  cases h with
  | season hs => exact ⟨hs.parent ▸ hs.present, IdentityRows.contains_of_kindOf hs.kind⟩
  | episode _ _ hs => exact ⟨hs.parent ▸ hs.present, IdentityRows.contains_of_kindOf hs.kind⟩

/-- An item that is neither an episode nor a season stays what it is. -/
theorem MergeRun.other_kept {L : List MergeStep} {i : Nat} {kind : MediaKind}
    (h : MergeRun (HierarchyMerge kept lost L) (HierarchyMove kept lost L) db log db')
    (hkind : db.identityRows.kindOf i = some kind) (hepisode : kind ≠ .episode)
    (hseason : kind ≠ .season) :
    db'.identityRows.kindOf i = some kind ∧ survivorOf log i = i := by
  induction h with
  | refl => exact ⟨hkind, rfl⟩
  | @merge _ _ _ step _ hb hm hs ih =>
    subst hb
    have hne : i ≠ step.loser := by
      rintro rfl
      rcases hm.loserKind with hl | hl <;> rw [ih.1] at hl <;> cases hl
      exacts [hepisode rfl, hseason rfl]
    refine ⟨(hs.kindOf_eq hne).trans ih.1, ?_⟩
    rw [survivorOf_concat, Function.comp_apply, ih.2, mergeInto_of_ne hne]
  | move _ _ hs ih => exact ⟨hs.kindOf_eq.trans ih.1, ih.2⟩

/-- Nothing is merged into an item of such a kind that has no parent. -/
theorem MergeRun.root_kept {L : List MergeStep} {i : Nat} {kind : MediaKind}
    (h : MergeRun (HierarchyMerge kept lost L) (HierarchyMove kept lost L) db log db')
    (hkind : db.identityRows.kindOf i = some kind) (hepisode : kind ≠ .episode)
    (hseason : kind ≠ .season) (hroot : db.identityRows.parentOf i = none) :
    db'.identityRows.parentOf i = none ∧ ∀ j, survivorOf log j = i → j = i := by
  induction h with
  | refl => exact ⟨hroot, fun j hj => hj⟩
  | @merge _ _ _ step hrun hb hm hs ih =>
    subst hb
    have hkept := (hrun.other_kept hkind hepisode hseason).1
    have hne : i ≠ step.loser := by
      rintro rfl
      rcases hm.loserKind with hl | hl <;> rw [hkept] at hl <;> cases hl
      exacts [hepisode rfl, hseason rfl]
    have hwinner : step.winner ≠ i := by
      rintro rfl
      obtain ⟨p, hp⟩ := hm.winnerParent
      rw [ih.1] at hp; cases hp
    refine ⟨by rw [hs.parentOf_eq hne, ih.1]; rfl, fun j hj => ih.2 j ?_⟩
    rw [survivorOf_concat, Function.comp_apply] at hj
    unfold mergeInto at hj
    split at hj
    exacts [absurd hj hwinner, hj]
  | @move _ _ _ parent j hrun hv hs ih =>
    have hkept := (hrun.other_kept hkind hepisode hseason).1
    have hpresent := hv.present.2
    have hne : i ≠ j := by
      rintro rfl
      rcases hv.kind with hk | hk <;> rw [hkept] at hk <;> cases hk
      exacts [hepisode rfl, hseason rfl]
    exact ⟨by rw [hs.parentOf_eq hpresent, if_neg hne, ih.1], ih.2⟩

end Logs

namespace MergeRun
variable {M : MergeStep → Prop} {V : Database → Nat → Nat → Prop} {db db' : Database}
  {log : List MergeStep}

/-- No parent was merged away. -/
theorem parents_survive (hM : ∀ step, M step → step.winner ≠ step.loser ∧
      step.before.mediaItems.contains step.winner = true)
    (hV : ∀ db parent i, V db parent i → db.mediaItems.contains parent = true ∧
      db.mediaItems.contains i = true)
    (h : MergeRun M V db log db') {i p : Nat} (hp : db'.identityRows.parentOf i = some p) :
    survivorOf log p = p := by
  induction h generalizing i p with
  | refl => rfl
  | @merge _ _ log step hrun hb hm hs ih =>
    subst hb
    obtain ⟨hne, hwinner⟩ := hM _ hm
    have hfixed : survivorOf log step.winner = step.winner :=
      (((hrun.merged hM).items _).1 hwinner).2
    have hi : i ≠ step.loser := (hs.contains_iff.1 (IdentityRows.contains_of_parentOf hp)).2
    rw [hs.parentOf_eq hi] at hp
    obtain ⟨q, hq, hinto⟩ := Option.map_eq_some_iff.1 hp
    rw [survivorOf_concat, Function.comp_apply]
    by_cases hql : q = step.loser
    · rw [hql, mergeInto_loser] at hinto
      rw [← hinto, hfixed, mergeInto_of_ne hne]
    · rw [mergeInto_of_ne hql] at hinto
      rw [← hinto, ih hq, mergeInto_of_ne hql]
  | @move _ _ log parent j hrun hv hs ih =>
    obtain ⟨hparent, hpresent⟩ := hV _ _ _ hv
    rw [hs.parentOf_eq hpresent] at hp
    split at hp
    · rw [← Option.some_inj.1 hp]
      exact (((hrun.merged hM).items _).1 hparent).2
    · exact ih hp

/-- Two items that were merged have the same survivor. -/
theorem joined (hM : ∀ step, M step → step.winner ≠ step.loser ∧
      step.before.mediaItems.contains step.winner = true)
    (hloser : ∀ step, M step → step.before.mediaItems.contains step.loser = true)
    (h : MergeRun M V db log db') :
    ∀ step ∈ log, survivorOf log step.winner = survivorOf log step.loser := by
  induction h with
  | refl => exact fun _ h => absurd h List.not_mem_nil
  | @merge _ _ log step hrun hb hm hs ih =>
    subst hb
    obtain ⟨hne, hwinner⟩ := hM _ hm
    intro step' hstep'
    simp only [survivorOf_concat, Function.comp_apply]
    rcases List.mem_append.1 hstep' with hstep' | hstep'
    · rw [ih step' hstep']
    · obtain rfl := List.mem_singleton.1 hstep'
      have hmerged := hrun.merged hM
      rw [((hmerged.items _).1 hwinner).2, ((hmerged.items _).1 (hloser _ hm)).2, mergeInto_loser,
        mergeInto_of_ne hne]
  | move _ _ _ ih => exact ih

/-- Up to what is merged in the end, every item keeps its parent. -/
theorem parents (ρ : Nat → Nat)
    (hM : ∀ step, M step → ρ step.winner = ρ step.loser ∧
      (step.before.identityRows.parentOf step.winner).map ρ =
        (step.before.identityRows.parentOf step.loser).map ρ ∧
        step.winner ≠ step.loser)
    (hV : ∀ db parent i, V db parent i → (db.identityRows.parentOf i).map ρ = some (ρ parent) ∧
      db.mediaItems.contains i = true) (h : MergeRun M V db log db') (i : Nat) :
    (db'.identityRows.parentOf (survivorOf log i)).map ρ = (db.identityRows.parentOf i).map ρ := by
  induction h with
  | refl => rfl
  | @merge _ _ log step _ hb hm hs ih =>
    subst hb
    obtain ⟨hjoined, hparents, hne⟩ := hM _ hm
    have hinto : ρ ∘ mergeInto step.winner step.loser = ρ := by
      funext p
      by_cases hp : p = step.loser
      · rw [Function.comp_apply, hp, mergeInto_loser, hjoined]
      · rw [Function.comp_apply, mergeInto_of_ne hp]
    rw [survivorOf_concat, Function.comp_apply, ← ih]
    by_cases hl : survivorOf log i = step.loser
    · rw [hl, mergeInto_loser, hs.parentOf_eq hne, Option.map_map, hinto, hparents]
    · rw [mergeInto_of_ne hl, hs.parentOf_eq hl, Option.map_map, hinto]
  | @move _ _ log parent j _ hv hs ih =>
    obtain ⟨hparent, hpresent⟩ := hV _ _ _ hv
    rw [hs.parentOf_eq hpresent, ← ih]
    split
    next heq => rw [heq, hparent]; rfl
    next => rfl

end MergeRun

/-! ### Descendants -/

namespace Under
variable {db db' : Database} {root w l parent i j : Nat}

theorem merge (h : Under db root i) (hs : MergeItem w l db db') (hroot : root ≠ l)
    (hw : Under db' root w) :
    Under db' root (mergeInto w l i) := by
  induction h with
  | self => rw [mergeInto_of_ne hroot]; exact .self
  | @child i p hp _ ih =>
    by_cases hi : i = l
    · rw [hi, mergeInto_loser]; exact hw
    · rw [mergeInto_of_ne hi]
      exact .child (by rw [hs.parentOf_eq hi, hp, Option.map_some]) ih

theorem move (h : Under db root i) (hs : MoveItem parent j db db')
    (hj : db.mediaItems.contains j = true)
    (hparent : Under db' root parent) : Under db' root i := by
  induction h with
  | self => exact .self
  | @child i p hp _ ih =>
    by_cases hi : i = j
    · exact .child (by rw [hs.parentOf_eq hj, if_pos hi]) hparent
    · exact .child (by rw [hs.parentOf_eq hj, if_neg hi, hp]) ih

theorem not_of_parent (hne : i ≠ root)
    (hparent : ∀ p, db.identityRows.parentOf i = some p → ¬ Under db root p) :
    ¬ Under db root i := by
  intro h
  cases h with
  | self => exact hne rfl
  | child hp hu => exact hparent _ hp hu

end Under

section Descendants
variable {kept lost : Nat} {db db' db'' : Database} {log L : List MergeStep}

/-- What the parents of a hierarchy look like while it is merged: an item is below the winner, or
where it was. -/
def SameParents (kept : Nat) (db db' : Database) : Prop :=
  ∀ i, db'.mediaItems.contains i = true → db'.identityRows.parentOf i = db.identityRows.parentOf i ∨
    Under db' kept i

theorem HierarchyMerge.under {step : MergeStep} (h : HierarchyMerge kept lost L step)
    (hs : MergeItem step.winner step.loser step.before db') :
    kept ≠ step.loser ∧ Under db' kept step.winner := by
  have hne := h.ne
  cases h with
  | season hp =>
    have hkept : kept ≠ step.loser := by
      intro heq; have := hp.keptKind; rw [heq, hp.loserKind] at this; cases this
    refine ⟨hkept, .child ?_ .self⟩
    rw [hs.parentOf_eq hne, hp.winnerParent, Option.map_some, mergeInto_of_ne hkept]
  | episode seasons _ hm hp =>
    have hkept : kept ≠ step.loser := by
      intro heq; have := hp.keptKind; rw [heq, hm.kind] at this; cases this
    have hseason : seasons.winner ≠ step.loser := by
      intro heq; have := hp.winnerKind; rw [heq, hm.kind] at this; cases this
    refine ⟨hkept, .child (p := seasons.winner) ?_ (.child ?_ .self)⟩
    · rw [hs.parentOf_eq hne, hm.winner, Option.map_some, mergeInto_of_ne hseason]
    · rw [hs.parentOf_eq hseason, hp.winnerParent, Option.map_some, mergeInto_of_ne hkept]

theorem HierarchyMove.under {parent i : Nat} (h : HierarchyMove kept lost L db parent i)
    (hs : MoveItem parent i db db') :
    Under db' kept parent := by
  have hpresent := h.present.2
  cases h with
  | season hv => rw [hv.parent]; exact .self
  | episode seasons _ hv hp =>
    have hseason : seasons.winner ≠ i := by
      intro heq; have := hp.winnerKind; rw [heq, hv.kind] at this; cases this
    rw [hv.parent]
    refine .child ?_ .self
    rw [hs.parentOf_eq hpresent, if_neg hseason, hp.winnerParent]

theorem HierarchyMerge.loser_under {step : MergeStep} (h : HierarchyMerge kept lost L step)
    (hne : kept ≠ lost)
    (hkind : step.before.identityRows.kindOf lost = some .show)
    (hroot : step.before.identityRows.parentOf lost = none)
    (hsame : SameParents kept db step.before) : Under db lost step.loser := by
  have hlost : ¬ Under step.before kept lost :=
    Under.not_of_parent hne.symm fun p hp => by rw [hroot] at hp; cases hp
  -- an item directly below `lost`, other than `kept`, is below it from the start
  have hchild : ∀ i, step.before.identityRows.parentOf i = some lost →
      step.before.identityRows.kindOf i ≠ step.before.identityRows.kindOf kept →
        Under db lost i ∧ ¬ Under step.before kept i := by
    intro i hi hkindne
    have hnot : ¬ Under step.before kept i :=
      Under.not_of_parent (fun heq => hkindne (by rw [heq])) fun p hp => by
        rw [hi] at hp; rw [← Option.some_inj.1 hp]; exact hlost
    rcases hsame i (IdentityRows.contains_of_parentOf hi) with heq | hunder
    · exact ⟨.child (heq ▸ hi) .self, hnot⟩
    · exact absurd hunder hnot
  cases h with
  | season hp =>
    exact (hchild _ (hp.loserParent hkind) (by rw [hp.loserKind, hp.keptKind]; decide)).1
  | episode seasons _ hm hp =>
    obtain ⟨hseason, hnot⟩ :=
      hchild _ (hp.loserParent hkind) (by rw [hp.loserKind, hp.keptKind]; decide)
    have hepisode : ¬ Under step.before kept step.loser :=
      Under.not_of_parent (fun heq => by
          have := hp.keptKind; rw [← heq, hm.kind] at this; cases this) fun p hp => by
        rw [hm.loser] at hp; rw [← Option.some_inj.1 hp]; exact hnot
    rcases hsame _ (IdentityRows.contains_of_parentOf hm.loser) with heq | hunder
    · exact .child (heq ▸ hm.loser) hseason
    · exact absurd hunder hepisode

/-- Only descendants of the lost show are merged before the show itself. -/
theorem MergeRun.only_descendants
    (h : MergeRun (HierarchyMerge kept lost L) (HierarchyMove kept lost L) db log db')
    (hne : kept ≠ lost) (hkind : db.identityRows.kindOf lost = some .show)
    (hroot : db.identityRows.parentOf lost = none) :
    SameParents kept db db' ∧ ∀ i, survivorOf log i ≠ i → Under db lost i := by
  induction h with
  | refl => exact ⟨fun i _ => .inl rfl, fun i hi => absurd rfl hi⟩
  | @merge _ _ log step hrun hb hm hs ih =>
    subst hb
    obtain ⟨hsame, honly⟩ := ih
    obtain ⟨hkept, hwinner⟩ := hm.under hs
    refine ⟨fun i hi => ?_, fun i hi => ?_⟩
    · obtain ⟨hi, hil⟩ := hs.contains_iff.1 hi
      rcases hsame i hi with heq | hunder
      · cases hp : step.before.identityRows.parentOf i with
        | none => exact .inl (by rw [hs.parentOf_eq hil, ← heq, hp]; rfl)
        | some p =>
          by_cases hpl : p = step.loser
          · exact .inr (.child
              (by rw [hs.parentOf_eq hil, hp, hpl, Option.map_some, mergeInto_loser]) hwinner)
          · exact .inl (by rw [hs.parentOf_eq hil, ← heq, hp, Option.map_some, mergeInto_of_ne hpl])
      · have := hunder.merge hs hkept hwinner
        rw [mergeInto_of_ne hil] at this
        exact .inr this
    · by_cases hfixed : survivorOf log i = i
      · rw [survivorOf_concat, Function.comp_apply, hfixed] at hi
        have hil : i = step.loser := by
          by_contra hil
          exact hi (mergeInto_of_ne hil)
        rw [hil]
        exact hm.loser_under hne (hrun.other_kept hkind (by decide) (by decide)).1
          (hrun.root_kept hkind (by decide) (by decide) hroot).1 hsame
      · exact honly i hfixed
  | @move _ _ log parent j hrun hv hs ih =>
    obtain ⟨hsame, honly⟩ := ih
    have hparent := hv.under hs
    refine ⟨fun i hi => ?_, honly⟩
    rw [hs.contains_eq] at hi
    by_cases hij : i = j
    · exact .inr (.child (by rw [hs.parentOf_eq hv.present.2, if_pos hij]) hparent)
    · rw [hs.parentOf_eq hv.present.2, if_neg hij]
      exact (hsame i hi).imp_right fun hunder => hunder.move hs hv.present.2 hparent

end Descendants

/-! ### A pair -/

/-- `w` and the items that are to be merged into it: they exist and are of one kind, and a show is
below nothing. -/
structure Mergeable (db : Database) (w : Nat) (duplicates : List Nat) : Prop where
  winner : db.mediaItems.contains w = true
  nodup : duplicates.Nodup
  ne : ∀ d ∈ duplicates, d ≠ w
  present : ∀ d ∈ duplicates, db.mediaItems.contains d = true
  kind : ∀ d ∈ duplicates, db.identityRows.kindOf d = db.identityRows.kindOf w
  roots : db.identityRows.kindOf w = some .show → ∀ i ∈ w :: duplicates,
    db.identityRows.parentOf i = none

/-- What merging `l` into `w` conserves; `survivor` tells into which item each was merged. -/
structure Conserved (w l : Nat) (survivor : Nat → Nat) (db db' : Database) : Prop where
  merged : Merged survivor db db'
  loser : survivor l = w
  gone : db'.mediaItems.contains l = false
  /-- Every item but the loser stays below its parent, or below what its parent was merged into. -/
  parents : ∀ i, i ≠ l →
    db'.identityRows.parentOf (survivor i) = (db.identityRows.parentOf i).map survivor
  descendants : ∀ i, Under db l i → Under db' w (survivor i)
  others : ∀ i, ¬ Under db l i → survivor i = i
  winner : ∀ i, survivor i = w ↔ i = w ∨ i = l
  single : db.identityRows.kindOf w ≠ some .show → survivor = mergeInto w l
  state : ∀ source, db'.facts w source = db.facts w source ⊔ db.facts l source

namespace Database
variable {db : Database} {now : Time} {w l : Nat}

/-- The merge of the seasons and episodes leaves the two items as they are. -/
structure TopsKept (w l : Nat) (db db' : Database) (survivor : Nat → Nat) : Prop where
  present : ∀ i, i = w ∨ i = l → db'.mediaItems.contains i = true
  fixed : ∀ i, i = w ∨ i = l → ∀ j, survivor j = i ↔ j = i

theorem mergeHierarchy_tops (now : Time) (h : Mergeable db w [l]) :
    TopsKept w l db (db.mergeHierarchy now w l).1 (survivorOf (db.mergeHierarchy now w l).2) := by
  have hne : w ≠ l := (h.ne l (by simp)).symm
  have hpresent : ∀ i, i = w ∨ i = l → db.mediaItems.contains i = true := by
    rintro i (rfl | rfl)
    exacts [h.winner, h.present _ (by simp)]
  have hkind : ∀ i, i = w ∨ i = l → db.identityRows.kindOf i = db.identityRows.kindOf w := by
    rintro i (rfl | rfl)
    exacts [rfl, h.kind _ (by simp)]
  by_cases hshow : db.identityRows.kindOf w = some .show
  · have hroots := h.roots hshow
    have hroot : ∀ i, i = w ∨ i = l → db.identityRows.parentOf i = none :=
      fun i hi => hroots i (by simpa using hi)
    have hrun := mergeHierarchy_run now hne fun _ => hroot w (.inl rfl)
    refine ⟨fun i hi => ?_, fun i hi j => ⟨fun hj => ?_, ?_⟩⟩
    · exact IdentityRows.contains_of_kindOf
        (hrun.other_kept ((hkind i hi).trans hshow) (by decide) (by decide)).1
    · exact (hrun.root_kept ((hkind i hi).trans hshow) (by decide) (by decide) (hroot i hi)).2 j hj
    · rintro rfl
      exact (hrun.other_kept ((hkind j hi).trans hshow) (by decide) (by decide)).2
  · have hnothing : db.mergeHierarchy now w l = (db, []) := if_pos hshow
    rw [hnothing]
    exact ⟨hpresent, fun i _ j => Iff.rfl⟩

/-- The parents of the steps of a hierarchy agree once its seasons and shows are merged. -/
theorem hierarchy_parents {db' : Database} {log : List MergeStep} {ρ : Nat → Nat}
    (h : MergeRun (HierarchyMerge w l log) (HierarchyMove w l log) db log db')
    (hshow : db.identityRows.kindOf l = some .show) (htop : ρ w = ρ l)
    (hjoined : ∀ step ∈ log, ρ step.winner = ρ step.loser) (i : Nat) :
    (db'.identityRows.parentOf (survivorOf log i)).map ρ = (db.identityRows.parentOf i).map ρ := by
  have hkept := (h.strengthen (I := fun db => db.identityRows.kindOf l = some .show) hshow
    (fun step db' hm hs hI => by
      have hne : l ≠ step.loser := by
        rintro rfl
        rcases hm.loserKind with hl | hl <;> rw [hI] at hl <;> cases hl
      exact (hs.kindOf_eq hne).trans hI)
    fun _ _ _ _ _ hs hI => hs.kindOf_eq.trans hI).1.mem_log
  refine hkept.parents ρ (fun step ⟨⟨hm, hI⟩, hmem⟩ => ?_) (fun db parent i ⟨hv, hI⟩ => ?_) i
  · refine ⟨hjoined step hmem, ?_, hm.ne⟩
    cases hm with
    | season hp => rw [hp.winnerParent, hp.loserParent hI, Option.map_some, Option.map_some, htop]
    | episode seasons hseasons hm =>
      rw [hm.winner, hm.loser, Option.map_some, Option.map_some, hjoined _ hseasons]
  · refine ⟨?_, hv.present.2⟩
    cases hv with
    | season hv => rw [hv.loser hI, hv.parent, Option.map_some, htop]
    | episode seasons hseasons hv => rw [hv.loser, hv.parent, Option.map_some, hjoined _ hseasons]

/-- The parent of an item that stays is what its parent before is merged into, if that is what
survives. -/
theorem parentOf_merged {d after : Database} {σ : Nat → Nat} {x : Nat} (hm : MergeItem w l d after)
    (hx : x ≠ l) (hlost : σ l = w)
    (hsurvive : ∀ p, after.identityRows.parentOf x = some p → σ p = p) :
    after.identityRows.parentOf x = (d.identityRows.parentOf x).map σ := by
  rw [hm.parentOf_eq hx] at hsurvive ⊢
  cases hp : d.identityRows.parentOf x with
  | none => rfl
  | some p =>
    rw [hp] at hsurvive
    have hfix := hsurvive _ rfl
    rw [Option.map_some, Option.map_some]
    by_cases hpl : p = l
    · rw [hpl, mergeInto_loser, hlost]
    · rw [mergeInto_of_ne hpl] at hfix ⊢
      rw [hfix]

/-- What was below the lost item is below what it was merged into. -/
theorem under_merged {after : Database} {σ : Nat → Nat} (hlost : σ l = w)
    (hparents : ∀ i, i ≠ l →
      after.identityRows.parentOf (σ i) = (db.identityRows.parentOf i).map σ) {i : Nat}
    (h : Under db l i) : Under after w (σ i) := by
  induction h with
  | self => rw [hlost]; exact .self
  | @child i p hp _ ih =>
    by_cases hil : i = l
    · rw [hil, hlost]; exact .self
    · exact .child (by rw [hparents i hil, hp, Option.map_some]) ih

/-- The state of an item into which one other was merged is the join of the two. -/
theorem facts_merged_two {after : Database} {σ : Nat → Nat} (h : Merged σ db after)
    (hwinner : ∀ i, σ i = w ↔ i = w ∨ i = l) (source : Nat) :
    after.facts w source = db.facts w source ⊔ db.facts l source := by
  have hset : {f | ∃ j, σ j = w ∧ f = db.facts j source} =
      {db.facts w source, db.facts l source} := by
    ext f
    simp only [hwinner]
    simp
  have hlub := h.facts w source
  rw [hset] at hlub
  exact hlub.unique isLUB_pair

theorem mergePair_conserved (now : Time) (h : Mergeable db w [l]) :
    Conserved w l (survivorOf (db.mergePair now w l).2) db (db.mergePair now w l).1 := by
  have hne : w ≠ l := (h.ne l (by simp)).symm
  have hkind : db.identityRows.kindOf l = db.identityRows.kindOf w := h.kind l (by simp)
  have hroots : ∀ i, i = w ∨ i = l → db.identityRows.kindOf w = some .show →
      db.identityRows.parentOf i = none :=
    fun i hi hshow => h.roots hshow i (by simpa using hi)
  have hrun := mergeHierarchy_run now hne (hroots w (.inl rfl))
  obtain ⟨hpresent, hfixed⟩ := mergeHierarchy_tops now h
  have hnothing : db.identityRows.kindOf w ≠ some .show → db.mergeHierarchy now w l = (db, []) :=
    fun hshow => if_pos hshow
  unfold mergePair
  generalize db.mergeHierarchy now w l = merged at *
  obtain ⟨d, log⟩ := merged
  dsimp only at *
  have hm := d.mergeItem_spec now hne
  generalize d.mergeItem now w l = after at *
  set step : MergeStep := ⟨d, w, l⟩ with hstep
  -- the whole pair as one run
  let M : MergeStep → Prop := fun s => HierarchyMerge w l log s ∨ s = step
  have htotal : MergeRun M (HierarchyMove w l log) db (log ++ [step]) after :=
    (hrun.mono (fun _ hs => .inl hs) fun _ _ _ hv => hv).merge rfl (.inr rfl) hm
  have hM : ∀ s, M s → s.winner ≠ s.loser ∧ s.before.mediaItems.contains s.winner = true := by
    rintro s (hs | rfl)
    · exact ⟨hs.ne, IdentityRows.contains_of_parentOf hs.winnerParent.choose_spec⟩
    · exact ⟨hne, hpresent w (.inl rfl)⟩
  have hloser : ∀ s, M s → s.before.mediaItems.contains s.loser = true := by
    rintro s (hs | rfl)
    · rcases hs.loserKind with hk | hk <;> exact IdentityRows.contains_of_kindOf hk
    · exact hpresent l (.inr rfl)
  have hmerged := htotal.merged hM
  have hjoined := htotal.joined hM hloser
  have hσ : ∀ i, survivorOf (log ++ [step]) i = mergeInto w l (survivorOf log i) := fun i => by
    rw [survivorOf_concat]; rfl
  have htop : survivorOf (log ++ [step]) w = survivorOf (log ++ [step]) l := hjoined step (by simp)
  have hlost : survivorOf (log ++ [step]) l = w := by
    rw [hσ, (hfixed l (.inr rfl) l).2 rfl, mergeInto_loser]
  have hparents : ∀ i, i ≠ l → after.identityRows.parentOf (survivorOf (log ++ [step]) i) =
      (db.identityRows.parentOf i).map (survivorOf (log ++ [step])) := by
    intro i hi
    have hsame : (d.identityRows.parentOf (survivorOf log i)).map (survivorOf (log ++ [step])) =
        (db.identityRows.parentOf i).map (survivorOf (log ++ [step])) := by
      by_cases hshow : db.identityRows.kindOf w = some .show
      · exact hierarchy_parents hrun (hkind.trans hshow) htop
          (fun s hs => hjoined s (List.mem_append_left _ hs)) i
      · obtain ⟨rfl, rfl⟩ := Prod.mk.inj (hnothing hshow)
        rfl
    have hnot : survivorOf log i ≠ l := fun heq => hi ((hfixed l (.inr rfl) i).1 heq)
    have hsurvive : ∀ p, after.identityRows.parentOf (survivorOf log i) = some p →
        survivorOf (log ++ [step]) p = p :=
      fun p hp => htotal.parents_survive hM (fun _ _ _ hv => hv.present) hp
    rw [← hsame, hσ, mergeInto_of_ne hnot]
    exact parentOf_merged hm hnot hlost hsurvive
  have hwinner : ∀ i, survivorOf (log ++ [step]) i = w ↔ i = w ∨ i = l := by
    intro i
    rw [hσ, MergeItem.mergeInto_eq_iff hne, hfixed w (.inl rfl), hfixed l (.inr rfl)]
    exact ⟨fun h => h.2.imp_right And.right, fun h => ⟨hne, h.imp_right fun h => ⟨rfl, h⟩⟩⟩
  refine ⟨hmerged, hlost, ?_, hparents, fun i hi => under_merged hlost hparents hi,
    fun i hi => ?_, hwinner, fun hshow => ?_, facts_merged_two hmerged hwinner⟩
  · exact Bool.eq_false_iff.2 fun hc => (hm.contains_iff.1 hc).2 rfl
  · have hil : i ≠ l := by rintro rfl; exact hi .self
    have hfix : survivorOf log i = i := by
      by_cases hshow : db.identityRows.kindOf w = some .show
      · by_contra hmoved
        exact hi
          ((hrun.only_descendants hne (hkind.trans hshow) (hroots l (.inr rfl) hshow)).2 i hmoved)
      · obtain ⟨-, rfl⟩ := Prod.mk.inj (hnothing hshow)
        rfl
    rw [hσ, hfix, mergeInto_of_ne hil]
  · obtain ⟨-, rfl⟩ := Prod.mk.inj (hnothing hshow)
    rfl

end Database

/-! ### Any number of duplicates -/

theorem Mergeable.head {db : Database} {w d : Nat} {duplicates : List Nat}
    (h : Mergeable db w (d :: duplicates)) : Mergeable db w [d] := by
  refine ⟨h.winner, by simp, ?_, ?_, ?_, fun hshow i hi => h.roots hshow i ?_⟩
  · simpa using h.ne d List.mem_cons_self
  · simpa using h.present d List.mem_cons_self
  · simpa using h.kind d List.mem_cons_self
  · have : i = w ∨ i = d := by simpa using hi
    rcases this with rfl | rfl <;> simp

namespace Conserved
variable {db db' : Database} {w l i : Nat} {σ : Nat → Nat} {duplicates : List Nat}

theorem fixed (hc : Conserved w l σ db db') (h : Mergeable db w (l :: duplicates))
    (hi : i ∈ duplicates) : σ i = i := by
  have hil : i ≠ l := by rintro rfl; exact (List.nodup_cons.1 h.nodup).1 hi
  by_cases hshow : db.identityRows.kindOf w = some .show
  · refine hc.others i (Under.not_of_parent hil fun p hp => ?_)
    rw [h.roots hshow i (by simp [hi])] at hp
    cases hp
  · rw [hc.single hshow, mergeInto_of_ne hil]

/-- What is left to merge can be merged. -/
theorem mergeable (hc : Conserved w l σ db db') (h : Mergeable db w (l :: duplicates)) :
    Mergeable db' w duplicates := by
  have hfixed : ∀ i ∈ w :: duplicates, σ i = i := by
    intro i hi
    rcases List.mem_cons.1 hi with rfl | hi
    exacts [(hc.winner i).2 (.inl rfl), hc.fixed h hi]
  have hpresent : ∀ i ∈ w :: duplicates, db'.mediaItems.contains i = true := by
    intro i hi
    rw [← hfixed i hi]
    refine hc.merged.survives i ?_
    rcases List.mem_cons.1 hi with rfl | hi
    exacts [h.winner, h.present i (List.mem_cons_of_mem _ hi)]
  have hkinds : ∀ i ∈ w :: duplicates,
      db'.identityRows.kindOf i = db.identityRows.kindOf i := fun i hi =>
    hc.merged.kinds i (hpresent i hi)
  refine ⟨hpresent w (by simp), (List.nodup_cons.1 h.nodup).2, fun d hd =>
    h.ne d (List.mem_cons_of_mem _ hd),
    fun d hd => hpresent d (List.mem_cons_of_mem _ hd), fun d hd => ?_, fun hshow i hi => ?_⟩
  · rw [hkinds d (List.mem_cons_of_mem _ hd), hkinds w (by simp)]
    exact h.kind d (List.mem_cons_of_mem _ hd)
  · rw [hkinds w (by simp)] at hshow
    have hil : i ≠ l := by
      rintro rfl
      rcases List.mem_cons.1 hi with heq | hi
      · exact h.ne i (by simp) heq
      · exact (List.nodup_cons.1 h.nodup).1 hi
    have hparent := hc.parents i hil
    rw [hfixed i hi,
      h.roots hshow i (by rcases List.mem_cons.1 hi with rfl | hi <;> simp [*])] at hparent
    exact hparent

/-- Nothing is merged into a duplicate that is still to be merged. -/
theorem only_fixed {j : Nat} (hc : Conserved w l σ db db') (h : Mergeable db w (l :: duplicates))
    (hi : i ∈ duplicates) (hj : σ j = i) : j = i := by
  have hiw : i ≠ w := h.ne i (List.mem_cons_of_mem _ hi)
  have hjl : j ≠ l := by rintro rfl; exact hiw (hj.symm.trans hc.loser)
  by_cases hshow : db.identityRows.kindOf w = some .show
  · by_contra hne
    have hunder : Under db l j := by
      by_contra hnot
      exact hne ((hc.others j hnot).symm.trans hj)
    have hroot : db'.identityRows.parentOf i = none := by
      refine (hc.mergeable h).roots ?_ i (List.mem_cons_of_mem _ hi)
      rw [hc.merged.kinds w ((hc.mergeable h).winner), hshow]
    cases hunder with
    | self => exact hjl rfl
    | child hp _ =>
      have hparent := hc.parents j hjl
      rw [hj, hroot, hp] at hparent
      cases hparent
  · rw [hc.single hshow, mergeInto_of_ne hjl] at hj
    exact hj

end Conserved

namespace Conserved
variable {db db' : Database} {w l d i : Nat} {σ : Nat → Nat}

/-- What is below the winner stays there. -/
theorem below (hc : Conserved w l σ db db') (h : Under db w i) : Under db' w (σ i) := by
  induction h with
  | self => rw [(hc.winner w).2 (.inl rfl)]; exact .self
  | @child i p hp _ ih =>
    by_cases hil : i = l
    · rw [hil, hc.loser]; exact .self
    · exact .child (by rw [hc.parents i hil, hp, Option.map_some]) ih

/-- What is below another item stays there, or came below the winner. -/
theorem below_fixed (hc : Conserved w l σ db db') (hd : σ d = d) (h : Under db d i) :
    Under db' d (σ i) ∨ Under db' w (σ i) := by
  induction h with
  | self => rw [hd]; exact .inl .self
  | @child i p hp _ ih =>
    by_cases hil : i = l
    · rw [hil, hc.loser]; exact .inr .self
    · have hparent : db'.identityRows.parentOf (σ i) = some (σ p) := by
        rw [hc.parents i hil, hp, Option.map_some]
      exact ih.imp (.child hparent) (.child hparent)

/-- What is below another item was there before, or below the loser. -/
theorem of_below_fixed (hc : Conserved w l σ db db') (hd : ∀ j, σ j = d → j = d) {j : Nat}
    (h : Under db' d j) :
    ∀ i, σ i = j → Under db l i ∨ Under db d i := by
  induction h with
  | self => exact fun i hi => .inr (hd i hi ▸ .self)
  | @child j p hp _ ih =>
    rintro i rfl
    by_cases hil : i = l
    · exact .inl (hil ▸ .self)
    · rw [hc.parents i hil] at hp
      obtain ⟨q, hq, hqp⟩ := Option.map_eq_some_iff.1 hp
      exact (ih q hqp).imp (.child hq) (.child hq)

end Conserved

/-- All the duplicates are merged into `w`. -/
structure AllMerged (w : Nat) (duplicates : List Nat) (survivor : Nat → Nat)
    (db db' : Database) : Prop where
  merged : Merged survivor db db'
  winner : ∀ i, survivor i = w ↔ i = w ∨ i ∈ duplicates
  single : db.identityRows.kindOf w ≠ some .show → ∀ i, i ∉ duplicates → survivor i = i
  below : ∀ i, Under db w i → Under db' w (survivor i)
  descendants : ∀ d ∈ duplicates, ∀ i, Under db d i → Under db' w (survivor i)
  others : ∀ i, (∀ d ∈ duplicates, ¬ Under db d i) → survivor i = i

/-- The items of one row in two databases: the same one, or two that are both below `w`. -/
def SamePlace (w : Nat) (db db' : Database) (i i' : Nat) : Prop :=
  i = i' ∨ Under db w i ∧ Under db' w i'

/-- The same is known about `w`, and, unless it is a show, about every item. Below a show the rows
are the same, and only which of its items they belong to may differ. -/
structure SameHistory (w : Nat) (before db db' : Database) : Prop where
  events : db.watchEvents.rows.filter (·.mediaItemId == w) =
    db'.watchEvents.rows.filter (·.mediaItemId == w)
  references : db.sourceMediaRefs.rows.filter (·.mediaItemId == w) =
    db'.sourceMediaRefs.rows.filter (·.mediaItemId == w)
  state : ∀ source, db.facts w source = db'.facts w source
  eventsBelow : ∀ e ∈ db.watchEvents.rows, ∃ i, SamePlace w db db' e.mediaItemId i ∧
    { e with mediaItemId := i } ∈ db'.watchEvents.rows
  referencesBelow : ∀ r ∈ db.sourceMediaRefs.rows, ∃ i, SamePlace w db db' r.mediaItemId i ∧
    { r with mediaItemId := i } ∈ db'.sourceMediaRefs.rows
  stateElsewhere : ∀ i, ¬ Under db w i → ¬ Under db' w i →
    ∀ source, db.facts i source = db'.facts i source
  single : before.identityRows.kindOf w ≠ some .show → db.watchEvents = db'.watchEvents ∧
    db.sourceMediaRefs = db'.sourceMediaRefs ∧ ∀ i source, db.facts i source = db'.facts i source

namespace AllMerged
variable {db db' db'' : Database} {w : Nat} {σ τ : Nat → Nat} {duplicates duplicates' : List Nat}

theorem nil : AllMerged w [] id db db :=
  ⟨Merged.refl _, fun i => by simp, fun _ i _ => rfl, fun _ h => h,
    fun _ hd => absurd hd List.not_mem_nil, fun _ _ => rfl⟩

/-- One duplicate is merged, then the others. -/
theorem cons {d : Nat} (hrest : AllMerged w duplicates τ db' db'') (hc : Conserved w d σ db db')
    (h : Mergeable db w (d :: duplicates)) : AllMerged w (d :: duplicates) (τ ∘ σ) db db'' := by
  refine ⟨hc.merged.trans hrest.merged, fun i => ?_, fun hshow i hi => ?_,
    fun i hi => hrest.below _ (hc.below hi), fun d' hd' i hi => ?_, fun i hi => ?_⟩
  · have hdup : σ i ∈ duplicates ↔ i ∈ duplicates := by
      constructor
      · intro hi
        exact hc.only_fixed h hi rfl ▸ hi
      · intro hi
        rw [hc.fixed h hi]; exact hi
    rw [Function.comp_apply, hrest.winner, hc.winner, hdup, List.mem_cons, or_assoc]
  · have hid : i ≠ d := fun heq => hi (heq ▸ List.mem_cons_self)
    have hfix : σ i = i := by rw [hc.single hshow, mergeInto_of_ne hid]
    rw [Function.comp_apply, hfix]
    refine hrest.single ?_ i fun hmem => hi (List.mem_cons_of_mem _ hmem)
    rwa [hc.merged.kinds w (hc.mergeable h).winner]
  · rcases List.mem_cons.1 hd' with rfl | hd'
    · exact hrest.below _ (hc.descendants i hi)
    · exact (hc.below_fixed (hc.fixed h hd') hi).elim (hrest.descendants d' hd' _)
        (hrest.below _)
  · have hfix : σ i = i := hc.others i (hi d List.mem_cons_self)
    rw [Function.comp_apply, hfix]
    refine hrest.others i fun d' hd' hunder => ?_
    rcases hc.of_below_fixed (fun j hj => hc.only_fixed h hd' hj) hunder i hfix with hunder | hunder
    exacts [hi d List.mem_cons_self hunder, hi d' (List.mem_cons_of_mem _ hd') hunder]

/-- The rows of the winner are the rows of what was merged into it. -/
theorem filter_moved {ρ : Type} (item : ρ → Nat) (move : ρ → Nat → ρ)
    (hmove : ∀ r i, item (move r i) = i) (hwinner : ∀ i, σ i = w ↔ τ i = w) (rows : List ρ) :
    (rows.map fun r => move r (σ (item r))).filter (item · == w) =
      (rows.map fun r => move r (τ (item r))).filter (item · == w) := by
  rw [List.filter_map, List.filter_map]
  have hpred : ∀ r ∈ rows, ((item · == w) ∘ fun r => move r (σ (item r))) r =
      ((item · == w) ∘ fun r => move r (τ (item r))) r := fun r _ => by
    simp only [Function.comp_apply, hmove]
    exact Bool.eq_iff_iff.2 (by simpa using hwinner (item r))
  rw [List.filter_congr hpred]
  refine List.map_congr_left fun r hr => ?_
  have hτ : τ (item r) = w := by simpa [hmove] using (List.mem_filter.1 hr).2
  rw [hτ, (hwinner _).2 hτ]

/-- The state of an item is the one of what was merged into it. -/
theorem facts_eq (h : Merged σ db db') (h' : Merged τ db db'') {i : Nat}
    (hi : ∀ j, σ j = i ↔ τ j = i) (source : Nat) : db'.facts i source = db''.facts i source := by
  have hset : {f | ∃ j, σ j = i ∧ f = db.facts j source} =
      {f | ∃ j, τ j = i ∧ f = db.facts j source} := by
    ext f; simp only [hi]
  have hlub := h.facts i source
  rw [hset] at hlub
  exact hlub.unique (h'.facts i source)

theorem samePlace (h : AllMerged w duplicates σ db db') (h' : AllMerged w duplicates' τ db db'')
    (hsame : ∀ i, i ∈ duplicates ↔ i ∈ duplicates') (i : Nat) :
    SamePlace w db' db'' (σ i) (τ i) := by
  by_cases hi : ∃ d ∈ duplicates, Under db d i
  · obtain ⟨d, hd, hunder⟩ := hi
    exact .inr ⟨h.descendants d hd i hunder, h'.descendants d ((hsame d).1 hd) i hunder⟩
  · simp only [not_exists, not_and] at hi
    rw [h.others i hi, h'.others i fun d hd => hi d ((hsame d).2 hd)]
    exact .inl rfl

/-- Anything but a show goes to the winner or stays. -/
theorem survivor_eq (h : AllMerged w duplicates σ db db') (h' : AllMerged w duplicates' τ db db'')
    (hsame : ∀ i, i ∈ duplicates ↔ i ∈ duplicates')
    (hshow : db.identityRows.kindOf w ≠ some .show) : σ = τ := by
  funext i
  by_cases hi : i ∈ duplicates
  · rw [(h.winner i).2 (.inr hi), (h'.winner i).2 (.inr ((hsame i).1 hi))]
  · rw [h.single hshow i hi, h'.single hshow i fun hi' => hi ((hsame i).2 hi')]

/-- What is known about the winner depends only on what was merged into it. -/
theorem sameHistory (h : AllMerged w duplicates σ db db') (h' : AllMerged w duplicates' τ db db'')
    (hsame : ∀ i, i ∈ duplicates ↔ i ∈ duplicates') : SameHistory w db db' db'' := by
  have hwinner : ∀ i, σ i = w ↔ τ i = w := fun i => by rw [h.winner, h'.winner, hsame]
  have hplace : ∀ i, SamePlace w db' db'' (σ i) (τ i) := h.samePlace h' hsame
  refine ⟨?_, ?_, fun source => facts_eq h.merged h'.merged hwinner source, fun e he => ?_,
    fun r hr => ?_, fun i hi hi' source => ?_, fun hshow => ?_⟩
  · rw [h.merged.events, h'.merged.events]
    exact filter_moved WatchEvent.mediaItemId (fun e i => { e with mediaItemId := i })
      (fun _ _ => rfl) hwinner _
  · rw [h.merged.references, h'.merged.references]
    exact filter_moved SourceMediaRef.mediaItemId (fun r i => { r with mediaItemId := i })
      (fun _ _ => rfl) hwinner _
  · rw [h.merged.events] at he
    obtain ⟨e₀, he₀, rfl⟩ := List.mem_map.1 he
    refine ⟨τ e₀.mediaItemId, hplace _, ?_⟩
    rw [h'.merged.events]
    exact List.mem_map.2 ⟨e₀, he₀, rfl⟩
  · rw [h.merged.references] at hr
    obtain ⟨r₀, hr₀, rfl⟩ := List.mem_map.1 hr
    refine ⟨τ r₀.mediaItemId, hplace _, ?_⟩
    rw [h'.merged.references]
    exact List.mem_map.2 ⟨r₀, hr₀, rfl⟩
  · refine facts_eq h.merged h'.merged (fun j => ⟨?_, ?_⟩) source <;> rintro rfl
    · exact (hplace j).elim Eq.symm fun hunder => absurd hunder.1 hi
    · exact (hplace j).elim id fun hunder => absurd hunder.2 hi'
  · obtain rfl : σ = τ := h.survivor_eq h' hsame hshow
    exact ⟨Table.ext_rows (h.merged.events.trans h'.merged.events.symm),
      Table.ext_rows (h.merged.references.trans h'.merged.references.symm),
      fun i source => facts_eq h.merged h'.merged (fun _ => Iff.rfl) source⟩

end AllMerged

namespace Database
variable {db : Database} {now : Time} {w : Nat}

theorem mergeDuplicates_all (now : Time) (items : List Nat)
    (h : Mergeable db w (items.filter (· ≠ w))) :
    ∃ σ, AllMerged w (items.filter (· ≠ w)) σ db (db.mergeDuplicates now w items).1 := by
  have hloop : ∀ (duplicates : List Nat) (acc : Database × List MergeStep),
      Mergeable acc.1 w duplicates →
      ∃ σ, AllMerged w duplicates σ acc.1
        (duplicates.foldl (mergeDuplicate now w) acc).1 := by
    intro duplicates
    induction duplicates with
    | nil => exact fun acc _ => ⟨id, .nil⟩
    | cons d duplicates ih =>
      intro acc h
      have hc := mergePair_conserved now h.head
      rw [List.foldl_cons]
      unfold mergeDuplicate
      generalize acc.1.mergePair now w d = merged at hc ⊢
      obtain ⟨db', log⟩ := merged
      obtain ⟨τ, hrest⟩ := ih (db', acc.2 ++ log) (hc.mergeable h)
      exact ⟨τ ∘ survivorOf log, hrest.cons hc h⟩
  obtain ⟨σ, hσ⟩ := hloop (items.filter (· ≠ w)) (db, []) h
  exact ⟨σ, hσ⟩

/-- A merge conserves history, and for the winner the order of the merges does not matter. -/
theorem merge_conserves_history (now now' : Time) (db : Database) (w : Nat) :
    (∀ l, Mergeable db w [l] →
      Conserved w l (survivorOf (db.mergePair now w l).2) db (db.mergePair now w l).1) ∧
    ∀ items items' : List Nat, Mergeable db w (items.filter (· ≠ w)) → items.Perm items' →
      SameHistory w db (db.mergeDuplicates now w items).1 (db.mergeDuplicates now' w items').1 := by
  refine ⟨fun l h => mergePair_conserved now h, fun items items' h hperm => ?_⟩
  have hfilter : (items.filter (· ≠ w)).Perm (items'.filter (· ≠ w)) := hperm.filter _
  have h' : Mergeable db w (items'.filter (· ≠ w)) := by
    have hmem : ∀ {d}, d ∈ items'.filter (· ≠ w) → d ∈ items.filter (· ≠ w) := hfilter.mem_iff.2
    refine ⟨h.winner, hfilter.nodup_iff.1 h.nodup, fun d hd => h.ne d (hmem hd),
      fun d hd => h.present d (hmem hd), fun d hd => h.kind d (hmem hd),
      fun hshow i hi => h.roots hshow i ?_⟩
    rcases List.mem_cons.1 hi with rfl | hi
    exacts [List.mem_cons_self, List.mem_cons_of_mem _ (hmem hi)]
  obtain ⟨σ, hσ⟩ := mergeDuplicates_all now items h
  obtain ⟨τ, hτ⟩ := mergeDuplicates_all now' items' h'
  exact hσ.sameHistory hτ fun i => hfilter.mem_iff

/-- One show three times: each with a first season and its first episode, two of them seen on one
source. -/
def tripledShow : Database :=
  let items : List MediaItem := [
    { id := 1, kind := .show, title := "a" }, { id := 2, kind := .show, title := "a" },
    { id := 3, kind := .show, title := "a" },
    { id := 4, kind := .season, parentId := some 1, seasonNumber := some 1 },
    { id := 5, kind := .season, parentId := some 2, seasonNumber := some 1 },
    { id := 6, kind := .season, parentId := some 3, seasonNumber := some 1 },
    { id := 7, kind := .episode, parentId := some 4, seasonNumber := some 1,
      episodeNumber := some 1 },
    { id := 8, kind := .episode, parentId := some 5, seasonNumber := some 1,
      episodeNumber := some 1 },
    { id := 9, kind := .episode, parentId := some 6, seasonNumber := some 1,
      episodeNumber := some 1 }]
  let refs : List SourceMediaRef := [
    { id := 1, sourceId := 1, libraryId := 1, mediaItemId := 7, externalId := "7" },
    { id := 2, sourceId := 2, libraryId := 2, mediaItemId := 8, externalId := "8" },
    { id := 3, sourceId := 2, libraryId := 2, mediaItemId := 9, externalId := "9" }]
  let states : List WatchState := [
    { mediaItemId := 2, sourceId := 1, viewCount := 2, completed := true, observedAt := 5 },
    { mediaItemId := 3, sourceId := 1, lastPlayedAt := some 9, completed := false,
      observedAt := 7 }]
  { Database.empty with
    mediaItems := items.foldl Table.insert .empty
    sourceMediaRefs := refs.foldl Table.insert .empty
    watchStates := states.foldl Table.insert .empty }

theorem tripledShow_mergeable : Mergeable tripledShow 1 [2, 3] where
  winner := by decide
  nodup := by decide
  ne := by decide
  present := by decide
  kind := by decide
  roots := by decide

theorem merge_conserves_history_tripled :
    Conserved 1 2 (survivorOf (tripledShow.mergePair 0 1 2).2) tripledShow
      (tripledShow.mergePair 0 1 2).1 ∧
      SameHistory 1 tripledShow (tripledShow.mergeDuplicates 0 1 [1, 2, 3]).1
        (tripledShow.mergeDuplicates 0 1 [1, 3, 2]).1 := by
  have hpair : Mergeable tripledShow 1 [2] :=
    ⟨by decide, by decide, by decide, by decide, by decide, by decide⟩
  exact ⟨(merge_conserves_history 0 0 tripledShow 1).1 2 hpair,
    (merge_conserves_history 0 0 tripledShow 1).2 [1, 2, 3] [1, 3, 2] tripledShow_mergeable
      (by decide)⟩

/-- The winner's episode takes in the first of the two that one source lists, and the other one
stays beside it. -/
theorem merges_depend_on_order :
    let first := (tripledShow.mergeDuplicates 0 1 [1, 2, 3]).1.sourceMediaRefs
    let second := (tripledShow.mergeDuplicates 0 1 [1, 3, 2]).1.sourceMediaRefs
    first.rows.map (fun r => (r.id, r.mediaItemId)) = [(1, 7), (2, 7), (3, 9)] ∧
      second.rows.map (fun r => (r.id, r.mediaItemId)) = [(1, 7), (2, 8), (3, 7)] ∧
        first ≠ second := by
  have hrows : (tripledShow.mergeDuplicates 0 1 [1, 2, 3]).1.sourceMediaRefs.rows.map
      (fun r => (r.id, r.mediaItemId)) =
        [(1, 7), (2, 7), (3, 9)] ∧
      (tripledShow.mergeDuplicates 0 1 [1, 3, 2]).1.sourceMediaRefs.rows.map
        (fun r => (r.id, r.mediaItemId)) =
        [(1, 7), (2, 8), (3, 7)] := by decide +kernel
  refine ⟨hrows.1, hrows.2, fun heq => ?_⟩
  have hsame := hrows.1.symm.trans
    ((congrArg (fun t => t.rows.map fun r => (r.id, r.mediaItemId)) heq).trans hrows.2)
  simp at hsame

end Database

end Euvieouvi
