import Euvieouvi.Reconcile.Calls

/-!
# Files and sources of merged items

What `_safe_sources` found of a group still holds when a pair of it is merged, after the pairs
before it. It compares files only in a group led by a movie or a track, so two episodes with
different files can be merged.
-/

namespace Euvieouvi

namespace MergeStep

/-- Two movies, tracks or episodes. -/
def FileItems (step : MergeStep) : Prop :=
  (∃ k, step.before.identityRows.kindOf step.winner = some k ∧ Database.isFileKind k = true) ∧
    ∃ k, step.before.identityRows.kindOf step.loser = some k ∧ Database.isFileKind k = true

/-- The sets of available files are not both known and disjoint. -/
def FilesAgree (step : MergeStep) : Prop :=
  step.before.identityRows.pathsOf step.winner ≠ [] →
    step.before.identityRows.pathsOf step.loser ≠ [] →
    ∃ key ∈ step.before.identityRows.pathsOf step.winner,
      key ∈ step.before.identityRows.pathsOf step.loser

def SourcesApart (step : MergeStep) : Prop :=
  ∀ source ∈ step.before.identityRows.availableSourcesOf step.winner,
    source ∉ step.before.identityRows.availableSourcesOf step.loser

instance (step : MergeStep) : Decidable step.FileItems :=
  decidable_of_iff
    ((step.before.identityRows.kindOf step.winner).any Database.isFileKind = true ∧
      (step.before.identityRows.kindOf step.loser).any Database.isFileKind = true)
    (and_congr (Option.any_eq_true ..) (Option.any_eq_true ..))

instance (step : MergeStep) : Decidable step.FilesAgree := inferInstanceAs (Decidable (_ → _ → _))

instance (step : MergeStep) : Decidable step.SourcesApart :=
  inferInstanceAs (Decidable (∀ _ ∈ _, _))

/-- Two episodes, whose files `_safe_sources` does not compare. -/
def Episodes (step : MergeStep) : Prop :=
  step.before.identityRows.kindOf step.winner = some .episode ∧
    step.before.identityRows.kindOf step.loser = some .episode

/-- What the check leaves of a merge of files: only those of episodes can differ, where the groups
have one kind (`L`). -/
def Checked (L : Prop) (step : MergeStep) : Prop :=
  step.FileItems → step.SourcesApart ∧ (L → ¬ step.Episodes → step.FilesAgree)

end MergeStep

namespace Merged
variable {db db' : Database} {σ : Nat → Nat} {i : Nat}

theorem mem_availableSources (h : Merged σ db db') {source : Nat} :
    source ∈ db'.identityRows.availableSourcesOf i ↔ ∃ j, σ j = i ∧
    source ∈ db.identityRows.availableSourcesOf j := by
  have hrows : db'.identityRows.sourceMediaRefs.rows = _ := h.references
  unfold IdentityRows.availableSourcesOf
  simp only [List.mem_eraseDups, List.mem_map, List.mem_filter, Bool.and_eq_true, beq_iff_eq, hrows]
  constructor
  · rintro ⟨_, ⟨⟨r, hr, rfl⟩, hi, ha⟩, hs⟩
    exact ⟨r.mediaItemId, hi, r, ⟨hr, rfl, ha⟩, hs⟩
  · rintro ⟨j, hj, r, ⟨hr, rfl, ha⟩, hs⟩
    exact ⟨{ r with mediaItemId := σ r.mediaItemId }, ⟨⟨r, hr, rfl⟩, hj, ha⟩, hs⟩

theorem mem_paths (h : Merged σ db db') (hpaths : db'.mediaFilePaths = db.mediaFilePaths)
    {key : String} :
    key ∈ db'.identityRows.pathsOf i ↔ ∃ j, σ j = i ∧ key ∈ db.identityRows.pathsOf j := by
  have hrows : db'.identityRows.sourceMediaRefs.rows = _ := h.references
  have hfiles : db'.identityRows.mediaFilePaths = db.identityRows.mediaFilePaths := hpaths
  unfold IdentityRows.pathsOf
  simp only [List.mem_eraseDups, List.mem_flatMap, List.mem_map, List.mem_filter, Bool.and_eq_true,
    beq_iff_eq, hrows, hfiles]
  constructor
  · rintro ⟨_, ⟨⟨r, hr, rfl⟩, hi, ha⟩, hs⟩
    exact ⟨r.mediaItemId, hi, r, ⟨hr, rfl, ha⟩, hs⟩
  · rintro ⟨j, hj, r, ⟨hr, rfl, ha⟩, hs⟩
    exact ⟨{ r with mediaItemId := σ r.mediaItemId }, ⟨⟨r, hr, rfl⟩, hj, ha⟩, hs⟩

end Merged

namespace Database
variable {db : Database} {now : Time} {w l : Nat}

/-- From `acc` to `acc'`: kinds stay, and what is new in the log was checked. -/
structure CheckedLoop (L : Prop) (acc acc' : Database × List MergeStep) : Prop where
  kinds : KindsKept acc.1 acc'.1
  checked : ∃ log, acc'.2 = acc.2 ++ log ∧ ∀ step ∈ log, step.Checked L

namespace CheckedLoop
variable {L : Prop} {acc acc' acc'' : Database × List MergeStep}

theorem refl (acc : Database × List MergeStep) : CheckedLoop L acc acc :=
  ⟨.refl _, [], (List.append_nil _).symm, by simp⟩

theorem trans (h : CheckedLoop L acc acc') (h' : CheckedLoop L acc' acc'') :
    CheckedLoop L acc acc'' := by
  obtain ⟨log, hlog, hchecked⟩ := h.checked
  obtain ⟨log', hlog', hchecked'⟩ := h'.checked
  refine ⟨h.kinds.trans h'.kinds, log ++ log', ?_, fun step hs => ?_⟩
  · rw [hlog', hlog, List.append_assoc]
  · exact (List.mem_append.1 hs).elim (hchecked step) (hchecked' step)

theorem merge {db db' : Database} {log : List MergeStep} {step : MergeStep} (hk : KindsKept db db')
    (hstep : step.Checked L) : CheckedLoop L (db, log) (db', log ++ [step]) :=
  ⟨hk, [step], rfl, by simpa using hstep⟩

theorem move {db db' : Database} {log : List MergeStep} (hk : KindsKept db db') :
    CheckedLoop L (db, log) (db', log) :=
  ⟨hk, [], (List.append_nil _).symm, by simp⟩

theorem foldl {α : Type} {f : Database × List MergeStep → α → Database × List MergeStep}
    {l : List α} {acc : Database × List MergeStep}
    (hf : ∀ acc', ∀ a ∈ l, KindsKept acc.1 acc'.1 → CheckedLoop L acc' (f acc' a)) :
    CheckedLoop L acc (l.foldl f acc) := by
  suffices hloop : ∀ (rest : List α) (acc' : Database × List MergeStep), (∀ a ∈ rest, a ∈ l) →
      KindsKept acc.1 acc'.1 →
      CheckedLoop L acc' (rest.foldl f acc') from hloop l acc (fun _ ha => ha) (.refl _)
  intro rest
  induction rest with
  | nil => exact fun acc' _ _ => .refl acc'
  | cons a rest ih =>
    intro acc' hrest hkept
    have hone := hf acc' a (hrest a List.mem_cons_self) hkept
    exact hone.trans
      (ih _ (fun b hb => hrest b (List.mem_cons_of_mem a hb)) (hkept.trans hone.kinds))

end CheckedLoop

/-- A group led by a movie or a track is one whose files are compared. -/
theorem comparesFiles_of_kind {items : List Nat} {first : Nat} {k : MediaKind}
    (hfirst : items.head? = some first)
    (hk : db.identityRows.kindOf first = some k) (hfile : isFileKind k = true)
    (hepisode : k ≠ .episode) :
    db.comparesFiles items = true := by
  unfold comparesFiles
  rw [hfirst]
  cases k <;> simp_all [isFileKind]

section Hierarchy
variable {L : Prop}

end Hierarchy

/-! ### A group -/

/-- Items of the group were merged into `c`, and nothing else happened. -/
structure Absorbed (c : Nat) (items : List Nat) (db db' : Database) (σ : Nat → Nat) : Prop where
  merged : Merged σ db db'
  into : ∀ i, σ i = i ∨ i ∈ items ∧ σ i = c
  paths : db'.mediaFilePaths = db.mediaFilePaths

theorem Absorbed.merge {c d : Nat} {items : List Nat} {db db' db'' : Database} {σ : Nat → Nat}
    (h : Absorbed c items db db' σ) (hc : db.mediaItems.contains c = true) (hcfix : σ c = c)
    (hd : d ∈ items) (hne : c ≠ d)
    (hs : MergeItem c d db' db'') : Absorbed c items db db'' (mergeInto c d ∘ σ) ∧
    (mergeInto c d ∘ σ) c = c := by
  have hcpresent : db'.mediaItems.contains c = true := (h.merged.items c).2 ⟨hc, hcfix⟩
  refine ⟨⟨h.merged.trans (hs.merged hne hcpresent), fun i => ?_, ?_⟩, ?_⟩
  · rw [Function.comp_apply]
    rcases h.into i with hi | ⟨hi, hic⟩
    · rw [hi]
      by_cases hid : i = d
      · exact .inr ⟨hid ▸ hd, by rw [hid, mergeInto_loser]⟩
      · exact .inl (mergeInto_of_ne hid)
    · exact .inr ⟨hi, by rw [hic, mergeInto_of_ne hne]⟩
  · exact (hs.frame .mediaFilePaths (by decide)).trans h.paths
  · rw [Function.comp_apply, hcfix, mergeInto_of_ne hne]

/-- A group of files that are not episodes is one whose files are compared. -/
theorem comparesFiles_of_oneKind {items : List Nat} {c d : Nat} {k k' : MediaKind}
    (h : db.OneKind items)
    (hpresent : ∀ i ∈ items, db.mediaItems.contains i = true) (hc : c ∈ items) (hd : d ∈ items)
    (hk : db.identityRows.kindOf c = some k) (hk' : db.identityRows.kindOf d = some k')
    (hfile : isFileKind k = true)
    (hne : ¬ (k = .episode ∧ k' = .episode)) : db.comparesFiles items = true := by
  obtain ⟨kind, hkind⟩ := h
  obtain rfl := hkind c hc k hk
  obtain rfl := hkind d hd k' hk'
  obtain ⟨first, rest, rfl⟩ := List.exists_cons_of_ne_nil (List.ne_nil_of_mem hc)
  obtain ⟨m, hm⟩ := Option.isSome_iff_exists.1 (hpresent first List.mem_cons_self)
  have hfirst : db.identityRows.kindOf first = some m.kind := Option.map_eq_some_iff.2 ⟨m, hm, rfl⟩
  rw [hkind first List.mem_cons_self _ hfirst] at hfirst
  exact comparesFiles_of_kind rfl hfirst hfile fun hepisode => hne ⟨hepisode, hepisode⟩

/-- What was checked of the group holds of the next pair. -/
theorem Absorbed.checked {L : Prop} {c d : Nat} {items : List Nat} {physical : Bool}
    {db db' : Database} {σ : Nat → Nat}
    (h : Absorbed c items db db' σ) (hsafe : db.safeSources items physical = true)
    (hkind : L → db.OneKind items)
    (hpresent : ∀ i ∈ items, db.mediaItems.contains i = true) (hcmem : c ∈ items) (hd : d ∈ items)
    (hne : c ≠ d) :
    (MergeStep.mk db' c d).Checked L := by
  rintro ⟨⟨k, hk, hfile⟩, k', hk', hfile'⟩
  have hkinds : ∀ i k, db'.identityRows.kindOf i = some k → db.identityRows.kindOf i = some k :=
      fun i k hi =>
    (h.merged.kinds i (IdentityRows.contains_of_kindOf hi)).symm.trans hi
  have hdfix : σ d = d := ((h.merged.items d).1 (IdentityRows.contains_of_kindOf hk')).2
  have hdonly : ∀ j, σ j = d → j = d := by
    intro j hj
    rcases h.into j with hfix | ⟨-, hjc⟩
    exacts [hfix.symm.trans hj, absurd (hjc.symm.trans hj) hne]
  -- what became `c` is in the group, and is not `d`
  have hcfrom : ∀ j, σ j = c → j ∈ items ∧ j ≠ d := by
    intro j hj
    refine ⟨?_, by rintro rfl; exact hne (hj.symm.trans hdfix)⟩
    rcases h.into j with hfix | ⟨hmem, -⟩
    exacts [(hfix.symm.trans hj) ▸ hcmem, hmem]
  refine ⟨fun source hcs hds => ?_, fun hL hepisodes hcp hdp => ?_⟩
  · obtain ⟨j, hj, hjs⟩ := h.merged.mem_availableSources.1 hcs
    obtain ⟨j', hj', hjs'⟩ := h.merged.mem_availableSources.1 hds
    obtain rfl := hdonly j' hj'
    obtain ⟨hjmem, hjne⟩ := hcfrom j hj
    exact hjne (safeSources_apart hsafe hcmem hd hne (hkinds _ _ hk) hfile
      (hkinds _ _ hk') hfile' hjmem hd hjs hjs')
  · have hcompared :=
      comparesFiles_of_oneKind (hkind hL) hpresent hcmem hd (hkinds _ _ hk) (hkinds _ _ hk') hfile
      fun heq => hepisodes ⟨heq.1 ▸ hk, heq.2 ▸ hk'⟩
    obtain ⟨key, hkey⟩ := List.exists_mem_of_ne_nil _ hcp
    obtain ⟨j, hj, hjkey⟩ := (h.merged.mem_paths h.paths).1 hkey
    obtain ⟨hjmem, -⟩ := hcfrom j hj
    obtain ⟨key', hkey'⟩ := List.exists_mem_of_ne_nil _ hdp
    obtain ⟨j', hj', hdkey⟩ := (h.merged.mem_paths h.paths).1 hkey'
    obtain rfl := hdonly j' hj'
    obtain ⟨shared, hs₁, hs₂⟩ := pathsAgree_pair (safeSources_pathsAgree hsafe hcompared) hjmem hd
      (List.ne_nil_of_mem hjkey) (List.ne_nil_of_mem hdkey)
    exact ⟨shared, (h.merged.mem_paths h.paths).2 ⟨j, hj, hs₁⟩,
      (h.merged.mem_paths h.paths).2 ⟨j', hj', hs₂⟩⟩

section Groups
variable {L : Prop} {items ids : List Nat} {physical : Bool} {log : List MergeStep}

/-- What a group adds to the log. -/
theorem CheckedLoop.group {acc : Database × List MergeStep} {d : Database}
    (h : CheckedLoop L (acc.1, []) (d, log)) :
    CheckedLoop L acc (d, acc.2 ++ log) := by
  obtain ⟨hkinds, log', hlog, hchecked⟩ := h
  obtain rfl : log = log' := hlog
  exact ⟨hkinds, log, rfl, hchecked⟩

theorem CheckedLoop.all {acc : Database × List MergeStep} (h : CheckedLoop L (db, []) acc) :
    ∀ step ∈ acc.2, step.Checked L := by
  obtain ⟨-, log, hlog, hchecked⟩ := h
  obtain rfl : acc.2 = log := hlog
  exact hchecked

end Groups

/-! ### Entry points -/

section Calls
variable {db : Database}

end Calls

end Database

end Euvieouvi
