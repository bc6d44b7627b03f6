import Euvieouvi.Reconcile.Survivors

/-!
# Runs of merges

A run is a sequence of merges and of new parents, with the log of its merges. What one merge and one
new parent keep, a run keeps, so the properties of `_merge_hierarchy` are proved about runs, and
here it is proved once what its steps are: an episode of the lost season merged into or moved below
the season that takes its place, and a season of the lost show merged into or moved below the other
show.
-/

namespace Euvieouvi

/-- From `db` to `db'` the item `i` came below `parent`. -/
structure MoveItem (parent i : Nat) (db db' : Database) : Prop where
  items : ∃ g : MediaItem → MediaItem,
    (∀ m, (g m).kind = m.kind ∧ (g m).parentId = if m.id = i then some parent else m.parentId) ∧
      ∀ j, db'.mediaItems.get? j = (db.mediaItems.get? j).map g
  frame : Database.Frame [.mediaItems] db db'
  run : ∃ now, db' = db.saveParent now parent i

theorem Database.saveParent_spec (db : Database) (now : Time) (parent i : Nat) :
    MoveItem parent i db (db.saveParent now parent i) where
  items := by
    refine ⟨fun m => if m.id == i && decide ({ m with parentId := some parent } ≠ m) then
      { m with parentId := some parent, updatedAt := now } else m, fun m => ?_, fun j => ?_⟩
    · by_cases hsel : (m.id == i && decide ({ m with parentId := some parent } ≠ m)) = true
      · have hi : m.id = i := by simp only [Bool.and_eq_true, beq_iff_eq] at hsel; exact hsel.1
        dsimp only
        rw [if_pos hsel, if_pos hi]
        exact ⟨rfl, rfl⟩
      · dsimp only
        rw [if_neg hsel]
        refine ⟨rfl, ?_⟩
        split
        next hi =>
          have hsame : { m with parentId := some parent } = m := by
            by_contra hne
            exact hsel (Bool.and_eq_true_iff.2 ⟨beq_iff_eq.2 hi, decide_eq_true hne⟩)
          exact congrArg MediaItem.parentId hsame.symm
        next => rfl
    · unfold saveParent saveMediaItem
      rw [mediaItems_updateMediaItems, Table.get?_update]
  frame := updateMediaItems_frame _ _
  run := ⟨now, rfl⟩

namespace MoveItem
variable {db db' : Database} {parent i j : Nat}

theorem contains_eq (h : MoveItem parent i db db') :
    db'.mediaItems.contains j = db.mediaItems.contains j := by
  obtain ⟨g, -, hg⟩ := h.items
  unfold Table.contains
  rw [hg, Option.isSome_map]

theorem kindOf_eq (h : MoveItem parent i db db') :
    db'.identityRows.kindOf j = db.identityRows.kindOf j := by
  obtain ⟨g, hg, hget⟩ := h.items
  unfold IdentityRows.kindOf
  rw [show db'.identityRows.mediaItems.get? j = _ from hget j, Option.map_map]
  exact congrArg (Option.map · _) (funext fun m => (hg m).1)

theorem parentOf_eq (h : MoveItem parent i db db') (hi : db.mediaItems.contains i = true) :
    db'.identityRows.parentOf j = if j = i then some parent else db.identityRows.parentOf j := by
  obtain ⟨g, hg, hget⟩ := h.items
  unfold IdentityRows.parentOf
  rw [show db'.identityRows.mediaItems.get? j = _ from hget j]
  show ((db.mediaItems.get? j).map g).bind _ = _
  cases hm : db.mediaItems.get? j with
  | none =>
    rw [if_neg]
    · exact congrArg (Option.bind · _) hm.symm
    · rintro rfl
      rw [Table.contains, hm] at hi; cases hi
  | some m =>
    have hid : m.id = j := Table.key_of_get? hm
    rw [show db.identityRows.mediaItems.get? j = some m from hm, ← hid]
    exact (hg m).2

theorem merged (h : MoveItem parent i db db') : Merged id db db' where
  items j := by rw [h.contains_eq]; simp
  survives j hj := by rw [h.contains_eq]; exact hj
  kinds j _ := h.kindOf_eq
  events := by
    have hevents : db'.watchEvents = db.watchEvents := h.frame .watchEvents (by decide)
    rw [hevents]; simp
  references := by
    have hrefs : db'.sourceMediaRefs = db.sourceMediaRefs := h.frame .sourceMediaRefs (by decide)
    rw [hrefs]; simp
  facts j source := by
    have hstates : db'.watchStates = db.watchStates := h.frame .watchStates (by decide)
    have hfacts : db'.facts j source = db.facts j source := by unfold Database.facts; rw [hstates]
    rw [hfacts]
    exact Merged.isLUB_self (db.facts · source) j

end MoveItem

/-- Where each item is after the merges of a log. -/
def survivorOf (log : List MergeStep) : Nat → Nat :=
  log.foldl (fun survivor step => mergeInto step.winner step.loser ∘ survivor) id

theorem survivorOf_append (log log' : List MergeStep) :
    survivorOf (log ++ log') = survivorOf log' ∘ survivorOf log := by
  have hfold : ∀ (log : List MergeStep) (σ : Nat → Nat),
      log.foldl (fun survivor step => mergeInto step.winner step.loser ∘ survivor) σ =
        survivorOf log ∘ σ := by
    intro log
    induction log with
    | nil => exact fun σ => rfl
    | cons step log ih =>
      intro σ
      unfold survivorOf
      rw [List.foldl_cons, ih, List.foldl_cons, ih]
      rfl
  unfold survivorOf
  rw [List.foldl_append]
  exact hfold log' _

theorem survivorOf_concat (log : List MergeStep) (step : MergeStep) :
    survivorOf (log ++ [step]) = mergeInto step.winner step.loser ∘ survivorOf log :=
  survivorOf_append log [step]

/-- From `db` to `db'` by merges that satisfy `M`, in the order of the log, and new parents that
satisfy `V`. -/
inductive MergeRun (M : MergeStep → Prop) (V : Database → Nat → Nat → Prop) :
    Database → List MergeStep → Database → Prop
  | refl (db : Database) : MergeRun M V db [] db
  | merge {db db' db'' : Database} {log : List MergeStep} {step : MergeStep} :
    MergeRun M V db log db' →
      step.before = db' → M step → MergeItem step.winner step.loser db' db'' →
        MergeRun M V db (log ++ [step]) db''
  | move {db db' db'' : Database} {log : List MergeStep} {parent i : Nat} :
    MergeRun M V db log db' →
      V db' parent i → MoveItem parent i db' db'' → MergeRun M V db log db''

namespace MergeRun
variable {M M' : MergeStep → Prop} {V V' : Database → Nat → Nat → Prop} {db db' db'' : Database}
  {log log' : List MergeStep}

theorem mono (hM : ∀ step, M step → M' step) (hV : ∀ db parent i, V db parent i → V' db parent i)
    (h : MergeRun M V db log db') : MergeRun M' V' db log db' := by
  induction h with
  | refl => exact .refl _
  | merge _ hb hm hs ih => exact ih.merge hb (hM _ hm) hs
  | move _ hv hs ih => exact ih.move (hV _ _ _ hv) hs

theorem trans (h : MergeRun M V db log db') (h' : MergeRun M V db' log' db'') :
    MergeRun M V db (log ++ log') db'' := by
  induction h' with
  | refl => rwa [List.append_nil]
  | merge _ hb hm hs ih => rw [← List.append_assoc]; exact ih.merge hb hm hs
  | move _ hv hs ih => exact ih.move hv hs

theorem mem_log (h : MergeRun M V db log db') :
    MergeRun (fun step => M step ∧ step ∈ log) V db log db' := by
  induction h with
  | refl => exact .refl _
  | merge _ hb hm hs ih =>
    refine (ih.mono (fun step hs => ⟨hs.1, List.mem_append_left _ hs.2⟩) fun _ _ _ hv => hv).merge
      hb ⟨hm, ?_⟩ hs
    exact List.mem_append_right _ (List.mem_singleton.2 rfl)
  | move _ hv hs ih => exact ih.move hv hs

/-- What holds at first and is kept by every step holds before every step and at the end. -/
theorem strengthen {I : Database → Prop} (hI : I db)
    (hmerge : ∀ step db', M step → MergeItem step.winner step.loser step.before db' →
      I step.before → I db')
    (hmove : ∀ parent i db db', V db parent i → MoveItem parent i db db' → I db → I db')
    (h : MergeRun M V db log db') :
    MergeRun (fun step => M step ∧ I step.before)
    (fun db parent i => V db parent i ∧ I db) db log db' ∧ I db' := by
  induction h with
  | refl => exact ⟨.refl _, hI⟩
  | merge _ hb hm hs ih =>
    subst hb
    obtain ⟨hrun, hI⟩ := ih
    exact ⟨hrun.merge rfl ⟨hm, hI⟩ hs, hmerge _ _ hm hs hI⟩
  | move _ hv hs ih =>
    obtain ⟨hrun, hI⟩ := ih
    exact ⟨hrun.move ⟨hv, hI⟩ hs, hmove _ _ _ _ hv hs hI⟩

/-- The merges of a run compose. -/
theorem merged (hM : ∀ step, M step → step.winner ≠ step.loser ∧
      step.before.mediaItems.contains step.winner = true)
    (h : MergeRun M V db log db') : Merged (survivorOf log) db db' := by
  induction h with
  | refl => exact Merged.refl _
  | merge _ hb hm hs ih =>
    obtain ⟨hne, hw⟩ := hM _ hm
    rw [survivorOf_concat]
    exact ih.trans (hs.merged hne (hb ▸ hw))
  | move _ _ hs ih => exact ih.trans hs.merged

end MergeRun

namespace IdentityRows
variable {rows : IdentityRows} {i : Nat}

theorem kindOf_of_mem {m : MediaItem} (h : m ∈ rows.mediaItems.rows) :
    rows.kindOf m.id = some m.kind := by
  unfold kindOf; rw [Table.get?_of_mem h]; rfl

theorem parentOf_of_mem {m : MediaItem} (h : m ∈ rows.mediaItems.rows) :
    rows.parentOf m.id = m.parentId := by
  unfold parentOf; rw [Table.get?_of_mem h]; rfl

theorem contains_of_kindOf {k : MediaKind} (h : rows.kindOf i = some k) :
    rows.mediaItems.contains i = true := by
  obtain ⟨m, hm, -⟩ := Option.map_eq_some_iff.1 h
  exact Option.isSome_iff_exists.2 ⟨m, hm⟩

theorem contains_of_parentOf {p : Nat} (h : rows.parentOf i = some p) :
    rows.mediaItems.contains i = true := by
  obtain ⟨m, hm, -⟩ := Option.bind_eq_some_iff.1 h
  exact Option.isSome_iff_exists.2 ⟨m, hm⟩

end IdentityRows

/-! ### Episodes of a lost season -/

/-- An episode of the season `lost` merged into an item of the season `kept`. -/
structure EpisodeMerge (kept lost : Nat) (step : MergeStep) : Prop where
  kind : step.before.identityRows.kindOf step.loser = some .episode
  loser : step.before.identityRows.parentOf step.loser = some lost
  winner : step.before.identityRows.parentOf step.winner = some kept
  safe : step.before.safeSources [step.winner, step.loser] = true

/-- An episode of the season `lost` moved to the season `kept`. -/
structure EpisodeMove (kept lost : Nat) (db : Database) (parent i : Nat) : Prop where
  kind : db.identityRows.kindOf i = some .episode
  loser : db.identityRows.parentOf i = some lost
  parent : parent = kept
  present : db.mediaItems.contains kept = true

theorem EpisodeMerge.ne {kept lost : Nat} {step : MergeStep} (h : EpisodeMerge kept lost step)
    (hne : kept ≠ lost) :
    step.winner ≠ step.loser := by
  intro heq
  have hsame := h.winner
  rw [heq, h.loser] at hsame
  exact hne (Option.some_inj.1 hsame).symm

/-- The episodes `ids` of the season `lost` are still to be merged into the season `kept`. -/
structure SeasonReady (kept lost : Nat) (ids : List Nat) (db : Database) : Prop where
  keptKind : db.identityRows.kindOf kept = some .season
  lostKind : db.identityRows.kindOf lost = some .season
  episodes : ∀ i ∈ ids, db.identityRows.kindOf i = some .episode ∧
    db.identityRows.parentOf i = some lost

namespace SeasonReady
variable {kept lost w l i : Nat} {ids ids' : List Nat} {db db' : Database}

theorem merge (h : SeasonReady kept lost ids db) (hs : MergeItem w l db db')
    (hl : db.identityRows.kindOf l = some .episode) (hsub : ∀ i ∈ ids', i ∈ ids ∧ i ≠ l) :
    SeasonReady kept lost ids' db' := by
  have hkept : kept ≠ l := by rintro rfl; rw [h.keptKind] at hl; cases hl
  have hlost : lost ≠ l := by rintro rfl; rw [h.lostKind] at hl; cases hl
  refine ⟨(hs.kindOf_eq hkept).trans h.keptKind, (hs.kindOf_eq hlost).trans h.lostKind,
    fun i hi => ?_⟩
  obtain ⟨hmem, hne⟩ := hsub i hi
  obtain ⟨hkind, hparent⟩ := h.episodes i hmem
  refine ⟨(hs.kindOf_eq hne).trans hkind, ?_⟩
  rw [hs.parentOf_eq hne, hparent, Option.map_some, mergeInto_of_ne hlost]

theorem move (h : SeasonReady kept lost ids db) (hs : MoveItem w l db db')
    (hl : db.mediaItems.contains l = true) (hsub : ∀ i ∈ ids', i ∈ ids ∧ i ≠ l) :
    SeasonReady kept lost ids' db' := by
  refine ⟨hs.kindOf_eq.trans h.keptKind, hs.kindOf_eq.trans h.lostKind, fun i hi => ?_⟩
  obtain ⟨hmem, hne⟩ := hsub i hi
  obtain ⟨hkind, hparent⟩ := h.episodes i hmem
  refine ⟨hs.kindOf_eq.trans hkind, ?_⟩
  rw [hs.parentOf_eq hl, if_neg hne, hparent]

end SeasonReady

namespace Database
variable {kept lost : Nat} {db : Database} {now : Time}

theorem writeParents_run (now : Time) {M : MergeStep → Prop} {pending rest : List Nat}
    (hnodup : (pending ++ rest).Nodup) (h : SeasonReady kept lost (pending ++ rest) db) :
    MergeRun M (EpisodeMove kept lost) db [] (db.writeParents now kept pending) ∧
      SeasonReady kept lost rest (db.writeParents now kept pending) := by
  induction pending generalizing db with
  | nil => exact ⟨.refl db, h⟩
  | cons i pending ih =>
    obtain ⟨hi, hnodup⟩ := List.nodup_cons.1 hnodup
    obtain ⟨hkind, hparent⟩ := h.episodes i List.mem_cons_self
    have hpresent : db.mediaItems.contains i = true := IdentityRows.contains_of_kindOf hkind
    have hstep := db.saveParent_spec now kept i
    have hkept : db.mediaItems.contains kept = true := IdentityRows.contains_of_kindOf h.keptKind
    have hready : SeasonReady kept lost (pending ++ rest) (db.saveParent now kept i) :=
        h.move hstep hpresent fun j hj =>
      ⟨List.mem_cons_of_mem i hj, fun hji => hi (hji ▸ hj)⟩
    obtain ⟨hrun, hrest⟩ := ih hnodup hready
    have hmove : MergeRun M (EpisodeMove kept lost) db [] (db.saveParent now kept i) :=
      (MergeRun.refl db).move ⟨hkind, hparent, rfl, hkept⟩ hstep
    exact ⟨hmove.trans hrun, hrest⟩

theorem parentOf_writeParents {pending : List Nat}
    (hpending : ∀ i ∈ pending, db.mediaItems.contains i = true) {i : Nat}
    (h : db.identityRows.parentOf i = some kept) :
    (db.writeParents now kept pending).identityRows.parentOf i = some kept := by
  induction pending generalizing db with
  | nil => exact h
  | cons j pending ih =>
    have hstep := db.saveParent_spec now kept j
    rw [show db.writeParents now kept (j :: pending) =
      (db.saveParent now kept j).writeParents now kept pending from rfl]
    refine ih (fun i hi => ?_) ?_
    · rw [hstep.contains_eq]; exact hpending i (List.mem_cons_of_mem j hi)
    · rw [hstep.parentOf_eq (hpending j List.mem_cons_self)]
      split
      exacts [rfl, h]

/-! Every item the three rules of `_merge_season` find is below the season. -/

section Candidates
variable {candidate : Nat} {episode : MediaItem}

theorem parentOf_filter {p : MediaItem → Bool} (hp : ∀ m, p m = true → m.parentId = some kept)
    (h : candidate ∈ (db.mediaItems.rows.filter p).map (·.id)) :
    db.identityRows.parentOf candidate = some kept := by
  obtain ⟨m, hm, rfl⟩ := List.mem_map.1 h
  obtain ⟨hrow, hsel⟩ := List.mem_filter.1 hm
  exact (IdentityRows.parentOf_of_mem hrow).trans (hp m hsel)

theorem parentOf_sharedIdentifier (h : candidate ∈ db.sharedIdentifierCandidates kept episode.id) :
    db.identityRows.parentOf candidate = some kept := by
  refine parentOf_filter (fun m hm => ?_) h
  simp only [Bool.and_eq_true, beq_iff_eq] at hm
  exact hm.1

theorem parentOf_sharedFile (h : candidate ∈ db.sharedFileCandidates kept episode) :
    db.identityRows.parentOf candidate = some kept := by
  refine parentOf_filter (fun m hm => ?_) h
  simp only [Bool.and_eq_true, beq_iff_eq] at hm
  exact hm.1.1.1.1.1

theorem parentOf_coordinate (h : candidate ∈ db.coordinateCandidates kept episode) :
    db.identityRows.parentOf candidate = some kept := by
  unfold coordinateCandidates at h
  cases hn : episode.episodeNumber with
  | none => rw [hn] at h; cases h
  | some number =>
    rw [hn] at h
    dsimp only at h
    split at h
    next found hfound =>
      split at h
      · cases h
      · obtain rfl := List.mem_singleton.1 h
        refine parentOf_filter (p := fun w => w.parentId == some kept && w.kind == .episode &&
          w.episodeNumber == some number)
          (fun m hm => ?_) ?_
        · simp only [Bool.and_eq_true, beq_iff_eq] at hm
          exact hm.1.1
        · rw [hfound]; simp
    · cases h

end Candidates

end Database

/-- What the loop of `_merge_season` has done so far, from `s` to `s'`. -/
structure SeasonProgress (kept lost : Nat) (rest : List Nat) (s s' : Database.SeasonLoop)
    (log : List MergeStep) : Prop where
  logged : s'.log = s.log ++ log
  run : MergeRun (EpisodeMerge kept lost) (EpisodeMove kept lost) s.db log s'.db
  nodup : (s'.pending ++ rest).Nodup
  ready : SeasonReady kept lost (s'.pending ++ rest) s'.db

namespace SeasonProgress
variable {kept lost e : Nat} {rest : List Nat} {s s' : Database.SeasonLoop} {log : List MergeStep}

/-- One more episode merged. -/
theorem merge {step : MergeStep} {db : Database} (h : SeasonProgress kept lost (e :: rest) s s' log)
    (hbefore : step.before = s'.db) (hloser : step.loser = e) (hstep : EpisodeMerge kept lost step)
    (hmerge : MergeItem step.winner step.loser s'.db db) :
    SeasonProgress kept lost rest s { s' with db := db, log := s'.log ++ [step] }
    (log ++ [step]) where
  logged := by rw [h.logged, List.append_assoc]
  run := h.run.merge hbefore hstep hmerge
  nodup := h.nodup.sublist (List.Sublist.append_left (List.sublist_cons_self _ _) _)
  ready := by
    refine h.ready.merge hmerge (hbefore ▸ hstep.kind) fun i hi => ?_
    obtain ⟨-, hrest, hdisjoint⟩ := List.nodup_append.1 h.nodup
    obtain ⟨he, -⟩ := List.nodup_cons.1 hrest
    rw [hloser]
    rcases List.mem_append.1 hi with hi | hi
    · exact ⟨List.mem_append_left _ hi, fun heq => hdisjoint i hi e List.mem_cons_self heq⟩
    · exact ⟨List.mem_append_right _ (List.mem_cons_of_mem _ hi), fun heq => he (heq ▸ hi)⟩

/-- One more episode to move. -/
theorem keep (h : SeasonProgress kept lost (e :: rest) s s' log) :
    SeasonProgress kept lost rest s { s' with pending := s'.pending ++ [e] } log where
  logged := h.logged
  run := h.run
  nodup := by simpa using h.nodup
  ready := by simpa using h.ready

end SeasonProgress

namespace Database
variable {kept lost : Nat} {db : Database} {now : Time}

theorem flush_progress (now : Time) {s : SeasonLoop} {rest : List Nat}
    (hnodup : (s.pending ++ rest).Nodup) (h : SeasonReady kept lost (s.pending ++ rest) s.db) :
    SeasonProgress kept lost rest
      s { s with db := s.db.writeParents now kept s.pending, pending := [] } [] := by
  obtain ⟨hrun, hready⟩ := writeParents_run now hnodup h
  exact ⟨(List.append_nil _).symm, hrun, (List.nodup_append.1 hnodup).2.1, hready⟩

theorem mergeEpisode_progress (now : Time) (hne : kept ≠ lost) {s : SeasonLoop}
    {episode : MediaItem} {rest : List Nat}
    (hnodup : (s.pending ++ episode.id :: rest).Nodup)
    (h : SeasonReady kept lost (s.pending ++ episode.id :: rest) s.db) :
    ∃ log, SeasonProgress kept lost rest s (mergeEpisode now kept s episode) log := by
  unfold mergeEpisode
  dsimp only
  set byFile := if s.db.sharedIdentifierCandidates kept episode.id =
    [] then s.db.sharedFileCandidates kept episode
    else s.db.sharedIdentifierCandidates kept episode.id with hbyFile
  have hfound : ∀ c ∈ byFile, s.db.identityRows.parentOf c = some kept := by
    intro c hc
    rw [hbyFile] at hc
    split at hc
    exacts [parentOf_sharedFile hc, parentOf_sharedIdentifier hc]
  set s₁ := if byFile = [] ∧ episode.episodeNumber = none then s
    else { s with db := s.db.writeParents now kept s.pending, pending := [] } with hs₁
  have hflush : SeasonProgress kept lost (episode.id :: rest) s s₁ [] ∧
      ∀ c, s.db.identityRows.parentOf c = some kept →
        s₁.db.identityRows.parentOf c = some kept := by
    rw [hs₁]
    split
    · exact ⟨⟨(List.append_nil _).symm, .refl _, hnodup, h⟩, fun c hc => hc⟩
    · refine ⟨flush_progress now hnodup h, fun c hc => parentOf_writeParents (fun i hi => ?_) hc⟩
      exact IdentityRows.contains_of_kindOf (h.episodes i (List.mem_append_left _ hi)).1
  obtain ⟨hprogress, hkeep⟩ := hflush
  have hcandidates :
      ∀ c ∈ (if byFile = [] then s₁.db.coordinateCandidates kept episode else byFile),
      s₁.db.identityRows.parentOf c = some kept := by
    intro c hc
    split at hc
    exacts [parentOf_coordinate hc, hkeep c (hfound c hc)]
  clear_value s₁ byFile
  obtain ⟨hkind, hparent⟩ := hprogress.ready.episodes episode.id (by simp)
  split
  next candidate hcand =>
    have hwinner : s₁.db.identityRows.parentOf candidate = some kept :=
      hcandidates candidate (by rw [hcand]; simp)
    split
    next hsafe =>
      have hstep : EpisodeMerge kept lost ⟨s₁.db, candidate, episode.id⟩ :=
        ⟨hkind, hparent, hwinner, hsafe⟩
      exact ⟨_, hprogress.merge rfl rfl hstep (s₁.db.mergeItem_spec now (hstep.ne hne))⟩
    · exact ⟨[], hprogress.keep⟩
  · exact ⟨[], hprogress.keep⟩

theorem mergeSeason_run (now : Time) (hne : kept ≠ lost)
    (hkept : db.identityRows.kindOf kept = some .season)
    (hlost : db.identityRows.kindOf lost = some .season) :
    MergeRun (EpisodeMerge kept lost) (EpisodeMove kept lost) db (db.mergeSeason now kept lost).2
      (db.mergeSeason now kept lost).1 := by
  have hloop : ∀ (episodes : List MediaItem) (s : SeasonLoop),
      (s.pending ++ episodes.map (·.id)).Nodup →
      SeasonReady kept lost (s.pending ++ episodes.map (·.id)) s.db →
        ∃ log, SeasonProgress kept lost [] s (episodes.foldl (mergeEpisode now kept) s) log := by
    intro episodes
    induction episodes with
    | nil => exact fun s hnodup h => ⟨[], (List.append_nil _).symm, .refl _, hnodup, h⟩
    | cons episode episodes ih =>
      intro s hnodup h
      obtain ⟨log, hstep⟩ := mergeEpisode_progress now hne hnodup h
      obtain ⟨log', hrest⟩ := ih _ hstep.nodup hstep.ready
      refine ⟨log ++ log', ?_, hstep.run.trans hrest.run, hrest.nodup, hrest.ready⟩
      rw [List.foldl_cons, hrest.logged, hstep.logged, List.append_assoc]
  unfold mergeSeason
  dsimp only
  set episodes := db.mediaItems.rows.filter fun m => m.parentId == some lost &&
    m.kind == .episode with hepisodes
  have hnodup : (episodes.map (·.id)).Nodup := (List.filter_sublist.map _).nodup db.mediaItems.nodup
  obtain ⟨log, hprogress⟩ := hloop episodes { db := db } hnodup ⟨hkept, hlost, fun i hi => by
    obtain ⟨m, hm, rfl⟩ := List.mem_map.1 hi
    obtain ⟨hrow, hsel⟩ := List.mem_filter.1 (hepisodes ▸ hm)
    simp only [Bool.and_eq_true, beq_iff_eq] at hsel
    exact ⟨(IdentityRows.kindOf_of_mem hrow).trans (by rw [hsel.2]),
      (IdentityRows.parentOf_of_mem hrow).trans hsel.1⟩⟩
  have hlast := flush_progress now hprogress.nodup hprogress.ready
  have hlog : (episodes.foldl (mergeEpisode now kept) { db := db }).log = log := hprogress.logged
  rw [hlog]
  exact (List.append_nil log) ▸ hprogress.run.trans hlast.run

end Database

/-! ### Seasons of a lost show -/

/-- Two seasons that are merged: one of the show `kept`, and one of `lost` if that is a show. -/
structure SeasonPair (kept lost winner loser : Nat) (db : Database) : Prop where
  winnerKind : db.identityRows.kindOf winner = some .season
  loserKind : db.identityRows.kindOf loser = some .season
  winnerParent : db.identityRows.parentOf winner = some kept
  loserParent : db.identityRows.kindOf lost = some .show →
    db.identityRows.parentOf loser = some lost
  keptKind : db.identityRows.kindOf kept = some .show
  ne : winner ≠ loser

/-- A season of the show `lost` moved to the show `kept`. -/
structure SeasonMove (kept lost : Nat) (db : Database) (parent i : Nat) : Prop where
  kind : db.identityRows.kindOf i = some .season
  loser : db.identityRows.kindOf lost = some .show → db.identityRows.parentOf i = some lost
  parent : parent = kept
  present : db.mediaItems.contains kept = true

/-- The merges of `_merge_hierarchy`: of two seasons, and of the episodes of two seasons that are
merged later. -/
inductive HierarchyMerge (kept lost : Nat) (log : List MergeStep) (step : MergeStep) : Prop
  | season : SeasonPair kept lost step.winner step.loser step.before →
    HierarchyMerge kept lost log step
  | episode (seasons : MergeStep) : seasons ∈ log → EpisodeMerge seasons.winner seasons.loser step →
      SeasonPair kept lost seasons.winner seasons.loser step.before →
        HierarchyMerge kept lost log step

inductive HierarchyMove (kept lost : Nat) (log : List MergeStep) (db : Database)
    (parent i : Nat) : Prop
  | season : SeasonMove kept lost db parent i → HierarchyMove kept lost log db parent i
  | episode (seasons : MergeStep) : seasons ∈ log →
    EpisodeMove seasons.winner seasons.loser db parent i →
      SeasonPair kept lost seasons.winner seasons.loser db → HierarchyMove kept lost log db parent i

/-- The seasons `ids` of the show `lost` are still to be merged into the show `kept`. That they are
below `lost` needs that it is a show; that they are not below `kept` does not. -/
structure ShowReady (kept lost : Nat) (ids : List Nat) (db : Database) : Prop where
  keptKind : db.identityRows.kindOf kept = some .show
  root : db.identityRows.parentOf kept = none
  seasons : ∀ i ∈ ids, db.identityRows.kindOf i = some .season ∧
    db.identityRows.parentOf i ≠ some kept ∧
    (db.identityRows.kindOf lost = some .show → db.identityRows.parentOf i = some lost)

namespace ShowReady
variable {kept lost w l i : Nat} {ids ids' : List Nat} {db db' : Database}

theorem merge (h : ShowReady kept lost ids db) (hs : MergeItem w l db db')
    (hl : db.identityRows.kindOf l = some .episode ∨ db.identityRows.kindOf l = some .season)
    (hw : db.identityRows.parentOf w ≠ none) (hsub : ∀ i ∈ ids', i ∈ ids ∧ i ≠ l) :
    ShowReady kept lost ids' db' := by
  have hshow : ∀ i, db.identityRows.kindOf i = some .show → i ≠ l := by
    rintro i hi rfl
    rcases hl with hl | hl <;> rw [hi] at hl <;> cases hl
  have hwk : w ≠ kept := fun heq => hw (heq ▸ h.root)
  refine ⟨(hs.kindOf_eq (hshow kept h.keptKind)).trans h.keptKind, ?_, fun i hi => ?_⟩
  · rw [hs.parentOf_eq (hshow kept h.keptKind), h.root]; rfl
  obtain ⟨hmem, hne⟩ := hsub i hi
  obtain ⟨hkind, hparent, hlost⟩ := h.seasons i hmem
  refine ⟨(hs.kindOf_eq hne).trans hkind, ?_, fun hshowLost => ?_⟩
  · rw [hs.parentOf_eq hne]
    intro heq
    obtain ⟨p, hp, hinto⟩ := Option.map_eq_some_iff.1 heq
    unfold mergeInto at hinto
    split at hinto
    · exact hwk hinto
    · exact hparent (hp.trans (congrArg some hinto))
  · by_cases hll : lost = l
    · rw [hll] at hshowLost
      exact absurd (hs.contains_iff.1 (IdentityRows.contains_of_kindOf hshowLost)).2
        (fun h => h rfl)
    · rw [hs.kindOf_eq hll] at hshowLost
      rw [hs.parentOf_eq hne, hlost hshowLost, Option.map_some, mergeInto_of_ne hll]

theorem move (h : ShowReady kept lost ids db) (hs : MoveItem w l db db')
    (hl : db.identityRows.kindOf l = some .episode ∨ db.identityRows.kindOf l = some .season)
    (hsub : ∀ i ∈ ids', i ∈ ids ∧ i ≠ l) : ShowReady kept lost ids' db' := by
  have hpresent : db.mediaItems.contains l = true := by
    rcases hl with hl | hl <;> exact IdentityRows.contains_of_kindOf hl
  have hne : kept ≠ l := by
    rintro rfl
    rcases hl with hl | hl <;> rw [h.keptKind] at hl <;> cases hl
  refine ⟨hs.kindOf_eq.trans h.keptKind, ?_, fun i hi => ?_⟩
  · rw [hs.parentOf_eq hpresent, if_neg hne, h.root]
  obtain ⟨hmem, hne⟩ := hsub i hi
  obtain ⟨hkind, hparent, hlost⟩ := h.seasons i hmem
  rw [hs.kindOf_eq, hs.kindOf_eq, hs.parentOf_eq hpresent, if_neg hne]
  exact ⟨hkind, hparent, hlost⟩

end ShowReady

/-- The seasons of a merge while their episodes are merged, and those still to be merged. -/
structure SeasonsReady (kept lost winner loser : Nat) (rest : List Nat) (db : Database) : Prop where
  kind : db.identityRows.kindOf winner = some .season
  parent : db.identityRows.parentOf winner = some kept
  ready : ShowReady kept lost (loser :: rest) db

namespace SeasonsReady
variable {kept lost winner loser parent i : Nat} {rest : List Nat} {db db' : Database}

theorem pair (h : SeasonsReady kept lost winner loser rest db) :
    SeasonPair kept lost winner loser db := by
  obtain ⟨hkind, hparent, hlost⟩ := h.ready.seasons loser List.mem_cons_self
  exact ⟨h.kind, hkind, h.parent, hlost, h.ready.keptKind, fun heq => hparent (heq ▸ h.parent)⟩

theorem merge {step : MergeStep} (hm : EpisodeMerge winner loser step)
    (hs : MergeItem step.winner step.loser step.before db')
    (h : SeasonsReady kept lost winner loser rest step.before) :
    SeasonsReady kept lost winner loser rest db' := by
  have hne : winner ≠ step.loser := by
    intro heq; have := h.kind; rw [heq, hm.kind] at this; cases this
  have hkept : kept ≠ step.loser := by
    intro heq; have := h.ready.keptKind; rw [heq, hm.kind] at this; cases this
  refine ⟨(hs.kindOf_eq hne).trans h.kind, ?_, ?_⟩
  · rw [hs.parentOf_eq hne, h.parent, Option.map_some, mergeInto_of_ne hkept]
  · refine h.ready.merge hs (.inl hm.kind) (by rw [hm.winner]; simp) fun i hi => ⟨hi, ?_⟩
    rintro rfl
    have hkind := (h.ready.seasons _ hi).1
    rw [hm.kind] at hkind; cases hkind

theorem move (hv : EpisodeMove winner loser db parent i) (hs : MoveItem parent i db db')
    (h : SeasonsReady kept lost winner loser rest db) :
    SeasonsReady kept lost winner loser rest db' := by
  have hne : winner ≠ i := by rintro rfl; have := h.kind; rw [hv.kind] at this; cases this
  refine ⟨hs.kindOf_eq.trans h.kind, ?_, ?_⟩
  · rw [hs.parentOf_eq (IdentityRows.contains_of_kindOf hv.kind), if_neg hne, h.parent]
  · refine h.ready.move hs (.inl hv.kind) fun j hj => ⟨hj, ?_⟩
    rintro rfl
    have hkind := (h.ready.seasons _ hj).1
    rw [hv.kind] at hkind; cases hkind

end SeasonsReady

theorem HierarchyMerge.mono {kept lost : Nat} {log log' : List MergeStep}
    (h : ∀ step ∈ log, step ∈ log')
    (step : MergeStep) : HierarchyMerge kept lost log step → HierarchyMerge kept lost log' step
  | .season hp => .season hp
  | .episode seasons hmem hs hp => .episode seasons (h seasons hmem) hs hp

theorem HierarchyMove.mono {kept lost : Nat} {log log' : List MergeStep}
    (h : ∀ step ∈ log, step ∈ log')
    (db : Database) (parent i : Nat) : HierarchyMove kept lost log db parent i →
    HierarchyMove kept lost log' db parent i
  | .season hs => .season hs
  | .episode seasons hmem hs hp => .episode seasons (h seasons hmem) hs hp

/-- What the loop of `_merge_hierarchy` has done so far, from `acc` to `acc'`. -/
structure ShowProgress (kept lost : Nat) (rest : List Nat) (acc acc' : Database × List MergeStep)
    (log : List MergeStep) : Prop where
  logged : acc'.2 = acc.2 ++ log
  run : MergeRun (HierarchyMerge kept lost log) (HierarchyMove kept lost log) acc.1 log acc'.1
  ready : ShowReady kept lost rest acc'.1

namespace ShowProgress
variable {kept lost : Nat} {rest rest' : List Nat} {acc acc' acc'' : Database × List MergeStep}
  {log log' : List MergeStep}

theorem trans (h : ShowProgress kept lost rest acc acc' log)
    (h' : ShowProgress kept lost rest' acc' acc'' log') :
    ShowProgress kept lost rest' acc acc'' (log ++ log') where
  logged := by rw [h'.logged, h.logged, List.append_assoc]
  run := (h.run.mono (HierarchyMerge.mono fun _ => List.mem_append_left _)
      (HierarchyMove.mono fun _ => List.mem_append_left _)).trans
    (h'.run.mono (HierarchyMerge.mono fun _ => List.mem_append_right _)
      (HierarchyMove.mono fun _ => List.mem_append_right _))
  ready := h'.ready

/-- The episodes of two seasons and then the seasons merged. -/
theorem season {db db' db'' : Database} {step : MergeStep} {logged : List MergeStep}
    (hrun : MergeRun (EpisodeMerge step.winner step.loser)
      (EpisodeMove step.winner step.loser) db log db')
    (h : SeasonsReady kept lost step.winner step.loser rest db) (hnodup : step.loser ∉ rest)
    (hbefore : step.before = db') (hmerge : MergeItem step.winner step.loser db' db'') :
    ShowProgress kept lost rest (db, logged) (db'', logged ++ log ++ [step]) (log ++ [step]) := by
  have hmem : step ∈ log ++ [step] := List.mem_append_right _ (List.mem_singleton.2 rfl)
  obtain ⟨hepisodes, hready⟩ := hrun.strengthen h (fun _ _ hm hs => SeasonsReady.merge hm hs)
    fun _ _ _ _ hv hs => SeasonsReady.move hv hs
  have hpair := hready.pair
  refine ⟨List.append_assoc .., ?_, ?_⟩
  · have hrun' := hepisodes.mono (fun _ ⟨hs, hr⟩ => HierarchyMerge.episode step hmem hs hr.pair)
      fun _ _ _ ⟨hs, hr⟩ => HierarchyMove.episode step hmem hs hr.pair
    exact hrun'.merge hbefore (.season (hbefore ▸ hpair)) hmerge
  · refine hready.ready.merge hmerge (.inr hpair.loserKind) (by rw [hpair.winnerParent]; simp)
      fun i hi => ?_
    exact ⟨List.mem_cons_of_mem _ hi, fun heq => hnodup (heq ▸ hi)⟩

end ShowProgress

namespace Database
variable {kept lost : Nat} {db : Database} {now : Time}

theorem mergeShowSeason_progress (now : Time) {acc : Database × List MergeStep} {season : MediaItem}
    {rest : List Nat}
    (hnodup : season.id ∉ rest) (h : ShowReady kept lost (season.id :: rest) acc.1) :
    ∃ log, ShowProgress kept lost rest acc (mergeShowSeason now kept acc season) log := by
  obtain ⟨hkind, hparent, hlost⟩ := h.seasons season.id List.mem_cons_self
  have hrest : ∀ i ∈ rest, i ∈ season.id :: rest ∧ i ≠ season.id := fun i hi =>
    ⟨List.mem_cons_of_mem _ hi, fun heq => hnodup (heq ▸ hi)⟩
  unfold mergeShowSeason
  dsimp only
  split
  next candidate hcand =>
    have hmem : candidate ∈ acc.1.mediaItems.rows.filter fun m =>
        m.parentId == some kept && m.kind == .season &&
          m.seasonNumber == season.seasonNumber := by rw [hcand]; simp
    obtain ⟨hrow, hsel⟩ := List.mem_filter.1 hmem
    simp only [Bool.and_eq_true, beq_iff_eq] at hsel
    have hcparent : acc.1.identityRows.parentOf candidate.id = some kept :=
      (IdentityRows.parentOf_of_mem hrow).trans hsel.1.1
    have hckind : acc.1.identityRows.kindOf candidate.id = some .season :=
      (IdentityRows.kindOf_of_mem hrow).trans (by rw [hsel.1.2])
    have hne : candidate.id ≠ season.id := fun heq => hparent (heq ▸ hcparent)
    have hrun := mergeSeason_run now hne hckind hkind
    generalize acc.1.mergeSeason now candidate.id season.id = merged at hrun ⊢
    obtain ⟨merged, log⟩ := merged
    exact ⟨_, .season hrun ⟨hckind, hcparent, h⟩ hnodup rfl (merged.mergeItem_spec now hne)⟩
  next hcand =>
    have hmove := acc.1.saveParent_spec now kept season.id
    refine ⟨[], (List.append_nil _).symm, ?_, h.move hmove (.inr hkind) hrest⟩
    exact (MergeRun.refl _).move
      (.season ⟨hkind, hlost, rfl, IdentityRows.contains_of_kindOf h.keptKind⟩) hmove
  next =>
    exact ⟨[], (List.append_nil _).symm, .refl _, h.keptKind, h.root, fun i hi =>
      h.seasons i (List.mem_cons_of_mem _ hi)⟩

/-- The steps of `_merge_hierarchy`. -/
theorem mergeHierarchy_run (now : Time) (hne : kept ≠ lost)
    (hroot : db.identityRows.kindOf kept = some .show → db.identityRows.parentOf kept = none) :
    MergeRun (HierarchyMerge kept lost (db.mergeHierarchy now kept lost).2)
      (HierarchyMove kept lost (db.mergeHierarchy now kept lost).2) db
        (db.mergeHierarchy now kept lost).2
        (db.mergeHierarchy now kept lost).1 := by
  have hloop : ∀ (seasons : List MediaItem) (acc : Database × List MergeStep),
      (seasons.map (·.id)).Nodup →
      ShowReady kept lost (seasons.map (·.id)) acc.1 →
        ∃ log,
          ShowProgress kept lost [] acc (seasons.foldl (mergeShowSeason now kept) acc) log := by
    intro seasons
    induction seasons with
    | nil => exact fun acc _ h => ⟨[], (List.append_nil _).symm, .refl _, h⟩
    | cons season seasons ih =>
      intro acc hnodup h
      obtain ⟨hseason, hnodup⟩ := List.nodup_cons.1 hnodup
      obtain ⟨log, hstep⟩ := mergeShowSeason_progress now hseason h
      obtain ⟨log', hrest⟩ := ih _ hnodup hstep.ready
      exact ⟨log ++ log', hstep.trans hrest⟩
  unfold mergeHierarchy
  split
  · exact .refl db
  next hkind =>
    have hshow : db.identityRows.kindOf kept = some .show := by simpa using hkind
    set seasons := db.mediaItems.rows.filter fun m => m.parentId == some lost &&
      m.kind == .season with hseasons
    have hnodup : (seasons.map (·.id)).Nodup :=
      (List.filter_sublist.map _).nodup db.mediaItems.nodup
    obtain ⟨log, hlogged, hrun, -⟩ :=
        hloop seasons (db, []) hnodup ⟨hshow, hroot hshow, fun i hi => by
      obtain ⟨m, hm, rfl⟩ := List.mem_map.1 hi
      obtain ⟨hrow, hsel⟩ := List.mem_filter.1 (hseasons ▸ hm)
      simp only [Bool.and_eq_true, beq_iff_eq] at hsel
      have hparent : db.identityRows.parentOf m.id = some lost :=
        (IdentityRows.parentOf_of_mem hrow).trans hsel.1
      refine ⟨(IdentityRows.kindOf_of_mem hrow).trans (by rw [hsel.2]), ?_, fun _ => hparent⟩
      rw [hparent]
      exact fun heq => hne (Option.some_inj.1 heq).symm⟩
    have hlog : (seasons.foldl (mergeShowSeason now kept) (db, [])).2 = log := hlogged
    dsimp only
    rw [hlog]
    exact hrun

end Database

end Euvieouvi
