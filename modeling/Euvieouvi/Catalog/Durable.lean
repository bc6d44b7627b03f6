import Euvieouvi.Catalog.MatchKept

/-!
# Manual matches are durable

A merge gives an item with a manual match to a winner with the same match, and takes no identifiers
of a loser below one. So `MatchesKept` holds through the reconciliation, and the log of the merges
says which item carries a match in the end.
-/

namespace Euvieouvi

/-- No identifiers are read from the title. -/
def NoToken (py : PyLib) (title : String) : Prop :=
  ∀ metadata, parseEmbeddedIdentifiers py title = some metadata → metadata.identifiers = []

instance (py : PyLib) (title : String) : Decidable (NoToken py title) :=
  decidable_of_iff (((parseEmbeddedIdentifiers py title).all fun metadata =>
      decide (metadata.identifiers = [])) = true) <| by
    unfold NoToken
    cases parseEmbeddedIdentifiers py title <;> simp

namespace Database
variable {db db' db'' : Database} {w l i : Nat} {now : Time}

theorem manualMatchOf_fillMissing (db : Database) (now : Time) (w l : Nat) :
    (db.fillMissing now w l).identityRows.manualMatchOf i = db.identityRows.manualMatchOf i := by
  unfold fillMissing
  split
  next lost _ =>
    obtain ⟨g, hget, hg⟩ := db.saveMediaItem_row now w i ⟨fun m => m.fillMissing lost, fun _ => rfl⟩
    unfold IdentityRows.manualMatchOf
    refine (congrArg (Option.bind · _) hget).trans ?_
    show ((db.mediaItems.get? i).map g).bind _ = (db.mediaItems.get? i).bind _
    cases db.mediaItems.get? i with
    | none => rfl
    | some m =>
      rcases hg m with heq | ⟨-, heq⟩ <;> exact (congrArg MediaItem.manualMatch heq).trans rfl
  next => rfl

theorem identifiersAt_dropContradicted (db : Database) (hi : i ≠ l) :
    (db.dropContradictedIdentifiers w l).identifiersAt i = db.identifiersAt i := by
  have hkeep : ∀ r : MediaIdentifier, r.mediaItemId = l → (r.mediaItemId == i) = false := by
    rintro r rfl
    simpa using hi.symm
  have hfirst : ∀ (d : Database) (p : MediaIdentifier → Bool),
      (∀ r, p r = true → r.mediaItemId = l) →
      (d.deleteMediaIdentifiers p).identifiersAt i = d.identifiersAt i := by
    intro d p hp
    unfold identifiersAt
    rw [mediaIdentifiers_deleteMediaIdentifiers]
    exact Table.filter_delete fun r _ hr => hkeep r (hp r hr)
  unfold dropContradictedIdentifiers
  dsimp only
  split
  · rw [hfirst _ _ fun r hr => by simpa using hr, hfirst _ _ fun r hr => by simp_all]
  · exact hfirst _ _ fun r hr => by simp_all

/-- Below a manual match, the loser has no identifiers left. -/
theorem dropContradicted_loser (db : Database)
    (h : (db.identityRows.manualMatchOf w).isSome = true) :
    ∀ r ∈ (db.dropContradictedIdentifiers w l).mediaIdentifiers.rows, r.mediaItemId ≠ l := by
  intro r hr
  unfold dropContradictedIdentifiers at hr
  dsimp only at hr
  rw [if_pos h, mediaIdentifiers_deleteMediaIdentifiers] at hr
  simpa using (Table.mem_delete.1 hr).2

theorem identifiersAt_moveMediaIdentifiers (db : Database) (hi : i ≠ l)
    (hw : i = w → ∀ r ∈ db.mediaIdentifiers.rows, r.mediaItemId ≠ l) :
    (db.moveMediaIdentifiers w l).identifiersAt i = db.identifiersAt i := by
  unfold moveMediaIdentifiers identifiersAt
  rw [mediaIdentifiers_updateMediaIdentifiers, mediaIdentifiers_deleteMediaIdentifiers]
  by_cases hiw : i = w
  · have hnone : ∀ r ∈ db.mediaIdentifiers.rows, (r.mediaItemId == l) = false := fun r hr => by
      simpa using hw hiw r hr
    rw [Table.update_of_none, Table.delete_of_none]
    · exact List.any_eq_false.2 fun r hr => by simp [hnone r hr]
    · exact List.any_eq_false.2 fun r hr => by simp [hnone r (Table.mem_delete.1 hr).1]
  · have hkeep : ∀ r : MediaIdentifier, r.mediaItemId = l → (r.mediaItemId == i) = false := by
      rintro r rfl
      simpa using hi.symm
    rw [Table.filter_update, Table.filter_delete]
    · exact fun r _ hr => hkeep r (by simp_all)
    · exact fun r _ hr => ⟨hkeep r (by simpa using hr), by simpa using Ne.symm hiw⟩

/-- A merge changes no identifiers of an item it is not about, nor of a winner with a manual
match. -/
theorem identifiersAt_mergeItem (db : Database) (now : Time) (hi : i ≠ l)
    (hw : i = w → (db.identityRows.manualMatchOf w).isSome = true) :
    (db.mergeItem now w l).identifiersAt i = db.identifiersAt i := by
  have hmanual : i = w → ((db.fillMissing now w l).identityRows.manualMatchOf w).isSome =
      true := fun h => by
    rw [manualMatchOf_fillMissing]; exact hw h
  have hat := (fillMissing_spec db now w l).1.identifiersAt (by decide) i
  unfold mergeItem
  generalize db.fillMissing now w l = d₁ at *
  have hdrop := identifiersAt_dropContradicted (w := w) d₁ hi
  have hloser : i = w → _ := fun h => dropContradicted_loser (l := l) d₁ (hmanual h)
  generalize d₁.dropContradictedIdentifiers w l = d₂ at *
  have hmoved := identifiersAt_moveMediaIdentifiers d₂ hi hloser
  have hmeta : (d₂.moveMetadata w l).identifiersAt i =
      (d₂.moveMediaIdentifiers w l).identifiersAt i := rfl
  generalize d₂.moveMetadata w l = d₃ at *
  have hstates := (d₃.mergeWatchStates_frame w l).identifiersAt (by decide) i
  generalize d₃.mergeWatchStates w l = d₄ at *
  have hrest : Frame [.mediaItems, .sourceMediaRefs, .mediaGenres, .mediaImages, .enrichmentRecords,
      .watchEvents,
      .dirtyItems, .catalogEntries, .catalogEntryMembers] d₄
      ((((d₄.moveWatchEvents w l).moveReferences w l).moveChildren w l).deleteMediaItem l) := by
    refine (((Frame.mono (updateWatchEvents_frame _ _) ?_).trans
      (Frame.mono (updateSourceMediaRefs_frame _ _) ?_)).trans
      (Frame.mono (updateMediaItems_frame _ _) ?_)).trans
        (Frame.mono (deleteMediaItem_frame _ l) ?_) <;> decide
  rw [hrest.identifiersAt (by decide), hstates, hmeta, hmoved, hdrop, hat]

/-! ### The reconciliation -/

section Steps
variable {known : List TmdbMatch} {py : PyLib} {L : Prop} {log log' : List MergeStep}

/-- An item whose identifiers are read from its title has no manual match. -/
theorem MatchesKept.recover_unmatched (h : MatchesKept known db)
    (htitles : ∀ t ∈ known, NoToken py t.title) {m : MediaItem}
    (hm : db.mediaItems.get? i = some m) {metadata : EmbeddedMetadata}
    (hparsed : parseEmbeddedIdentifiers py m.title = some metadata)
    (hids : metadata.identifiers ≠ []) :
    db.identityRows.manualMatchOf i = none := by
  by_contra hsome
  obtain ⟨x, hx⟩ := Option.ne_none_iff_exists'.1 hsome
  obtain ⟨t, ht, -, hmatched⟩ := h.matched i x hx
  obtain ⟨m', hm', -, htitle, -⟩ := hmatched.row
  obtain rfl : m = m' := Option.some_inj.1 (hm.symm.trans hm')
  exact hids (htitles t ht metadata (htitle ▸ hparsed))

theorem MatchedRows.identified {k : Nat} (hs : Identified k db db')
    (hk : db.identityRows.manualMatchOf k = none) :
    MatchedRows db db' := by
  have hitems : db'.mediaItems = db.mediaItems := hs.frame .mediaItems (by decide)
  refine ⟨fun j m' hm' _ => ⟨m', hitems ▸ hm', .refl m'⟩, fun j hj _ => hs.identifiersAt ?_⟩
  rintro rfl
  exact hj hk

theorem MatchesKept.reconcileStep (h : MatchesKept known db)
    (htitles : ∀ t ∈ known, NoToken py t.title)
    (hs : ReconcileStep py L True db log db') : MatchesKept known db' := by
  have hrooted := hs.rooted h.rooted
  cases hs with
  | merge now step hne =>
    refine h.step hrooted ⟨fun i m' hm' _ => ?_, fun i hi hafter => ?_⟩
    · exact RowsRelate.of_merge MediaItem.Keeps.refl MediaItem.Keeps.trans
        (fun lost m now => ⟨rfl, rfl, rfl, fun o ho => by simp [MediaItem.fillMissing, ho],
          fun y hy => by simp [MediaItem.fillMissing, hy]⟩)
        (fun m p => ⟨rfl, rfl, rfl, fun _ ho => ho, fun _ hy => hy⟩) _ now _ _ i m' hm'
    · have hl : i ≠ step.loser := ((step.before.mergeItem_spec now hne).contains_iff.1 hafter).2
      exact identifiersAt_mergeItem _ now hl fun hw => hw ▸ Option.isSome_iff_ne_none.2 hi
  | move now parent i k =>
    have hframe : Frame [.mediaItems] db (db.saveParent now parent i) := updateMediaItems_frame _ _
    refine h.step hrooted ⟨fun j m' hm' _ => ?_, fun j _ _ => hframe.identifiersAt (by decide) j⟩
    have hitems : (db.saveParent now parent i).mediaItems = _ := mediaItems_updateMediaItems _ _
    exact RowsRelate.of_table MediaItem.Keeps.refl
      (fun m => ⟨rfl, rfl, rfl, fun _ ho => ho, fun _ hy => hy⟩) hitems j m' hm'
  | recover now s s' m hm hrecovered =>
    rcases recoverItem_spec hrecovered with heq | ⟨metadata, hparsed, hne, hids⟩
    · rwa [heq]
    · have hnone := h.recover_unmatched htitles hm hparsed hne
      have hsaved : MatchedRows s.db (s.db.saveMediaItem now m.id
          ⟨fun m => { m with title := metadata.title }, fun _ => rfl⟩) :=
        .save s.db now (fun _ => rfl) hnone
      have hkept : MatchesKept known (s.db.saveMediaItem now m.id
          ⟨fun m => { m with title := metadata.title }, fun _ => rfl⟩) :=
        h.step (h.rooted.save fun _ hm => hm) hsaved
      refine hkept.step hrooted (.identified hids ?_)
      by_contra hsome
      obtain ⟨x, hx⟩ := Option.ne_none_iff_exists'.1 hsome
      obtain ⟨m', hm', hmanual⟩ := Option.bind_eq_some_iff.1 hx
      obtain ⟨m₀, hm₀, hkeeps⟩ := hsaved.rows m.id m' hm' (by rw [hmanual]; simp)
      rw [manualMatchOf_of_get? hm₀, ← hkeeps.manualMatch, hmanual] at hnone
      cases hnone
  | stale =>
    exact h.of_frame (fun name (_ : name ∉ ([] : List TableName)) => by cases name <;> rfl)
      (by decide) (by decide)

/-- The match of an item is found at its survivor. -/
def ManualFollowed (log : List MergeStep) (db db' : Database) : Prop :=
  ∀ i x, db.identityRows.manualMatchOf i = some x →
    db'.identityRows.manualMatchOf (survivorOf log i) = some x

theorem ManualFollowed.trans (h : ManualFollowed log db db') (h' : ManualFollowed log' db' db'') :
    ManualFollowed (log ++ log') db db'' := by
  intro i x hx
  rw [survivorOf_append]
  exact h' _ x (h i x hx)

/-- The merged items have no two manual matches. -/
def AgreeManually (step : MergeStep) : Prop :=
  ∀ x y, step.before.identityRows.manualMatchOf step.winner = some x →
    step.before.identityRows.manualMatchOf step.loser = some y → x = y

theorem contains_of_manualMatchOf {x : String} (h : db.identityRows.manualMatchOf i = some x) :
    db.mediaItems.contains i = true := by
  obtain ⟨m, hm, -⟩ := Option.bind_eq_some_iff.1 h
  exact Option.isSome_iff_exists.2 ⟨m, hm⟩

theorem ManualFollowed.of_remains (hr : Remains db db')
    (h : ∀ i, db.mediaItems.contains i = true → db'.mediaItems.contains i = true) :
    ManualFollowed [] db db' := by
  intro i x hx
  exact (hr.manualMatchOf_eq (h i (contains_of_manualMatchOf hx))).trans hx

theorem MatchesKept.merge_guarded (h : MatchesKept known db) (hguard : db.ManualGuarded w l)
    {x : String}
    (hx : db.identityRows.manualMatchOf l = some x) : db.identityRows.manualMatchOf w = some x := by
  rcases hguard with hl | hl | hsame
  · rcases h.kinds l x hx with hk | hk <;> rw [hl] at hk <;> cases hk
  · rcases h.kinds l x hx with hk | hk <;> rw [hl] at hk <;> cases hk
  · exact hsame x hx

theorem MatchesKept.followed (h : MatchesKept known db) (hs : ReconcileStep py L True db log db') :
    ManualFollowed log db db' ∧ ∀ step ∈ log, AgreeManually step := by
  have hr := hs.remains
  cases hs with
  | merge now step hne hw _ hguard =>
    have hspec := step.before.mergeItem_spec now hne
    have hwinner := hr.manualMatchOf_eq (hspec.contains_iff.2 ⟨hw, hne⟩)
    refine ⟨fun i x hx => ?_, fun step' hstep' x y hx hy => ?_⟩
    · rw [show survivorOf [step] = mergeInto step.winner step.loser from rfl]
      by_cases hl : i = step.loser
      · rw [hl, mergeInto_loser, hwinner]
        exact h.merge_guarded (hguard trivial) (hl ▸ hx)
      · rw [mergeInto_of_ne hl,
          hr.manualMatchOf_eq (hspec.contains_iff.2 ⟨contains_of_manualMatchOf hx, hl⟩)]
        exact hx
    · obtain rfl := List.mem_singleton.1 hstep'
      rw [h.merge_guarded (hguard trivial) hy] at hx
      exact (Option.some_inj.1 hx).symm
  | move now parent i =>
    refine ⟨.of_remains hr fun j hj => ?_, fun _ h => absurd h List.not_mem_nil⟩
    obtain ⟨g, hget, -⟩ :=
      db.saveMediaItem_row now i j ⟨fun m => { m with parentId := some parent }, fun _ => rfl⟩
    unfold Table.contains at hj ⊢
    rw [show (db.saveParent now parent i).mediaItems.get? j = _ from hget, Option.isSome_map]
    exact hj
  | recover now s s' m _ hrecovered =>
    refine ⟨.of_remains hr fun j hj => ?_, fun _ h => absurd h List.not_mem_nil⟩
    obtain ⟨m, hm⟩ := Option.isSome_iff_exists.1 hj
    obtain ⟨m', hm', -⟩ := recoverItem_itemsKept hrecovered j m hm
    exact Option.isSome_iff_exists.2 ⟨m', hm'⟩
  | stale => exact ⟨.of_remains hr fun _ hj => hj, fun _ h => absurd h List.not_mem_nil⟩

theorem ReconcileSteps.matchesKept (hs : ReconcileSteps py L True db log db')
    (h : MatchesKept known db) (htitles : ∀ t ∈ known, NoToken py t.title) :
    MatchesKept known db' ∧ ManualFollowed log db db' ∧ ∀ step ∈ log, AgreeManually step := by
  induction hs with
  | refl => exact ⟨h, fun _ _ hx => hx, fun _ h => absurd h List.not_mem_nil⟩
  | tail _ hs ih =>
    obtain ⟨hkept, hfollowed, hagree⟩ := ih
    obtain ⟨hfollowed', hagree'⟩ := hkept.followed hs
    refine ⟨hkept.reconcileStep htitles hs, hfollowed.trans hfollowed', fun step hstep => ?_⟩
    exact (List.mem_append.1 hstep).elim (hagree step) (hagree' step)

end Steps

end Database

end Euvieouvi
