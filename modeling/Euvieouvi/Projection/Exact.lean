import Euvieouvi.Projection.Statements
import Euvieouvi.Projection.Tree
import Mathlib.Data.Set.Card

/-!
# When the refresh is exact

After a rebuild and any changes of events and states, `refresh_catalog_activity` and
`rebuild_catalog_projection` are compared entry by entry. An entry that a dirty item reaches gets
the values of a rebuild. Any other entry keeps the stored ones, and of these only the count of
completed episodes can have changed: its episode entries may have members below the shows of other
entries. So the refresh is exact precisely when below each entry that no dirty item reaches as many
episode entries lost their last completion as got their first (`refresh_exact_iff`).
-/

namespace Euvieouvi

/-- From `db` to `db'` only events and states changed, and every item of a changed row is dirty. -/
structure ActivityOnly (db db' : Database) : Prop where
  identityRows : db'.identityRows = db.identityRows
  catalogEntries : db'.catalogEntries = db.catalogEntries
  catalogEntryMembers : db'.catalogEntryMembers = db.catalogEntryMembers
  dirty : ∀ i, db.dirtyItems.contains i = true → db'.dirtyItems.contains i = true
  events : ∀ keep : Nat → Bool, (∀ i, db'.dirtyItems.contains i = true → keep i = false) →
    db'.watchEvents.rows.filter (fun r => keep r.mediaItemId) = db.watchEvents.rows.filter fun r =>
      keep r.mediaItemId
  states : ∀ keep : Nat → Bool, (∀ i, db'.dirtyItems.contains i = true → keep i = false) →
    db'.watchStates.rows.filter (fun r => keep r.mediaItemId) = db.watchStates.rows.filter fun r =>
      keep r.mediaItemId

namespace ActivityOnly
variable {db db' db'' : Database}

theorem refl (db : Database) : ActivityOnly db db :=
  ⟨rfl, rfl, rfl, fun _ h => h, fun _ _ => rfl, fun _ _ => rfl⟩

theorem trans (h : ActivityOnly db db') (h' : ActivityOnly db' db'') : ActivityOnly db db'' where
  identityRows := h'.identityRows.trans h.identityRows
  catalogEntries := h'.catalogEntries.trans h.catalogEntries
  catalogEntryMembers := h'.catalogEntryMembers.trans h.catalogEntryMembers
  dirty i hi := h'.dirty i (h.dirty i hi)
  events keep hk := (h'.events keep hk).trans (h.events keep fun i hi => hk i (h'.dirty i hi))
  states keep hk := (h'.states keep hk).trans (h.states keep fun i hi => hk i (h'.dirty i hi))

theorem apply (s : ActivityStatement) (db : Database) : ActivityOnly db (s.apply db) := by
  obtain ⟨events, states, hs⟩ := s.apply_eq db
  have hdirty : ∀ i, (s.apply db).dirtyItems.contains i = true ↔
      db.dirtyItems.contains i = true ∨ i ∈ s.items db := fun i => by
    rw [hs, Database.contains_activityTrigger]
  refine ⟨?_, ?_, ?_, fun i hi => (hdirty i).2 (.inl hi), fun keep hk => ?_, fun keep hk => ?_⟩
  · rw [hs]; simp [Database.identityRows]
  · rw [hs]; simp
  · rw [hs]; simp
  · exact s.filter_watchEvents fun i hi => hk i ((hdirty i).2 (.inr hi))
  · exact s.filter_watchStates fun i hi => hk i ((hdirty i).2 (.inr hi))

theorem foldl (changes : List ActivityStatement) (db : Database) :
    ActivityOnly db (changes.foldl (fun db s => s.apply db) db) := by
  induction changes generalizing db with
  | nil => exact refl db
  | cons s changes ih => exact (apply s db).trans (ih _)

end ActivityOnly

/-- The columns both functions compute from events and states. -/
structure Playback where
  completionCount : Nat
  firstPlayedAt : Option Time
  lastCompletedAt : Option Time
  lastPlayedAt : Option Time
  progressMs : Nat
  childCount : Nat
  completedChildCount : Nat
deriving DecidableEq, Repr

def Stats.playback (s : Stats) (childCount completedChildCount : Nat) : Playback :=
  ⟨s.completionCount, s.firstPlayedAt, s.lastCompletedAt, s.lastPlayedAt, s.progressMs, childCount,
    completedChildCount⟩

def CatalogEntry.playback (entry : CatalogEntry) : Playback :=
  ⟨entry.completionCount, entry.firstPlayedAt, entry.lastCompletedAt, entry.lastPlayedAt,
    entry.progressMs,
    entry.childCount, entry.completedChildCount⟩

namespace Database
variable {py : PyLib} {db db' : Database} {e i x : Nat} {now : Time}

/-- The stats of the entry by the loops over all events and states. -/
def activityStats (py : PyLib) (db : Database) : Nat → Stats :=
  foldActivity (db.canonicalByItem py) db.ancestorsOf db.watchEvents.rows db.watchStates.rows

/-- A member of the entry has a completed event, or a completed state that counts a view. -/
def HasCompletion (py : PyLib) (db : Database) (e : Nat) : Prop :=
  (∃ r ∈ db.watchEvents.rows, r.completed = true ∧ db.canonicalByItem py r.mediaItemId = some e) ∨
    ∃ r ∈ db.watchStates.rows, db.canonicalByItem py r.mediaItemId = some e ∧ r.completed = true ∧
      0 < r.viewCount

theorem activityStats_pos : 0 < (db.activityStats py e).completionCount ↔
    db.HasCompletion py e := by
  have hcount : ∀ r : WatchState, 0 < r.completedCount ↔ r.completed = true ∧ 0 < r.viewCount := by
    intro r
    unfold WatchState.completedCount
    cases r.completed <;> simp
  unfold activityStats HasCompletion
  rw [completionCount_pos]
  simp only [hcount]

theorem rebuiltStats_playback (c d : Nat) :
    (db.rebuiltStats py e).playback c d = (db.activityStats py e).playback c d := by
  unfold rebuiltStats
  rw [foldl_modifyAt (fun row : Nat × ConnectorType => db.canonicalByItem py row.1)]
  generalize db.availableReferences.filter _ = rows
  show (rows.foldl _ (db.activityStats py e)).playback c d = _
  generalize db.activityStats py e = s
  induction rows generalizing s with
  | nil => rfl
  | cons row rows ih => exact ih _

theorem rebuiltEntry_playback (key : Nat × String) :
    (db.rebuiltEntry py now key).playback =
      (db.activityStats py key.1).playback (db.rebuiltChildren py key.1).length
      ((db.rebuiltChildren py key.1).countP fun i =>
        0 < (db.activityStats py i).completionCount) := by
  have hcount : ∀ i, (db.rebuiltStats py i).completionCount =
      (db.activityStats py i).completionCount := fun i =>
    congrArg Playback.completionCount (rebuiltStats_playback 0 0)
  rw [← rebuiltStats_playback]
  show Stats.playback _ _ (List.countP _ _) = _
  simp only [hcount]
  rfl

/-- The first group key of an entry, which is the one that is stored. -/
def groupKeyOf (py : PyLib) (db : Database) (e : Nat) : Option (Nat × String) :=
  (db.identityRows.groupKeys py).find? fun key => key.1 = e

theorem get?_rebuilt : (db.rebuildCatalogProjection py now).2.catalogEntries.get? e =
    (db.groupKeyOf py e).map (db.rebuiltEntry py now) := by
  show (((db.identityRows.groupKeys py).map (db.rebuiltEntry py now)).foldl
    Table.insert .empty).get? e = _
  rw [Table.get?_foldl_insert, Table.get?_empty, Option.none_or, List.find?_map]
  rfl

theorem groupKeyOf_of_canonicalByItem (h : db.canonicalByItem py i = some e) :
    ∃ key, db.groupKeyOf py e = some key := by
  obtain ⟨key, hkey⟩ := mem_groupKeys_of_canonicalByItem h
  exact Option.isSome_iff_exists.1 (List.find?_isSome.2 ⟨_, hkey, by simp⟩)

theorem groupKeyOf_fst {key : Nat × String} (h : db.groupKeyOf py e = some key) : key.1 = e := by
  simpa using List.find?_some h

section Congr
variable (h : db'.identityRows = db.identityRows)
include h

theorem canonicalByItem_congr : db'.canonicalByItem py = db.canonicalByItem py := by
  unfold canonicalByItem projectedMembers; rw [h]

theorem ancestorsOf_congr : db'.ancestorsOf = db.ancestorsOf := by
  have hitems : db'.mediaItems = db.mediaItems := congrArg IdentityRows.mediaItems h
  unfold ancestorsOf walkFuel; rw [h, hitems]

theorem rebuiltChildren_congr : db'.rebuiltChildren py e = db.rebuiltChildren py e := by
  have hrefs : db'.sourceMediaRefs = db.sourceMediaRefs := congrArg IdentityRows.sourceMediaRefs h
  have hsources : db'.sources = db.sources := congrArg IdentityRows.sources h
  unfold rebuiltChildren availableReferences
  rw [ancestorsOf_congr h, canonicalByItem_congr h, h, hrefs, hsources]

theorem groupKeyOf_congr : db'.groupKeyOf py e = db.groupKeyOf py e := by
  unfold groupKeyOf; rw [h]

end Congr

/-- Neither the members of an untouched entry nor the items below them have changed. -/
theorem activityStats_untouched (hforest : Shallow db.identityRows.parentOf 4)
    (h : ActivityOnly db db')
    (he : ¬ db'.Touched py e) : db'.activityStats py e = db.activityStats py e := by
  set keep : Nat → Bool := fun i => !db'.dirtyItems.contains i with hkeep
  have hcanon : db'.canonicalByItem py = db.canonicalByItem py :=
    canonicalByItem_congr h.identityRows
  have hanc : db'.ancestorsOf = db.ancestorsOf := ancestorsOf_congr h.identityRows
  have hdirty : ∀ i, db'.dirtyItems.contains i = true → keep i = false :=
    fun i hi => by rw [hkeep]; simp [hi]
  have hbelow : ∀ {i a}, a ∈ db.ancestorsOf i → db.canonicalByItem py a = some e →
      keep i = true := by
    intro i a ha hae
    cases hi : db'.dirtyItems.contains i with
    | false => simp [hkeep, hi]
    | true => exact absurd ⟨i, hi, a, by rw [hanc]; exact ha, by rw [hcanon]; exact hae⟩ he
  have hself : ∀ {i}, db.canonicalByItem py i = some e → keep i = true := fun hi =>
    hbelow ((mem_ancestorsOf hforest).2 ⟨0, rfl⟩) hi
  have hfilter : ∀ {ρ : Type} (item : ρ → Nat) (rows : List ρ),
      rows.filter (fun r => db.canonicalByItem py (item r) = some e) =
        (rows.filter fun r => keep (item r)).filter fun r =>
          db.canonicalByItem py (item r) = some e := by
    intro ρ item rows
    rw [List.filter_filter]
    refine List.filter_congr fun r _ => ?_
    by_cases hr : db.canonicalByItem py (item r) = some e
    · simp [hr, hself hr]
    · simp [hr]
  unfold activityStats
  rw [hcanon, hanc]
  refine foldActivity_congr ?_ ?_ fun t => exists_congr fun i => and_congr_left ?_
  · unfold entryEvents
    rw [hfilter WatchEvent.mediaItemId,
      hfilter WatchEvent.mediaItemId (db.watchEvents.rows.filter _)]
    have hcomm : ∀ rows : List WatchEvent,
        (rows.filter (·.completed)).filter (fun r => keep r.mediaItemId) =
        (rows.filter fun r => keep r.mediaItemId).filter (·.completed) := fun rows => by
      rw [List.filter_filter, List.filter_filter]; simp only [Bool.and_comm]
    rw [hcomm, hcomm, h.events keep hdirty]
  · unfold entryStates
    rw [hfilter WatchState.mediaItemId, hfilter WatchState.mediaItemId db.watchStates.rows,
      h.states keep hdirty]
  · rintro ⟨a, ha, hae⟩
    have hlookup : ∀ events states, (activityByItem events states).lookup i = (activityByItem
        (events.filter fun r => keep r.mediaItemId)
          (states.filter fun r => keep r.mediaItemId)).lookup i := by
      intro events states
      rw [lookup_activityByItem_filter, if_pos (hbelow ha hae)]
    rw [hlookup, hlookup db.watchEvents.rows, h.events keep hdirty, h.states keep hdirty]

theorem get?_refreshed (hdirty : db.dirtyItems.rows ≠ []) :
    (db.refreshCatalogActivity py now).2.catalogEntries.get? e =
      (db.catalogEntries.get? e).map fun entry =>
      if db.impactedEntries.contains entry.mediaItemId then
        db.refreshEntry now db.impactedEntries (db.activityTree db.impactedEntries) entry
      else entry := by
  have hlen : db.dirtyItems.rows.length ≠ 0 := by simpa using hdirty
  unfold refreshCatalogActivity
  rw [if_neg hlen]
  by_cases hi : db.impactedEntries = []
  · simp only [hi, List.contains_nil, Bool.false_eq_true, if_false]
    exact Option.map_id'.symm
  · simp only [if_neg hi]
    exact Table.get?_update ..

/-- After a rebuild and changes of activity, the stored entries are those of the rebuild. -/
structure AfterRebuild (py : PyLib) (now : Time) (db db' : Database) : Prop where
  forest : Shallow db.identityRows.parentOf 4
  sources : db.ReferencesHaveSources
  activity : ActivityOnly (db.rebuildCatalogProjection py now).2 db'

namespace AfterRebuild
variable (h : AfterRebuild py now db db')
include h

theorem identityRows : db'.identityRows = db.identityRows := h.activity.identityRows

theorem forest' : Shallow db'.identityRows.parentOf 4 := h.identityRows ▸ h.forest

theorem sources' : db'.ReferencesHaveSources := by
  have hrefs : db'.sourceMediaRefs = db.sourceMediaRefs :=
    congrArg IdentityRows.sourceMediaRefs h.identityRows
  have hsources : db'.sources = db.sources := congrArg IdentityRows.sources h.identityRows
  unfold ReferencesHaveSources
  rw [hrefs, hsources]; exact h.sources

theorem membersCurrent : db'.MembersCurrent py := by
  intro i
  rw [canonicalByItem_congr h.identityRows]
  unfold memberEntry
  rw [h.activity.catalogEntryMembers]; rfl

theorem get? : db'.catalogEntries.get? e = (db'.groupKeyOf py e).map (db.rebuiltEntry py now) := by
  rw [h.activity.catalogEntries, get?_rebuilt, groupKeyOf_congr h.identityRows]

theorem activityStats_eq (he : ¬ db'.Touched py e) :
    db'.activityStats py e = db.activityStats py e := by
  show _ = (db.rebuildCatalogProjection py now).2.activityStats py e
  exact activityStats_untouched h.forest h.activity he

theorem mem_rebuiltChildren : x ∈ db'.rebuiltChildren py e ↔ db'.EpisodeBelow py e x :=
  Database.mem_rebuiltChildren h.sources'

/-- The stored count of an untouched entry is the fresh one. -/
theorem stored_completionCount (he : ¬ db'.Touched py e) (hi : db'.canonicalByItem py i = some e) :
    ((db'.catalogEntries.get? e).map (·.completionCount)).getD 0 =
      (db'.activityStats py e).completionCount := by
  obtain ⟨key, hkey⟩ := groupKeyOf_of_canonicalByItem hi
  obtain rfl := groupKeyOf_fst hkey
  have hplayback : (db.rebuiltEntry py now key).playback = _ := rebuiltEntry_playback key
  rw [h.get?, hkey, h.activityStats_eq he]
  exact congrArg Playback.completionCount hplayback

/-- A touched entry gets the values of a rebuild. -/
theorem playback_touched {key : Nat × String} (he : db'.Touched py key.1) (now₁ now₂ : Time) :
    (db'.refreshEntry now₁ db'.impactedEntries (db'.activityTree db'.impactedEntries)
      (db.rebuiltEntry py now key)).playback = (db'.rebuiltEntry py now₂ key).playback := by
  have himpacted : ∀ {i}, i ∈ db'.impactedEntries ↔ db'.Touched py i :=
    mem_impactedEntries h.forest' h.membersCurrent
  have hstats : ∀ {i}, db'.Touched py i → db'.refreshedStats db'.impactedEntries
      (db'.activityTree db'.impactedEntries) i = db'.activityStats py i :=
    fun hi => refreshedStats_eq h.forest' h.membersCurrent (himpacted.2 hi)
  rw [rebuiltEntry_playback, ← hstats he]
  by_cases hkind : (db.rebuiltEntry py now key).kind = .show
  · have hchildren : (db'.refreshedChildren db'.impactedEntries
        (db'.activityTree db'.impactedEntries) key.1).Perm
        (db'.rebuiltChildren py key.1) := by
      refine (List.perm_ext_iff_of_nodup (nodup_eraseDups _) (nodup_eraseDups _)).2 fun x => ?_
      exact (mem_refreshedChildren h.forest' h.membersCurrent (himpacted.2 he)).trans
        h.mem_rebuiltChildren.symm
    -- an episode entry that is not impacted keeps its stored count, which is still the fresh one
    have hcount : ∀ x ∈ db'.rebuiltChildren py key.1,
        (if db'.impactedEntries.contains x then (db'.refreshedStats db'.impactedEntries
            (db'.activityTree db'.impactedEntries) x).completionCount
          else ((db'.catalogEntries.get? x).map (·.completionCount)).getD 0) =
        (db'.activityStats py x).completionCount := by
      intro x hx
      by_cases hxt : db'.Touched py x
      · rw [if_pos (List.contains_iff_mem.2 (himpacted.2 hxt)), hstats hxt]
      · have hno : ¬ db'.impactedEntries.contains x = true :=
          fun hc => hxt (himpacted.1 (List.contains_iff_mem.1 hc))
        obtain ⟨i, -, -, -, hi⟩ := h.mem_rebuiltChildren.1 hx
        rw [if_neg hno, h.stored_completionCount hxt hi]
    unfold refreshEntry
    rw [if_pos hkind, ← hchildren.length_eq, ← hchildren.countP_eq]
    show Stats.playback _ _ (List.countP _ _) = Stats.playback _ _ (List.countP _ _)
    congr 1
    refine List.countP_congr fun x hx => ?_
    rw [hcount x (hchildren.mem_iff.1 hx)]
  · have hnone : db'.rebuiltChildren py key.1 = [] := by
      refine List.eq_nil_iff_forall_not_mem.2 fun x hx => hkind ?_
      have hshow := (h.mem_rebuiltChildren.1 hx).kindOf
      rw [h.identityRows] at hshow
      show (db.identityRows.kindOf key.1).getD .movie = .show
      rw [hshow]; rfl
    have hstored : db.rebuiltChildren py key.1 = [] := by
      rw [← hnone, rebuiltChildren_congr h.identityRows]
    unfold refreshEntry
    rw [if_neg hkind, hnone]
    show Stats.playback _ (db.rebuiltChildren py key.1).length
      (List.countP _ (db.rebuiltChildren py key.1)) = _
    rw [hstored]; rfl

/-- An untouched entry keeps its values, and a rebuild would change none of them but the completed
episodes. -/
theorem playback_untouched {key : Nat × String} (he : ¬ db'.Touched py key.1) (now₂ : Time) :
    (db.rebuiltEntry py now key).playback = (db'.rebuiltEntry py now₂ key).playback ↔
      ((db'.rebuiltChildren py key.1).countP fun x => 0 < (db.activityStats py x).completionCount) =
        (db'.rebuiltChildren py key.1).countP fun x =>
          0 < (db'.activityStats py x).completionCount := by
  rw [rebuiltEntry_playback, rebuiltEntry_playback, h.activityStats_eq he,
    rebuiltChildren_congr h.identityRows]
  simp [Stats.playback]

end AfterRebuild

/-! ### The comparison -/

theorem untouched_of_clean (hdirty : db.dirtyItems.rows = []) (e : Nat) : ¬ db.Touched py e := by
  rintro ⟨d, hd, -⟩
  obtain ⟨r, hr⟩ := Option.isSome_iff_exists.1 hd
  have hmem := Table.mem_of_get? hr
  rw [hdirty] at hmem; cases hmem

/-- The refresh leaves the playback columns of a rebuild in every entry. -/
def RefreshExact (py : PyLib) (db : Database) : Prop :=
  ∀ now now' e,
    ((db.refreshCatalogActivity py now).2.catalogEntries.get? e).map CatalogEntry.playback =
    ((db.rebuildCatalogProjection py now').2.catalogEntries.get? e).map CatalogEntry.playback

/-- Below an entry that no dirty item reaches, as many episode entries lost their last completion as
got their first. -/
def Balanced (py : PyLib) (before after : Database) : Prop :=
  ∀ e, ¬ after.Touched py e →
    {x | after.EpisodeBelow py e x ∧ before.HasCompletion py x ∧ ¬ after.HasCompletion py x}.ncard =
      {x | after.EpisodeBelow py e x ∧ ¬ before.HasCompletion py x ∧ after.HasCompletion py x}.ncard

theorem countP_eq_countP_iff (l : List Nat) (p q : Nat → Bool) :
    l.countP p = l.countP q ↔ l.countP (fun x => p x && !q x) = l.countP fun x => !p x && q x := by
  have hsplit : l.countP p + l.countP (fun x => !p x && q x) = l.countP q + l.countP fun x =>
      p x && !q x := by
    induction l with
    | nil => rfl
    | cons x l ih =>
      simp only [List.countP_cons]
      cases p x <;> cases q x <;> simp <;> omega
  omega

theorem ncard_eq_countP {l : List Nat} (hl : l.Nodup) {P : Nat → Prop} {p : Nat → Bool}
    (hp : ∀ x ∈ l, P x ↔ p x = true) : {x | x ∈ l ∧ P x}.ncard = l.countP p := by
  have hset : {x | x ∈ l ∧ P x} = ((l.filter p).toFinset : Set Nat) := by
    ext x
    simp only [Set.mem_ofPred_eq, List.coe_toFinset, List.mem_filter]
    exact and_congr_right fun hx => hp x hx
  rw [hset, Set.ncard_coe_finset, List.toFinset_card_of_nodup (hl.filter p),
    ← List.countP_eq_length_filter]

namespace AfterRebuild
variable (h : AfterRebuild py now db db')
include h

theorem ncard_eq_iff :
    {x | db'.EpisodeBelow py e x ∧ db.HasCompletion py x ∧ ¬ db'.HasCompletion py x}.ncard =
      {x | db'.EpisodeBelow py e x ∧ ¬ db.HasCompletion py x ∧ db'.HasCompletion py x}.ncard ↔
    ((db'.rebuiltChildren py e).countP fun x => 0 < (db.activityStats py x).completionCount) =
      (db'.rebuiltChildren py e).countP fun x => 0 < (db'.activityStats py x).completionCount := by
  have hnodup : (db'.rebuiltChildren py e).Nodup := nodup_eraseDups _
  simp only [← h.mem_rebuiltChildren, ← activityStats_pos]
  rw [countP_eq_countP_iff, ncard_eq_countP hnodup fun x _ => ?_,
    ncard_eq_countP hnodup fun x _ => ?_]
  all_goals simp

theorem playback_eq_iff (hdirty : db'.dirtyItems.rows ≠ []) {key : Nat × String}
    (hkey : db'.groupKeyOf py e = some key) (now₁ now₂ : Time) :
    ((db'.refreshCatalogActivity py now₁).2.catalogEntries.get? e).map CatalogEntry.playback =
        ((db'.rebuildCatalogProjection py now₂).2.catalogEntries.get? e).map CatalogEntry.playback ↔
      (¬ db'.Touched py e →
        ((db'.rebuiltChildren py e).countP fun x => 0 < (db.activityStats py x).completionCount) =
          (db'.rebuiltChildren py e).countP fun x =>
            0 < (db'.activityStats py x).completionCount) := by
  obtain rfl := groupKeyOf_fst hkey
  have hstored : (db.rebuiltEntry py now key).mediaItemId = key.1 := rfl
  rw [get?_refreshed hdirty, get?_rebuilt, h.get?, hkey]
  simp only [Option.map_some, hstored, Option.some_inj]
  by_cases he : db'.Touched py key.1
  · rw [if_pos (List.contains_iff_mem.2 ((mem_impactedEntries h.forest' h.membersCurrent).2 he))]
    exact iff_of_true (h.playback_touched he now₁ now₂) fun hno => absurd he hno
  · have hno : ¬ db'.impactedEntries.contains key.1 = true := fun hc =>
      he ((mem_impactedEntries h.forest' h.membersCurrent).1 (List.contains_iff_mem.1 hc))
    rw [if_neg hno, h.playback_untouched he now₂]
    exact ⟨fun hc _ => hc, fun hc => hc he⟩

theorem refreshExact_iff : db'.RefreshExact py ↔ Balanced py db db' := by
  by_cases hdirty : db'.dirtyItems.rows = []
  · refine iff_of_true (fun now₁ now₂ e => ?_) fun e he => h.ncard_eq_iff.2 ?_
    · have hlen : db'.dirtyItems.rows.length = 0 := by simp [hdirty]
      unfold refreshCatalogActivity
      rw [if_pos hlen, get?_rebuilt, get?_rebuilt, Option.map_map, Option.map_map]
      rfl
    · refine List.countP_congr fun x _ => ?_
      rw [h.activityStats_eq (untouched_of_clean hdirty x)]
  · constructor
    · intro hexact e he
      rw [h.ncard_eq_iff]
      cases hkey : db'.groupKeyOf py e with
      | some key => exact (h.playback_eq_iff hdirty hkey 0 0).1 (hexact 0 0 e) he
      | none =>
        -- an item without an entry has no episodes
        refine List.countP_congr fun x hx => ?_
        obtain ⟨-, -, -, ⟨s, -, hs⟩, -⟩ := h.mem_rebuiltChildren.1 hx
        obtain ⟨key, hsome⟩ := groupKeyOf_of_canonicalByItem hs
        rw [hkey] at hsome; cases hsome
    · intro hbalanced now₁ now₂ e
      cases hkey : db'.groupKeyOf py e with
      | some key =>
        exact (h.playback_eq_iff hdirty hkey now₁ now₂).2 fun he =>
          h.ncard_eq_iff.1 (hbalanced e he)
      | none => rw [get?_refreshed hdirty, h.get?, get?_rebuilt, hkey]; rfl

end AfterRebuild

end Database

open Database

/-- After a rebuild and any changes of events and states, the refresh is exact precisely when the
changes are balanced below every entry they do not reach. -/
theorem refresh_exact_iff (py : PyLib) (db : Database) (now : Time)
    (changes : List ActivityStatement)
    (forest : Shallow db.identityRows.parentOf 4) (sources : db.ReferencesHaveSources) :
    let before := (db.rebuildCatalogProjection py now).2
    let after := changes.foldl (fun db s => s.apply db) before
    after.RefreshExact py ↔ Database.Balanced py before after := by
  intro before after
  have h : AfterRebuild py now db after := ⟨forest, sources, ActivityOnly.foldl changes before⟩
  have hsame : ∀ x, before.HasCompletion py x ↔ db.HasCompletion py x := fun x => Iff.rfl
  rw [h.refreshExact_iff]
  unfold Database.Balanced
  simp only [hsame]

/-- Two shows that are not grouped, whose episodes share an identifier and are one entry. -/
def crossedShows : Database :=
  let sources : List Source :=
    [{ id := 1, connectorType := .plex }, { id := 2, connectorType := .jellyfin }]
  let items : List MediaItem := [
    { id := 1, kind := .show, title := "a" }, { id := 2, kind := .show, title := "b" },
    { id := 3, kind := .episode, parentId := some 1 },
      { id := 4, kind := .episode, parentId := some 2 }]
  let refs : List SourceMediaRef := [
    { id := 1, sourceId := 1, libraryId := 1, mediaItemId := 3, externalId := "3" },
    { id := 2, sourceId := 2, libraryId := 2, mediaItemId := 4, externalId := "4" }]
  let identifiers : List MediaIdentifier := [
    { id := 1, mediaItemId := 3, provider := "tvdb", externalId := "9" },
    { id := 2, mediaItemId := 4, provider := "tvdb", externalId := "9" }]
  { Database.empty with
    sources := sources.foldl Table.insert .empty
    mediaItems := items.foldl Table.insert .empty
    sourceMediaRefs := refs.foldl Table.insert .empty
    mediaIdentifiers := identifiers.foldl Table.insert .empty }

/-- The first show's episode is completed. -/
def firstEpisodeCompleted : List ActivityStatement :=
  [.insertWatchEvent { id := 1, mediaItemId := 3, sourceId := 1, watchedAt := 5,
                       completed := true }]

theorem crossedShows_forest : Shallow crossedShows.identityRows.parentOf 4 :=
  shallow_of_rows (by decide)

theorem crossedShows_sources :
    crossedShows.ReferencesHaveSources := by unfold ReferencesHaveSources; decide

theorem refresh_exact_iff_crossed :
    let before := (crossedShows.rebuildCatalogProjection .plain 0).2
    let after := firstEpisodeCompleted.foldl (fun db s => s.apply db) before
    after.RefreshExact .plain ↔ Database.Balanced .plain before after :=
  refresh_exact_iff .plain crossedShows 0 firstEpisodeCompleted crossedShows_forest
    crossedShows_sources

/-- The entry of the second show has the same episode entry, and keeps a completed count of 0. -/
theorem refresh_misses_crossed_show :
    Shallow crossedShows.identityRows.parentOf 4 ∧ crossedShows.ReferencesHaveSources ∧
      ¬ (firstEpisodeCompleted.foldl (fun db s => s.apply db)
        (crossedShows.rebuildCatalogProjection .plain 0).2).RefreshExact .plain := by
  refine ⟨crossedShows_forest, crossedShows_sources, fun h => ?_⟩
  exact absurd (h 0 0 2) (by decide)

end Euvieouvi
