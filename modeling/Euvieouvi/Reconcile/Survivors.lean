import Euvieouvi.Reconcile.Merge
import Mathlib.Order.Bounds.Basic
import Mathlib.Order.Nat
import Mathlib.Order.WithBot
import Mathlib.Data.Int.ConditionallyCompleteOrder
import Mathlib.Order.ConditionallyCompleteLattice.Basic

/-!
# Survivors of merges

`Merged survivor db db'` says what any number of merges leaves: each item that is gone has a
surviving one in its place, every event and every reference stays and follows its item to the
survivor, and what is known about the survivor on a source is the least upper bound of what was
known about the items it stands for. One merge has this form (`MergeItem.merged`), a change of
parents too, and the relation composes.
-/

namespace Euvieouvi

/-- View count, completion, last view, last playback and last observation; an absent state is the
least element. -/
abbrev WatchFacts := Nat × Bool × WithBot Time × WithBot Time × WithBot Time

def WatchState.facts (s : WatchState) : WatchFacts :=
  (s.viewCount, s.completed, s.lastWatchedAt, s.lastPlayedAt, (s.observedAt : WithBot Time))

theorem latest_eq_sup (a b : WithBot Time) : (latest a b : Option Time) = a ⊔ b := by
  cases a with
  | bot => exact (bot_sup_eq b).symm
  | coe x =>
    cases b with
    | bot => exact (sup_bot_eq (x : WithBot Time)).symm
    | coe y => exact latest_some_some x y

theorem WatchState.facts_absorb (w l : WatchState) : (w.absorb l).facts = w.facts ⊔ l.facts := by
  have hor : ∀ a b : Bool, (a || b) = a ⊔ b := by decide
  have hwatched := latest_eq_sup w.lastWatchedAt l.lastWatchedAt
  have hplayed := latest_eq_sup w.lastPlayedAt l.lastPlayedAt
  exact Prod.ext rfl (Prod.ext (hor _ _) (Prod.ext hwatched (Prod.ext hplayed rfl)))

namespace Database

/-- What is known about an item on a source. -/
def facts (db : Database) (i source : Nat) : WatchFacts :=
  ((db.watchStates.get? (i, source)).map WatchState.facts).getD ⊥

end Database

/-- From `db` to `db'` items were merged: `survivor` names the item that took the place of each. -/
structure Merged (survivor : Nat → Nat) (db db' : Database) : Prop where
  items : ∀ i, db'.mediaItems.contains i = true ↔ db.mediaItems.contains i = true ∧ survivor i = i
  survives : ∀ i, db.mediaItems.contains i = true → db'.mediaItems.contains (survivor i) = true
  kinds : ∀ i, db'.mediaItems.contains i = true →
    db'.identityRows.kindOf i = db.identityRows.kindOf i
  events : db'.watchEvents.rows = db.watchEvents.rows.map fun e =>
    { e with mediaItemId := survivor e.mediaItemId }
  references : db'.sourceMediaRefs.rows =
    db.sourceMediaRefs.rows.map fun r => { r with mediaItemId := survivor r.mediaItemId }
  facts : ∀ i source, IsLUB {f | ∃ j, survivor j = i ∧ f = db.facts j source} (db'.facts i source)

/-- The survivors of one merge. -/
def mergeInto (winner loser : Nat) (i : Nat) : Nat := if i = loser then winner else i

@[simp] theorem mergeInto_loser (w l : Nat) : mergeInto w l l = w := if_pos rfl

theorem mergeInto_of_ne {w l i : Nat} (h : i ≠ l) : mergeInto w l i = i := if_neg h

namespace Merged
variable {db db' db'' : Database} {σ τ : Nat → Nat} {i : Nat}

theorem isLUB_self {α : Type*} [Preorder α] (g : Nat → α) (i : Nat) :
    IsLUB {f | ∃ j, id j = i ∧ f = g j} (g i) := by
  have : {f | ∃ j, id j = i ∧ f = g j} = {g i} := by
    ext f
    exact ⟨fun ⟨j, hj, hf⟩ => by rw [← hj]; exact hf, fun hf => ⟨i, rfl, hf⟩⟩
  rw [this]; exact isLUB_singleton

theorem refl (db : Database) : Merged id db db where
  items i := by simp
  survives _ h := h
  kinds _ _ := rfl
  events := by simp
  references := by simp
  facts i source := isLUB_self (db.facts · source) i

theorem trans (h : Merged σ db db') (h' : Merged τ db' db'') : Merged (τ ∘ σ) db db'' where
  items i := by
    constructor
    · intro hi
      obtain ⟨hi', hτ⟩ := (h'.items i).1 hi
      obtain ⟨hi, hσ⟩ := (h.items i).1 hi'
      exact ⟨hi, by rw [Function.comp_apply, hσ, hτ]⟩
    · rintro ⟨hi, hfix⟩
      have hlast : db''.mediaItems.contains i = true := by
        have := h'.survives _ (h.survives i hi)
        rwa [← Function.comp_apply (f := τ), hfix] at this
      exact hlast
  survives i hi := h'.survives _ (h.survives i hi)
  kinds i hi := (h'.kinds i hi).trans (h.kinds i ((h'.items i).1 hi).1)
  events := by rw [h'.events, h.events, List.map_map]; rfl
  references := by rw [h'.references, h.references, List.map_map]; rfl
  facts i source := by
    constructor
    · rintro _ ⟨j, hj, rfl⟩
      have hfirst := (h.facts (σ j) source).1 ⟨j, rfl, rfl⟩
      exact hfirst.trans ((h'.facts i source).1 ⟨σ j, hj, rfl⟩)
    · intro u hu
      refine (h'.facts i source).2 ?_
      rintro _ ⟨j, hj, rfl⟩
      refine (h.facts j source).2 ?_
      rintro _ ⟨k, hk, rfl⟩
      exact hu ⟨k, by rw [Function.comp_apply, hk, hj], rfl⟩

end Merged

/-! ### The states of a merge -/

/-- The state of a survivor from the states of the two items. -/
def joinedState (winner : Nat) : Option WatchState → Option WatchState → Option WatchState
  | some s, some lost => some (s.absorb lost)
  | some s, none => some s
  | none, some lost => some { lost with mediaItemId := winner }
  | none, none => none

theorem facts_joinedState (winner : Nat) (s lost : Option WatchState) :
    ((joinedState winner s lost).map WatchState.facts).getD ⊥ =
      (s.map WatchState.facts).getD ⊥ ⊔ (lost.map WatchState.facts).getD ⊥ := by
  cases s with
  | none =>
    cases lost with
    | none => exact (bot_sup_eq _).symm
    | some lost => exact (bot_sup_eq _).symm
  | some s =>
    cases lost with
    | none => exact (sup_bot_eq _).symm
    | some lost => exact WatchState.facts_absorb s lost

namespace Database
variable {db : Database} {w l i source : Nat} {now : Time}

section Repoint
variable {t t' : Table WatchState.key}

theorem repoint_succeeds (hne : w ≠ l)
    (h : ∀ source, t.contains (l, source) = true → t.get? (w, source) = none) :
    ∃ t', t.rekey? (fun s => s.mediaItemId == l)
    (fun s => { s with mediaItemId := w }) = some t' := by
  have hclash : ∀ r ∈ t.rows, ∀ r' ∈ t.rows, r.mediaItemId = l → r'.mediaItemId = w →
      r.sourceId ≠ r'.sourceId := by
    rintro r hr r' hr' rfl rfl hsource
    have hlost : t.contains (r.mediaItemId, r.sourceId) = true :=
      Option.isSome_iff_exists.2 ⟨r, Table.get?_of_mem hr⟩
    exact Table.get?_eq_none.1 (h _ hlost) r' hr' (Prod.ext rfl hsource.symm)
  refine Table.rekey?_of_injOn fun r hr r' hr' hk => ?_
  simp only [beq_iff_eq] at hk
  by_cases h₁ : r.mediaItemId = l <;> by_cases h₂ : r'.mediaItemId = l
  · rw [if_pos h₁, if_pos h₂] at hk
    have hsource : r.sourceId = r'.sourceId := congrArg Prod.snd hk
    exact t.eq_of_key_eq hr hr' (Prod.ext (h₁.trans h₂.symm) hsource)
  · rw [if_pos h₁, if_neg h₂] at hk
    have hitem : w = r'.mediaItemId := congrArg Prod.fst hk
    have hsource : r.sourceId = r'.sourceId := congrArg Prod.snd hk
    exact absurd hsource (hclash r hr r' hr' h₁ hitem.symm)
  · rw [if_neg h₁, if_pos h₂] at hk
    have hitem : r.mediaItemId = w := congrArg Prod.fst hk
    have hsource : r.sourceId = r'.sourceId := congrArg Prod.snd hk
    exact absurd hsource.symm (hclash r' hr' r hr h₂ hitem)
  · rw [if_neg h₁, if_neg h₂] at hk
    exact t.eq_of_key_eq hr hr' hk

theorem get?_repoint (hne : w ≠ l)
    (h : ∀ source, t.contains (l, source) = true → t.get? (w, source) = none)
    (ht : t.rekey? (fun s => s.mediaItemId == l) (fun s => { s with mediaItemId := w }) = some t') :
    t'.get? (i, source) = if i = l then none else if i = w then
      (t.get? (w, source)).or ((t.get? (l, source)).map fun s => { s with mediaItemId := w })
    else t.get? (i, source) := by
  have hmem : ∀ r, r ∈ t'.rows ↔ (r ∈ t.rows ∧ r.mediaItemId ≠ l) ∨
      ∃ r₀ ∈ t.rows, r₀.mediaItemId = l ∧ { r₀ with mediaItemId := w } = r := by
    intro r
    rw [Table.mem_rekey? ht]
    constructor
    · rintro ⟨r₀, hr₀, rfl⟩
      by_cases hl : r₀.mediaItemId = l
      · exact .inr ⟨r₀, hr₀, hl, by simp [hl]⟩
      · exact .inl (by simp [hl, hr₀])
    · rintro (⟨hr, hl⟩ | ⟨r₀, hr₀, hl, rfl⟩)
      exacts [⟨r, hr, by simp [hl]⟩, ⟨r₀, hr₀, by simp [hl]⟩]
  refine Option.ext fun r => ?_
  rw [Table.get?_eq_some, hmem]
  by_cases hil : i = l
  · subst hil
    refine iff_of_false ?_ (by simp)
    rintro ⟨⟨-, hr⟩ | ⟨r₀, -, -, rfl⟩, hk⟩
    exacts [hr (congrArg Prod.fst hk), hne (congrArg Prod.fst hk)]
  rw [if_neg hil]
  by_cases hiw : i = w
  · subst hiw
    rw [if_pos rfl]
    cases hg : t.get? (i, source) with
    | some s =>
      obtain ⟨hs, hsk⟩ := Table.get?_eq_some.1 hg
      rw [Option.some_or, Option.some_inj]
      constructor
      · rintro ⟨⟨hr, -⟩ | ⟨r₀, hr₀, hl, rfl⟩, hk⟩
        · exact t.eq_of_key_eq hs hr (hsk.trans hk.symm)
        · have hsource : r₀.sourceId = source := congrArg Prod.snd hk
          have hlost : t.contains (l, source) = true :=
            Option.isSome_iff_exists.2 ⟨r₀, Table.get?_eq_some.2 ⟨hr₀, Prod.ext hl hsource⟩⟩
          rw [h source hlost] at hg; cases hg
      · rintro rfl
        exact ⟨.inl ⟨hs, fun hl => hil ((congrArg Prod.fst hsk).symm.trans hl)⟩, hsk⟩
    | none =>
      rw [Option.none_or, Option.map_eq_some_iff]
      constructor
      · rintro ⟨⟨hr, -⟩ | ⟨r₀, hr₀, hl, rfl⟩, hk⟩
        · exact absurd hk (Table.get?_eq_none.1 hg r hr)
        · have hsource : r₀.sourceId = source := congrArg Prod.snd hk
          exact ⟨r₀, Table.get?_eq_some.2 ⟨hr₀, Prod.ext hl hsource⟩, rfl⟩
      · rintro ⟨r₀, hr₀, rfl⟩
        obtain ⟨hr₀, hk⟩ := Table.get?_eq_some.1 hr₀
        have hsource : r₀.sourceId = source := congrArg Prod.snd hk
        exact ⟨.inr ⟨r₀, hr₀, congrArg Prod.fst hk, rfl⟩, Prod.ext rfl hsource⟩
  · rw [if_neg hiw, Table.get?_eq_some]
    constructor
    · rintro ⟨⟨hr, -⟩ | ⟨r₀, -, -, rfl⟩, hk⟩
      exacts [⟨hr, hk⟩, absurd (congrArg Prod.fst hk).symm hiw]
    · rintro ⟨hr, hk⟩
      exact ⟨.inl ⟨hr, fun hl => hil ((congrArg Prod.fst hk).symm.trans hl)⟩, hk⟩

end Repoint

theorem mergeWatchStates_frame (db : Database) (w l : Nat) :
    Frame [.watchStates, .dirtyItems] db (db.mergeWatchStates w l) :=
  ((updateWatchStates_frame _ _).trans (deleteWatchStates_frame _)).trans
    (rekeyWatchStates_frame _ _)

/-! The states after each of the three statements. -/

section Statements
variable (db : Database) (w l : Nat)

def absorbedStates : Table WatchState.key :=
  db.watchStates.update
    (fun s => s.mediaItemId == w && (db.watchStates.get? (l, s.sourceId)).isSome)
    ⟨fun s => ((db.watchStates.get? (l, s.sourceId)).map s.absorb).getD s, fun s => by
      cases db.watchStates.get? (l, s.sourceId) <;> rfl⟩

def keptStates : Table WatchState.key :=
  (db.absorbedStates w l).delete fun s => s.mediaItemId == l &&
    (db.absorbedStates w l).contains (w, s.sourceId)

variable {db w l}

theorem get?_absorbedStates_winner : (db.absorbedStates w l).get? (w, source) =
    (db.watchStates.get? (w, source)).map fun s =>
      ((db.watchStates.get? (l, source)).map s.absorb).getD s := by
  rw [absorbedStates, Table.get?_update]
  cases hg : db.watchStates.get? (w, source) with
  | none => rfl
  | some s =>
    have hk : s.key = (w, source) := Table.key_of_get? hg
    have hitem : s.mediaItemId = w := congrArg Prod.fst hk
    have hsource : s.sourceId = source := congrArg Prod.snd hk
    simp only [Option.map_some, hitem, hsource, beq_self_eq_true, Bool.true_and]
    cases db.watchStates.get? (l, source) <;> rfl

theorem get?_absorbedStates_of_ne (hi : i ≠ w) :
    (db.absorbedStates w l).get? (i, source) = db.watchStates.get? (i, source) := by
  rw [absorbedStates, Table.get?_update]
  cases hg : db.watchStates.get? (i, source) with
  | none => rfl
  | some s =>
    have hitem : s.mediaItemId = i := congrArg Prod.fst (Table.key_of_get? hg)
    have hno : (s.mediaItemId == w) = false := by simpa [hitem] using hi
    rw [Option.map_some, hno]; rfl

theorem contains_absorbedStates :
    (db.absorbedStates w l).contains (w, source) = (db.watchStates.get? (w, source)).isSome := by
  unfold Table.contains
  rw [get?_absorbedStates_winner, Option.isSome_map]

theorem get?_keptStates_of_ne (hi : i ≠ l) :
    (db.keptStates w l).get? (i, source) = (db.absorbedStates w l).get? (i, source) := by
  rw [keptStates, Table.get?_delete]
  cases hg : (db.absorbedStates w l).get? (i, source) with
  | none => rfl
  | some s =>
    have hitem : s.mediaItemId = i := congrArg Prod.fst (Table.key_of_get? hg)
    exact Option.filter_some_pos (by simp [hitem, hi])

/-- The loser keeps the states of the sources from which the winner has none. -/
theorem get?_keptStates_loser (hne : w ≠ l) : (db.keptStates w l).get? (l, source) =
    if (db.watchStates.get? (w, source)).isSome then none else db.watchStates.get? (l, source) := by
  rw [keptStates, Table.get?_delete, get?_absorbedStates_of_ne hne.symm]
  cases hg : db.watchStates.get? (l, source) with
  | none => simp
  | some s =>
    have hk : s.key = (l, source) := Table.key_of_get? hg
    have hitem : s.mediaItemId = l := congrArg Prod.fst hk
    have hsource : s.sourceId = source := congrArg Prod.snd hk
    cases hc : db.watchStates.get? (w, source) <;>
      simp [hitem, hsource, contains_absorbedStates, hc]

theorem keptStates_free (hne : w ≠ l) (h : (db.keptStates w l).contains (l, source) = true) :
    (db.keptStates w l).get? (w, source) = none := by
  unfold Table.contains at h
  rw [get?_keptStates_loser hne] at h
  rw [get?_keptStates_of_ne hne, get?_absorbedStates_winner]
  cases hc : db.watchStates.get? (w, source) with
  | some s => rw [hc] at h; cases h
  | none => rfl

end Statements

theorem get?_mergeWatchStates (db : Database) (hne : w ≠ l) :
    ∀ i source, (db.mergeWatchStates w l).watchStates.get? (i, source) = if i =
      l then none else if i = w then
          joinedState w (db.watchStates.get? (w, source)) (db.watchStates.get? (l, source))
        else db.watchStates.get? (i, source) := by
  have hfree : ∀ source, (db.keptStates w l).contains (l, source) = true →
      (db.keptStates w l).get? (w, source) = none :=
    fun _ => keptStates_free hne
  obtain ⟨t, ht⟩ := repoint_succeeds hne hfree
  intro i source
  have htable : (db.mergeWatchStates w l).watchStates = t := by
    refine watchStates_rekeyWatchStates ?_
    simp only [watchStates_deleteWatchStates, watchStates_updateWatchStates]
    exact ht
  rw [htable, get?_repoint hne hfree ht]
  by_cases hil : i = l
  · rw [if_pos hil, if_pos hil]
  rw [if_neg hil, if_neg hil]
  by_cases hiw : i = w
  · rw [if_pos hiw, if_pos hiw, get?_keptStates_of_ne hne, get?_keptStates_loser hne,
      get?_absorbedStates_winner]
    cases db.watchStates.get? (w, source) <;> cases db.watchStates.get? (l, source) <;> rfl
  · rw [if_neg hiw, if_neg hiw, get?_keptStates_of_ne hil, get?_absorbedStates_of_ne hiw]

/-! ### One merge -/

theorem fillMissing_spec (db : Database) (now : Time) (w l : Nat) :
    Frame [.mediaItems] db (db.fillMissing now w l) ∧ ∃ (p : MediaItem → Bool)
    (f : Assignment MediaItem.id),
      (db.fillMissing now w l).mediaItems = db.mediaItems.update p f ∧
        ∀ m : MediaItem, (f m).kind = m.kind ∧ (f m).parentId = m.parentId := by
  unfold fillMissing
  cases db.mediaItems.get? l with
  | none =>
    refine ⟨Frame.refl db, fun _ => false, ⟨fun m => m, fun _ => rfl⟩, ?_, fun _ => ⟨rfl, rfl⟩⟩
    exact (Table.update_of_none (by simp)).symm
  | some lost =>
    exact ⟨updateMediaItems_frame _ _, _, _, mediaItems_updateMediaItems _ _, fun _ => ⟨rfl, rfl⟩⟩

theorem dropContradictedIdentifiers_frame (db : Database) (w l : Nat) :
    Frame [.mediaIdentifiers] db (db.dropContradictedIdentifiers w l) := by
  unfold dropContradictedIdentifiers
  dsimp only
  split
  · exact (deleteMediaIdentifiers_frame _).trans (deleteMediaIdentifiers_frame _)
  · exact deleteMediaIdentifiers_frame _

theorem moveMetadata_frame (db : Database) (w l : Nat) :
    Frame [.mediaIdentifiers, .mediaGenres, .mediaImages, .enrichmentRecords] db
      (db.moveMetadata w l) := by
  have hids : Frame [.mediaIdentifiers, .mediaGenres, .mediaImages, .enrichmentRecords] db
      (db.moveMediaIdentifiers w l) :=
    Frame.mono ((deleteMediaIdentifiers_frame _).trans (updateMediaIdentifiers_frame _ _)) (by simp)
  refine hids.trans fun name h => ?_
  unfold moveMetadata
  generalize db.moveMediaIdentifiers w l = moved
  cases name <;> first | rfl | exact absurd (by simp) h

theorem mediaIdentifiers_moveMetadata (db : Database) (hne : w ≠ l) :
    ∀ r ∈ (db.moveMetadata w l).mediaIdentifiers.rows, r.mediaItemId ≠ l := by
  intro r hr
  have hmoved : r ∈ (db.moveMediaIdentifiers w l).mediaIdentifiers.rows := hr
  unfold moveMediaIdentifiers at hmoved
  rw [mediaIdentifiers_updateMediaIdentifiers] at hmoved
  obtain ⟨r₀, -, rfl⟩ := Table.mem_update.1 hmoved
  by_cases hl : r₀.mediaItemId = l
  · simp [hl, hne]
  · simp [hl]

theorem deleteMediaItem_frame (db : Database) (i : Nat) :
    Frame [.mediaItems, .mediaGenres, .mediaImages, .enrichmentRecords, .catalogEntries,
      .catalogEntryMembers] db
      (db.deleteMediaItem i) := by
  unfold deleteMediaItem
  split
  · refine Frame.trans ?_ ((identityTrigger_frame _).mono (List.nil_subset _))
    exact fun name h => by cases name <;> first | rfl | exact absurd (by simp) h
  · exact Frame.refl db

theorem mediaItems_deleteMediaItem (db : Database) (i : Nat) : (db.deleteMediaItem i).mediaItems =
    if db.mediaItems.contains i &&
    !db.isReferenced i then db.mediaItems.delete (·.id == i) else db.mediaItems := by
  unfold deleteMediaItem
  split <;> rfl

theorem mediaItems_deleteMediaItem_of_free (h : db.isReferenced l = false) :
    (db.deleteMediaItem l).mediaItems = db.mediaItems.delete (·.id == l) := by
  rw [mediaItems_deleteMediaItem]
  split
  next => rfl
  next hc =>
    have habsent : db.mediaItems.contains l = false := by simpa [h] using hc
    have hnone : db.mediaItems.get? l = none := by simpa [Table.contains] using habsent
    refine (Table.delete_of_none (List.any_eq_false.2 fun m hm => ?_)).symm
    simpa using Table.get?_eq_none.1 hnone m hm

theorem isReferenced_eq_false (hchild : ∀ m ∈ db.mediaItems.rows, m.parentId ≠ some l)
    (href : ∀ r ∈ db.sourceMediaRefs.rows, r.mediaItemId ≠ l)
    (hid : ∀ r ∈ db.mediaIdentifiers.rows, r.mediaItemId ≠ l)
    (hevent : ∀ e ∈ db.watchEvents.rows, e.mediaItemId ≠ l)
    (hstate : ∀ s ∈ db.watchStates.rows, s.mediaItemId ≠ l) :
    db.isReferenced l = false := by
  unfold isReferenced
  simp only [Bool.or_eq_false_iff, List.any_eq_false, beq_iff_eq]
  exact ⟨⟨⟨⟨hchild, href⟩, hid⟩, hevent⟩, hstate⟩

end Database

/-- What `_merge_item` does to the items, and to what is known about them. -/
structure MergeItem (w l : Nat) (db db' : Database) : Prop where
  items : ∃ (p : MediaItem → Bool) (f : Assignment MediaItem.id),
    (∀ m : MediaItem, (f m).kind = m.kind ∧ (f m).parentId = m.parentId) ∧
      db'.mediaItems = ((db.mediaItems.update p f).update (fun m => m.parentId == some l)
        ⟨fun m => { m with parentId := some w }, fun _ => rfl⟩).delete (·.id == l)
  events : db'.watchEvents = db.watchEvents.update (fun e => e.mediaItemId == l)
    ⟨fun e => { e with mediaItemId := w }, fun _ => rfl⟩
  references : db'.sourceMediaRefs = db.sourceMediaRefs.update (fun r => r.mediaItemId == l)
    ⟨fun r => { r with mediaItemId := w }, fun _ => rfl⟩
  states : ∀ i source, db'.watchStates.get? (i, source) = if i = l then none else if i = w then
      joinedState w (db.watchStates.get? (w, source)) (db.watchStates.get? (l, source))
    else db.watchStates.get? (i, source)
  frame : Database.Frame [.mediaItems, .sourceMediaRefs, .mediaIdentifiers, .mediaGenres,
    .mediaImages, .enrichmentRecords,
    .watchEvents, .watchStates, .dirtyItems, .catalogEntries, .catalogEntryMembers] db db'
  run : ∃ now, db' = db.mergeItem now w l

namespace Database
variable {w l : Nat}

theorem mergeItem_spec (db : Database) (now : Time) (hne : w ≠ l) :
    MergeItem w l db (db.mergeItem now w l) := by
  have hrun : ∃ now', db.mergeItem now w l = db.mergeItem now' w l := ⟨now, rfl⟩
  obtain ⟨hfill, p, f, hitems, hf⟩ := fillMissing_spec db now w l
  generalize hmerged : db.mergeItem now w l = db' at hrun ⊢
  unfold mergeItem at hmerged
  generalize db.fillMissing now w l = d₁ at *
  have hdrop := dropContradictedIdentifiers_frame d₁ w l
  generalize d₁.dropContradictedIdentifiers w l = d₂ at *
  have hmeta := moveMetadata_frame d₂ w l
  have hids := mediaIdentifiers_moveMetadata d₂ hne
  generalize d₂.moveMetadata w l = d₃ at *
  have hstate := mergeWatchStates_frame d₃ w l
  have hget := get?_mergeWatchStates d₃ hne
  generalize d₃.mergeWatchStates w l = d₄ at *
  have hevents : Frame [.watchEvents, .dirtyItems] d₄ (d₄.moveWatchEvents w l) :=
    updateWatchEvents_frame _ _
  have hevents' : (d₄.moveWatchEvents w l).watchEvents = _ := watchEvents_updateWatchEvents _ _
  generalize d₄.moveWatchEvents w l = d₅ at *
  have hrefs : Frame [.sourceMediaRefs] d₅ (d₅.moveReferences w l) :=
    updateSourceMediaRefs_frame _ _
  have hrefs' : (d₅.moveReferences w l).sourceMediaRefs = _ :=
    sourceMediaRefs_updateSourceMediaRefs _ _
  generalize d₅.moveReferences w l = d₆ at *
  have hchildren : Frame [.mediaItems] d₆ (d₆.moveChildren w l) := updateMediaItems_frame _ _
  have hchildren' : (d₆.moveChildren w l).mediaItems = _ := mediaItems_updateMediaItems _ _
  generalize d₆.moveChildren w l = d₇ at *
  have hdelete := deleteMediaItem_frame d₇ l
  have hmoved : d₆.mediaItems = db.mediaItems.update p f := by
    rw [← hitems]
    exact (hrefs .mediaItems (by decide)).trans <| (hevents .mediaItems (by decide)).trans <|
      (hstate .mediaItems (by decide)).trans <| (hmeta .mediaItems (by decide)).trans
        (hdrop .mediaItems (by decide))
  have heventsBefore : d₄.watchEvents = db.watchEvents :=
    (hstate .watchEvents (by decide)).trans <| (hmeta .watchEvents (by decide)).trans <|
      (hdrop .watchEvents (by decide)).trans (hfill .watchEvents (by decide))
  have heventsAfter : d₇.watchEvents = d₅.watchEvents :=
    (hchildren .watchEvents (by decide)).trans (hrefs .watchEvents (by decide))
  have hrefsBefore : d₅.sourceMediaRefs = db.sourceMediaRefs :=
    (hevents .sourceMediaRefs (by decide)).trans <| (hstate .sourceMediaRefs (by decide)).trans <|
      (hmeta .sourceMediaRefs (by decide)).trans <|
        (hdrop .sourceMediaRefs (by decide)).trans (hfill .sourceMediaRefs (by decide))
  have hrefsAfter : d₇.sourceMediaRefs = d₆.sourceMediaRefs :=
    hchildren .sourceMediaRefs (by decide)
  have hstatesBefore : d₃.watchStates = db.watchStates :=
    (hmeta .watchStates (by decide)).trans <| (hdrop .watchStates (by decide)).trans
      (hfill .watchStates (by decide))
  have hstatesAfter : d₇.watchStates = d₄.watchStates :=
    (hchildren .watchStates (by decide)).trans <| (hrefs .watchStates (by decide)).trans
      (hevents .watchStates (by decide))
  have hidsAfter : d₇.mediaIdentifiers = d₃.mediaIdentifiers :=
    (hchildren .mediaIdentifiers (by decide)).trans <| (hrefs .mediaIdentifiers
      (by decide)).trans <|
      (hevents .mediaIdentifiers (by decide)).trans (hstate .mediaIdentifiers (by decide))
  rw [heventsBefore] at hevents'
  rw [hrefsBefore] at hrefs'
  rw [hmoved] at hchildren'
  simp only [hstatesBefore] at hget
  -- every table that restricts the deletion was moved before
  have hfree : d₇.isReferenced l = false := by
    refine isReferenced_eq_false ?_ ?_ (hidsAfter ▸ hids) ?_ fun s hs hitem => ?_
    · rw [hchildren']; exact Table.update_away (by simp [hne])
    · rw [hrefsAfter, hrefs']; exact Table.update_away (by simp [hne])
    · rw [heventsAfter, hevents']; exact Table.update_away (by simp [hne])
    · have hlost : d₄.watchStates.get? (l, s.sourceId) = some s :=
        Table.get?_eq_some.2 ⟨hstatesAfter ▸ hs, Prod.ext hitem rfl⟩
      rw [hget, if_pos rfl] at hlost
      cases hlost
  subst hmerged
  refine ⟨⟨p, f, hf, ?_⟩, ?_, ?_, fun i source => ?_, ?_, hrun⟩
  · rw [mediaItems_deleteMediaItem_of_free hfree, hchildren']
  · exact (hdelete .watchEvents (by decide)).trans (heventsAfter.trans hevents')
  · exact (hdelete .sourceMediaRefs (by decide)).trans (hrefsAfter.trans hrefs')
  · rw [show (d₇.deleteMediaItem l).watchStates =
      d₇.watchStates from hdelete .watchStates (by decide), hstatesAfter, hget]
  · refine ((((((((hfill.mono ?_).trans (hdrop.mono ?_)).trans (hmeta.mono ?_)).trans
      (hstate.mono ?_)).trans
      (hevents.mono ?_)).trans (hrefs.mono ?_)).trans (hchildren.mono ?_)).trans
        (hdelete.mono ?_)) <;> decide

end Database

namespace MergeItem
variable {db db' : Database} {w l i : Nat}

theorem get?_eq (h : MergeItem w l db db') : ∃ g : MediaItem → MediaItem,
    (∀ m, (g m).kind = m.kind ∧ (g m).parentId = m.parentId.map (mergeInto w l)) ∧
      ∀ i, db'.mediaItems.get? i = if i = l then none else (db.mediaItems.get? i).map g := by
  obtain ⟨p, f, hf, hitems⟩ := h.items
  refine ⟨fun m => let m := if p m then f m else m
    if m.parentId == some l then { m with parentId := some w } else m, fun m => ?_, fun i => ?_⟩
  · have hfilled : (if p m then f m else m).kind = m.kind ∧
        (if p m then f m else m).parentId = m.parentId := by
      split
      exacts [hf m, ⟨rfl, rfl⟩]
    dsimp only
    generalize (if p m then f m else m) = m' at hfilled ⊢
    obtain ⟨hkind, hparent⟩ := hfilled
    rw [← hkind, ← hparent]
    cases hp : m'.parentId with
    | none => simp [hp]
    | some parent =>
      by_cases hl : parent = l
      · simp [hl]
      · simp [hl, hp, mergeInto_of_ne hl]
  · rw [hitems, Table.get?_delete_key fun m => beq_iff_eq, Table.get?_update, Table.get?_update,
      Option.map_map]
    rfl

theorem contains_iff (h : MergeItem w l db db') :
    db'.mediaItems.contains i = true ↔ db.mediaItems.contains i = true ∧ i ≠ l := by
  obtain ⟨g, -, hg⟩ := h.get?_eq
  unfold Table.contains
  rw [hg]
  by_cases hl : i = l <;> simp [hl]

theorem kindOf_eq (h : MergeItem w l db db') (hi : i ≠ l) :
    db'.identityRows.kindOf i = db.identityRows.kindOf i := by
  obtain ⟨g, hkind, hg⟩ := h.get?_eq
  unfold IdentityRows.kindOf
  rw [show db'.identityRows.mediaItems.get? i = _ from hg i, if_neg hi, Option.map_map]
  exact congrArg (Option.map · _) (funext fun m => (hkind m).1)

theorem parentOf_eq (h : MergeItem w l db db') (hi : i ≠ l) :
    db'.identityRows.parentOf i = (db.identityRows.parentOf i).map (mergeInto w l) := by
  obtain ⟨g, hkind, hg⟩ := h.get?_eq
  unfold IdentityRows.parentOf
  rw [show db'.identityRows.mediaItems.get? i = _ from hg i, if_neg hi]
  show ((db.mediaItems.get? i).map g).bind _ = ((db.mediaItems.get? i).bind _).map _
  cases db.mediaItems.get? i with
  | none => rfl
  | some m => exact (hkind m).2

/-- The items that become `i`. -/
theorem mergeInto_eq_iff {j : Nat} (hne : w ≠ l) :
    mergeInto w l j = i ↔ i ≠ l ∧ (j = i ∨ i = w ∧ j = l) := by
  unfold mergeInto
  split
  next h => subst h; constructor <;> grind
  next h => constructor <;> grind

theorem merged (h : MergeItem w l db db') (hne : w ≠ l) (hw : db.mediaItems.contains w = true) :
    Merged (mergeInto w l) db db' where
  items i := by
    rw [h.contains_iff, mergeInto_eq_iff hne]
    constructor
    · rintro ⟨hi, hl⟩; exact ⟨hi, hl, .inl rfl⟩
    · rintro ⟨hi, hl, -⟩; exact ⟨hi, hl⟩
  survives i hi := by
    rw [h.contains_iff]
    by_cases hl : i = l
    · rw [hl, mergeInto_loser]; exact ⟨hw, hne⟩
    · rw [mergeInto_of_ne hl]; exact ⟨hi, hl⟩
  kinds i hi := h.kindOf_eq (h.contains_iff.1 hi).2
  events := by
    rw [h.events, Table.rows_update]
    refine List.map_congr_left fun e _ => ?_
    by_cases hl : e.mediaItemId = l
    · simp [hl]
    · simp [hl, mergeInto_of_ne hl]
  references := by
    rw [h.references, Table.rows_update]
    refine List.map_congr_left fun r _ => ?_
    by_cases hl : r.mediaItemId = l
    · simp [hl]
    · simp [hl, mergeInto_of_ne hl]
  facts i source := by
    have hfacts : db'.facts i source = if i = l then ⊥ else if i =
        w then db.facts w source ⊔ db.facts l source
        else db.facts i source := by
      unfold Database.facts
      rw [h.states]
      split_ifs
      exacts [rfl, facts_joinedState w _ _, rfl]
    rw [hfacts]
    simp only [mergeInto_eq_iff hne]
    split_ifs with hl hw
    · have hset : {f | ∃ j, (i ≠ l ∧ (j = i ∨ i = w ∧ j = l)) ∧ f = db.facts j source} = ∅ :=
        Set.eq_empty_of_forall_notMem (by rintro f ⟨_, ⟨hi, _⟩, _⟩; exact hi hl)
      rw [hset]; exact isLUB_empty
    · have hset : {f | ∃ j, (i ≠ l ∧ (j = i ∨ i = w ∧ j = l)) ∧ f = db.facts j source} =
          {db.facts w source, db.facts l source} := by
        ext f; subst hw; simp [hl]
      rw [hset]; exact isLUB_pair
    · have hset : {f | ∃ j, (i ≠ l ∧ (j = i ∨ i = w ∧ j = l)) ∧ f = db.facts j source} =
          {db.facts i source} := by
        ext f; simp [hl, hw]
      rw [hset]; exact isLUB_singleton

end MergeItem

end Euvieouvi
