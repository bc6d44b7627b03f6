import Euvieouvi.Database
import Mathlib.Data.List.Dedup

/-!
# Storing what a remote server accepted

The candidates of a propagation and `_record_successes` (`sync/watch_sync.py`): one transaction
writes the watch states of all items of a batch on the servers that were updated. The states are
loaded once, every candidate of the batch assigns to them in turn, and the commit flushes each of
them.
-/

namespace Euvieouvi

structure WatchSyncTarget where
  mediaItemId : Nat
  referenceId : Nat
  externalId : String
  lastSeenAt : Time
deriving DecidableEq, Repr

structure WatchSyncCandidate where
  targetSourceId : Nat
  targets : List WatchSyncTarget
  watchedAt : Option Time
  progressMs : Option Nat
  completed : Bool
  lastPlayedAt : Option Time := none
deriving DecidableEq, Repr

namespace WatchSyncCandidate

/-- The states the candidate is about. -/
def keys (c : WatchSyncCandidate) : List (Nat × Nat) :=
  c.targets.map fun t => (t.mediaItemId, c.targetSourceId)

/-- The new row, with the playback time that is assigned after it is added. -/
def newState (now : Time) (c : WatchSyncCandidate) (item : Nat) : WatchState where
  mediaItemId := item
  sourceId := c.targetSourceId
  viewCount := if c.completed then 1 else 0
  lastWatchedAt := c.watchedAt
  lastPlayedAt := c.lastPlayedAt
  completed := c.completed
  progressMs := c.progressMs
  observedAt := now
  updatedAt := now

/-- The assignments to a state that exists. -/
def assign (now : Time) (c : WatchSyncCandidate) (s : WatchState) : WatchState :=
  let s :=
    if c.completed then
      { s with
        completed := true
        lastWatchedAt := c.watchedAt
        viewCount := max 1 s.viewCount
        progressMs := none
        observedAt := now }
    else if s.completed then s
    else { s with progressMs := c.progressMs, observedAt := now }
  { s with lastPlayedAt := latest s.lastPlayedAt c.lastPlayedAt }

/-- The assignments of all the candidates in turn. -/
def assignAll (now : Time) (cs : List WatchSyncCandidate) : Assignment WatchState.key where
  apply s := cs.foldl (fun s c => c.assign now s) s
  key_apply s := by
    induction cs generalizing s with
    | nil => rfl
    | cons c cs ih =>
      refine (ih _).trans ?_
      simp only [assign, WatchState.key]
      split
      · rfl
      · split <;> rfl

end WatchSyncCandidate

namespace Database
variable {now : Time} {db db' : Database} {c : WatchSyncCandidate} {cs : List WatchSyncCandidate}
  {k : Nat × Nat}

/-- One state of the batch: the first of its candidates adds a row that is missing. -/
def recordState (now : Time) (cs : List WatchSyncCandidate) (db : Database)
    (k : Nat × Nat) : Database :=
  match db.watchStates.get? k, cs.filter fun c => k ∈ c.keys with
  | none, c :: rest =>
    db.insertWatchState (WatchSyncCandidate.assignAll now rest (c.newState now k.1))
  | _, touching => db.saveWatchState now k (WatchSyncCandidate.assignAll now touching)

/-- `_record_successes`. -/
def recordSuccesses (now : Time) (cs : List WatchSyncCandidate) (db : Database) : Database :=
  (cs.flatMap WatchSyncCandidate.keys).dedup.foldl (recordState now cs) db

theorem recordState_frame (now : Time) (cs : List WatchSyncCandidate) (db : Database)
    (k : Nat × Nat) :
    Frame [.watchStates, .dirtyItems] db (recordState now cs db k) := by
  unfold recordState
  split
  · exact insertWatchState_frame _
  · exact updateWatchStates_frame _ _

theorem recordSuccesses_frame (now : Time) (cs : List WatchSyncCandidate) (db : Database) :
    Frame [.watchStates, .dirtyItems] db (db.recordSuccesses now cs) := by
  unfold recordSuccesses
  generalize (cs.flatMap WatchSyncCandidate.keys).dedup = keys
  induction keys generalizing db with
  | nil => exact .refl db
  | cons k keys ih => exact (recordState_frame now cs db k).trans (ih _)

/-! ### The states after the transaction -/

theorem completed_assign {s : WatchState} (h : s.completed = true ∨ c.completed = true) :
    (c.assign now s).completed = true := by
  unfold WatchSyncCandidate.assign
  split
  next => rfl
  next hc =>
    rcases h with h | h
    · simp [h]
    · exact absurd h hc

theorem completed_assignAll {s : WatchState}
    (h : s.completed = true ∨ ∃ c ∈ cs, c.completed = true) :
    (WatchSyncCandidate.assignAll now cs s).completed = true := by
  induction cs generalizing s with
  | nil =>
    rcases h with h | ⟨_, hc, _⟩
    · exact h
    · cases hc
  | cons c cs ih =>
    refine ih (s := c.assign now s) ?_
    rcases h with h | ⟨d, hd, hdc⟩
    · exact .inl (completed_assign (.inl h))
    · rcases List.mem_cons.1 hd with rfl | hd
      · exact .inl (completed_assign (.inr hdc))
      · exact .inr ⟨d, hd, hdc⟩

theorem get?_saveWatchState {k' : Nat × Nat} (f : Assignment WatchState.key) :
    (db.saveWatchState now k' f).watchStates.get? k =
    (db.watchStates.get? k).map fun s => if s.key = k' ∧
    f s ≠ s then { f s with updatedAt := now } else s := by
  unfold saveWatchState
  rw [watchStates_updateWatchStates, Table.get?_update]
  simp only [Bool.and_eq_true, decide_eq_true_eq]

/-- The item has a state on the source, completed if it was or if it has to be. -/
def HasState (db : Database) (k : Nat × Nat) (completed : Prop) : Prop :=
  ∃ s, db.watchStates.get? k = some s ∧ (completed → s.completed = true)

theorem HasState.mono {p q : Prop} (h : db.HasState k p) (hqp : q → p) : db.HasState k q := by
  obtain ⟨s, hs, hp⟩ := h
  exact ⟨s, hs, fun hq => hp (hqp hq)⟩

theorem hasState_saveWatchState {k' : Nat × Nat} {f : Assignment WatchState.key} {p q : Prop}
    (h : db.HasState k p)
    (hf : k = k' → ∀ s, (p → s.completed = true) → q → (f s).completed = true)
    (hne : k ≠ k' → q → p) :
    (db.saveWatchState now k' f).HasState k q := by
  obtain ⟨s, hs, hp⟩ := h
  have hkey : s.key = k := Table.key_of_get? hs
  unfold HasState
  rw [get?_saveWatchState, hs]
  refine ⟨_, rfl, fun hq => ?_⟩
  dsimp only
  split
  next hchanged => exact hf (hkey.symm.trans hchanged.1) s hp hq
  next hsame =>
    by_cases hk : k = k'
    · have hfs := not_and_not_right.1 hsame (hkey.trans hk)
      rw [← hfs]
      exact hf hk s hp hq
    · exact hp (hne hk hq)

theorem hasState_insertWatchState {s : WatchState} (hs : db.watchStates.get? s.key = none) :
    (db.insertWatchState s).HasState s.key (s.completed = true) := by
  refine ⟨s, ?_, id⟩
  rw [watchStates_insertWatchState, Table.get?_insert_self hs]

theorem key_newState (hk : k ∈ c.keys) : (c.newState now k.1).key = k := by
  obtain ⟨t, -, rfl⟩ := List.mem_map.1 hk
  rfl

theorem hasState_recordState_self (hk : k ∈ cs.flatMap WatchSyncCandidate.keys) :
    (recordState now cs db k).HasState k (∃ c ∈ cs, k ∈ c.keys ∧ c.completed = true) := by
  have hcompleted : (∃ c ∈ cs, k ∈ c.keys ∧ c.completed = true) →
      ∃ c ∈ cs.filter fun c => k ∈ c.keys, c.completed = true := by
    rintro ⟨c, hc, hkc, hcc⟩
    exact ⟨c, List.mem_filter.2 ⟨hc, by simpa using hkc⟩, hcc⟩
  have hkeys : ∀ c ∈ cs.filter fun c => k ∈ c.keys, k ∈ c.keys :=
    fun c hc => by simpa using (List.mem_filter.1 hc).2
  have htouch : (cs.filter fun c => k ∈ c.keys) ≠ [] := by
    obtain ⟨c, hc, hkc⟩ := List.mem_flatMap.1 hk
    exact List.ne_nil_of_mem (List.mem_filter.2 ⟨hc, by simpa using hkc⟩)
  unfold recordState
  generalize (cs.filter fun c => k ∈ c.keys) = touching at hcompleted hkeys htouch ⊢
  cases hs : db.watchStates.get? k with
  | some s =>
    exact hasState_saveWatchState (p := False) ⟨s, hs, False.elim⟩
      (fun _ s _ hq => completed_assignAll (.inr (hcompleted hq))) fun hne => absurd rfl hne
  | none =>
    obtain ⟨c, rest, rfl⟩ := List.exists_cons_of_ne_nil htouch
    have hnew : (WatchSyncCandidate.assignAll now rest (c.newState now k.1)).key = k :=
      ((WatchSyncCandidate.assignAll now rest).key_apply _).trans
        (key_newState (hkeys c List.mem_cons_self))
    have hfree : db.watchStates.get?
        (WatchSyncCandidate.assignAll now rest (c.newState now k.1)).key = none := by
      rw [hnew]; exact hs
    have h := hasState_insertWatchState hfree
    rw [hnew] at h
    refine h.mono fun hq => completed_assignAll ?_
    obtain ⟨d, hd, hdc⟩ := hcompleted hq
    rcases List.mem_cons.1 hd with rfl | hd
    · exact .inl hdc
    · exact .inr ⟨d, hd, hdc⟩

theorem hasState_recordState {k' : Nat × Nat} {p : Prop} (h : db.HasState k p) :
    (recordState now cs db k').HasState k p := by
  unfold recordState
  split
  next c rest hnone htouch =>
    obtain ⟨s, hs, hp⟩ := h
    have hkey : (WatchSyncCandidate.assignAll now rest (c.newState now k'.1)).key = k' := by
      refine ((WatchSyncCandidate.assignAll now rest).key_apply _).trans (key_newState ?_)
      have hc : c ∈ cs.filter fun c => k' ∈ c.keys := by rw [htouch]; exact List.mem_cons_self
      simpa using (List.mem_filter.1 hc).2
    refine ⟨s, ?_, hp⟩
    rw [watchStates_insertWatchState, Table.get?_insert_ne, hs]
    rw [hkey]
    rintro rfl
    rw [hs] at hnone
    cases hnone
  next =>
    exact hasState_saveWatchState h (fun _ s hp hq => completed_assignAll (.inl (hp hq)))
      fun _ hq => hq

theorem hasState_foldl_recordState {keys : List (Nat × Nat)} {p : Prop} (h : db.HasState k p) :
    (keys.foldl (recordState now cs) db).HasState k p := by
  induction keys generalizing db with
  | nil => exact h
  | cons k' keys ih => exact ih (hasState_recordState h)

/-- What a server has accepted is in the catalog after the transaction. -/
theorem hasState_recordSuccesses (hc : c ∈ cs) (hk : k ∈ c.keys) :
    (db.recordSuccesses now cs).HasState k (c.completed = true) := by
  have hmem : k ∈ cs.flatMap WatchSyncCandidate.keys := List.mem_flatMap.2 ⟨c, hc, hk⟩
  obtain ⟨before, after, hsplit⟩ := List.append_of_mem (List.mem_dedup.2 hmem)
  have h : (recordState now cs (before.foldl (recordState now cs) db) k).HasState k
      (c.completed = true) :=
    (hasState_recordState_self hmem).mono fun hcc => ⟨c, hc, hk, hcc⟩
  unfold recordSuccesses
  rw [hsplit, List.foldl_append, List.foldl_cons]
  exact hasState_foldl_recordState h

theorem HasState.recordSuccesses {p : Prop} (h : db.HasState k p) :
    (db.recordSuccesses now cs).HasState k p :=
  hasState_foldl_recordState h

end Database

end Euvieouvi
