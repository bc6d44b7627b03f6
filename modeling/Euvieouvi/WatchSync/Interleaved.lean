import Euvieouvi.Lib.Runs
import Euvieouvi.Playback.Knowledge

/-!
# An instant update among other sessions

`_apply_watch_update` step by step: the read of a state, one remote call after the other, the flush
and the commit. Between two steps other sessions commit watch states, unless a flush holds the lock
of the database. A flush writes the columns whose values changed since they were loaded; but the
commit of a repair expires the loaded state, and a column that is assigned before it is loaded again
is written in any case. Undisturbed, the steps are `applyWatchUpdate` (`undisturbed`).
-/

namespace Euvieouvi

open Database

/-- The state is there and completed. -/
def Database.isCompleted (db : Database) (key : Nat × Nat) : Bool :=
  (db.watchStates.get? key).any (·.completed)

namespace WatchUpdate
variable (u : WatchUpdate)

/-- The flush of the assignments to a state that is still loaded: a column that they leave as it was
loaded is not written. -/
def flushColumns (loaded row : WatchState) : WatchState :=
  let new := u.assign loaded
  { row with
    viewCount := if new.viewCount = loaded.viewCount then row.viewCount else new.viewCount
    lastWatchedAt :=
      if new.lastWatchedAt = loaded.lastWatchedAt then row.lastWatchedAt else new.lastWatchedAt
    lastPlayedAt :=
      if new.lastPlayedAt = loaded.lastPlayedAt then row.lastPlayedAt else new.lastPlayedAt
    completed := if new.completed = loaded.completed then row.completed else new.completed
    progressMs := if new.progressMs = loaded.progressMs then row.progressMs else new.progressMs
    observedAt := if new.observedAt = loaded.observedAt then row.observedAt else new.observedAt }

end WatchUpdate

/-- `state` of the loop over the servers, as it was read. -/
structure LoadedState where
  key : Nat × Nat
  state : Option WatchState
  /-- A commit came after the read. -/
  expired : Bool := false

/-- The flush of the assignments; a row that appeared or went since the read refuses it. -/
def LoadedState.flush (u : WatchUpdate) (now : Time) (loaded : LoadedState) (db : Database) :
    Option Database :=
  match loaded.state, db.watchStates.get? loaded.key with
  | none, none => some (db.insertWatchState (u.assign (u.newState now loaded.key)))
  | some s, some _ =>
    let columns : Assignment WatchState.key :=
      if loaded.expired then ⟨u.assign, u.key_assign⟩ else ⟨u.flushColumns s, fun _ => rfl⟩
    some (db.saveWatchState now loaded.key columns)
  | _, _ => none

inductive InstantPhase
  | begin
  | visiting (origin : Source) (groups : List (Nat × List SourceMediaRef))
  | calling (origin : Source) (loaded : LoadedState) (references : List SourceMediaRef)
    (successful : Nat)
      (groups : List (Nat × List SourceMediaRef))
  | writing (origin : Source) (loaded : LoadedState) (groups : List (Nat × List SourceMediaRef))
  | ended (outcome : Except ApplyError Bool)

structure InstantExecution where
  committed : Database
  /-- What the session of the execution sees. -/
  db : Database
  /-- A flush is not committed yet. -/
  flushed : Bool := false
  calls : List RemoteCall := []
  changed : Bool := false
  phase : InstantPhase := .begin
  /-- The completed states that such a flush wrote after they had expired. -/
  reopened : List (Nat × Nat) := []

inductive InstantEvent
  | advance
  /-- Another session commits. -/
  | other (states : Table WatchState.key)

namespace InstantExecution
variable (executor : AsyncTaskExecutor) (inputs : ExecutionInputs) (u : WatchUpdate)
  (s : InstantExecution)

/-- The session is rolled back. -/
def fail (error : ApplyError) : InstantExecution :=
  { s with db := s.committed, flushed := false, reopened := [], phase := .ended (.error error) }

def commit : InstantExecution := { s with committed := s.db, flushed := false, reopened := [] }

/-- What comes before the first server. -/
def opening : InstantExecution :=
  if u.completed = false ∧ (u.progressMs.all (· ≤ 0)) then { s with phase := .ended (.ok false) }
  else match s.db.sources.get? u.sourceId with
    | none => { s with phase := .ended (.error .noSource) }
    | some origin =>
      match executor.originReference inputs origin u s.db with
      | (db, .error error) => { s with committed := db, db := db, phase := .ended (.error error) }
      | (db, .ok reference) =>
        match groupBy (·.sourceId) (db.otherReferences reference.mediaItemId origin.id true) with
        | [] =>
          let stale := !(db.otherReferences reference.mediaItemId origin.id false).isEmpty
          { s with
            committed := db, db := db,
            phase := .ended (if stale then .error .staleTargets else .ok false) }
        | groups => { s with committed := db, db := db, phase := .visiting origin groups }

/-- The state of the next server is read. -/
def visit (origin : Source) (group : Nat × List SourceMediaRef)
    (groups : List (Nat × List SourceMediaRef)) : InstantExecution :=
  match group.2.mergeSort Database.moreRecent with
  | [] => { s with phase := .visiting origin groups }
  | target :: others =>
    let key := (target.mediaItemId, target.sourceId)
    let state := s.db.watchStates.get? key
    if AsyncTaskExecutor.leaves origin u s.db group.1 state
      then { s with phase := .visiting origin groups }
    else match inputs.connectionError group.1 with
      | some error => s.fail (.remote error)
      | none =>
        { s with
        phase := .calling origin { key := key, state := state } (target :: others) 0 groups }

theorem id_unavailable (inputs : ExecutionInputs) (r : SourceMediaRef) :
    { r with available := false, unavailableSince := some inputs.now }.id = r.id := rfl

/-- One remote call, and `_invalidate_reference` after the answer that there is no such item. -/
def call (origin : Source) (loaded : LoadedState) (r : SourceMediaRef) (rs : List SourceMediaRef)
    (successful : Nat) (groups : List (Nat × List SourceMediaRef)) : InstantExecution :=
  let made : RemoteCall := ⟨r, u.position, loaded.state⟩
  let s := { s with calls := s.calls ++ [made] }
  match inputs.answer r.id with
  | .success => { s with phase := .calling origin loaded rs (successful + 1) groups }
  | .notFound =>
    let db := s.db.saveSourceMediaRef inputs.now r.id
      ⟨fun r => { r with available := false, unavailableSince := some inputs.now },
        id_unavailable inputs⟩
    { ({ s with db := db }).commit with
      phase := .calling origin { loaded with expired := true } rs successful groups }
  | .raises error => s.fail (.remote error)

/-- The assignments to the state and their flush. -/
def write (origin : Source) (loaded : LoadedState) (groups : List (Nat × List SourceMediaRef)) :
    InstantExecution :=
  match loaded.flush u inputs.now s.db with
  | some db => { s with
      db := db
      flushed := true
      changed := true
      reopened := if loaded.expired &&
        s.db.isCompleted loaded.key then loaded.key :: s.reopened else s.reopened
      phase := .visiting origin groups }
  | none => s.fail (.remote "IntegrityError")

def advance : InstantExecution :=
  match s.phase with
  | .begin => s.opening executor inputs u
  | .visiting _ [] => { s.commit with phase := .ended (.ok s.changed) }
  | .visiting origin (group :: groups) => s.visit inputs u origin group groups
  | .calling origin loaded (r :: rs) successful groups =>
    s.call inputs u origin loaded r rs successful groups
  | .calling origin loaded [] successful groups =>
    if successful =
      0 then s.fail .staleSource else { s with phase := .writing origin loaded groups }
  | .writing origin loaded groups => s.write inputs u origin loaded groups
  | .ended _ => s

def step (s : InstantExecution) : InstantEvent → InstantExecution
  | .advance => s.advance executor inputs u
  | .other states =>
    if s.flushed then s
    else
      let changed := { s.committed with watchStates := states }
      { s with committed := changed, db := changed }

/-- The next step commits the session. -/
def Commits : InstantPhase → Prop
  | .visiting _ [] => True
  | .calling _ _ (r :: _) _ _ => inputs.answer r.id = .notFound
  | _ => False

section Completed
variable {db : Database} {key key' : Nat × Nat} {now : Time}

theorem isCompleted_of_states {db' : Database} (h : db'.watchStates = db.watchStates)
    (key : Nat × Nat) :
    db'.isCompleted key = db.isCompleted key := by
  unfold isCompleted
  rw [h]

theorem isCompleted_of_knowledge {db' : Database} (h : KnowledgeKept id db db')
    (hkey : db.isCompleted key = true) :
    db'.isCompleted key = true := by
  obtain ⟨s, hs, hc⟩ := (Option.any_eq_true _ _).1 hkey
  obtain ⟨s', hs', hle⟩ := h key.1 key.2 s hs
  exact (Option.any_eq_true _ _).2 ⟨s', hs', hle.completed hc⟩

theorem isCompleted_saveWatchState_ne (f : Assignment WatchState.key) (hne : key' ≠ key) :
    (db.saveWatchState now key f).isCompleted key' = db.isCompleted key' := by
  unfold isCompleted
  rw [get?_saveWatchState]
  rcases hs : db.watchStates.get? key' with - | s
  · rfl
  · have hkey : s.key = key' := Table.key_of_get? hs
    have hno : ¬ (s.key = key ∧ f s ≠ s) := fun h => hne (hkey.symm.trans h.1)
    rw [Option.map_some, if_neg hno]

theorem isCompleted_saveWatchState {f : Assignment WatchState.key} {s : WatchState}
    (hs : db.watchStates.get? key = some s) :
    (db.saveWatchState now key f).isCompleted key = (f s).completed := by
  unfold isCompleted
  have hkey : s.key = key := Table.key_of_get? hs
  rw [get?_saveWatchState, hs, Option.map_some, Option.any_some]
  split
  · rfl
  next hno =>
    have hsame : f s = s := by
      by_contra hne
      exact hno ⟨hkey, hne⟩
    rw [hsame]

theorem isCompleted_insertWatchState {new : WatchState} (hnone : db.watchStates.get? new.key = none)
    (hnew : new.completed = false)
    (key : Nat × Nat) : (db.insertWatchState new).isCompleted key = db.isCompleted key := by
  unfold isCompleted
  rw [watchStates_insertWatchState]
  by_cases hkey : new.key = key
  · rw [← hkey, Table.get?_insert_self hnone, hnone, Option.any_some, hnew]
    rfl
  · rw [Table.get?_insert_ne hkey]

end Completed

section Flush
variable {u : WatchUpdate} {now : Time} {loaded : LoadedState} {db db' : Database}

theorem completed_assign_progress (hu : u.completed = false) (s : WatchState) :
    (u.assign s).completed = false := by
  unfold WatchUpdate.assign
  rw [hu]
  rfl

/-- The flush of a position reopens exactly a state that had expired. -/
theorem isCompleted_flush (hu : u.completed = false)
    (hopen : loaded.state.any (·.completed) = false)
    (h : loaded.flush u now db = some db') (key : Nat × Nat) :
    db'.isCompleted key =
      (db.isCompleted key && !(loaded.expired && decide (key = loaded.key))) := by
  unfold LoadedState.flush at h
  split at h
  next hstate hrow =>
    cases h
    have hkey : (u.assign (u.newState now loaded.key)).key = loaded.key := u.key_assign _
    rw [isCompleted_insertWatchState (by rw [hkey]; exact hrow) (completed_assign_progress hu _)]
    by_cases heq : key = loaded.key
    · have hno : db.isCompleted key = false := by
        unfold isCompleted
        rw [heq, hrow]
        rfl
      rw [hno, Bool.false_and]
    · rw [decide_eq_false heq, Bool.and_false, Bool.not_false, Bool.and_true]
  next s row hstate hrow =>
    cases h
    by_cases heq : key = loaded.key
    · rw [heq, isCompleted_saveWatchState hrow, decide_eq_true rfl, Bool.and_true]
      have hrowc : db.isCompleted loaded.key = row.completed := by
        unfold isCompleted
        rw [hrow]
        rfl
      rw [hrowc]
      cases loaded.expired with
      | true =>
        rw [Bool.not_true, Bool.and_false]
        exact completed_assign_progress hu row
      | false =>
        have hs : s.completed = false := by
          rw [hstate] at hopen
          exact hopen
        rw [Bool.not_false, Bool.and_true]
        show (if (u.assign s).completed =
          s.completed then row.completed else (u.assign s).completed) = row.completed
        rw [if_pos ((completed_assign_progress hu s).trans hs.symm)]
    · rw [isCompleted_saveWatchState_ne _ heq, decide_eq_false heq, Bool.and_false, Bool.not_false,
        Bool.and_true]
  · cases h

end Flush

/-! ### One step -/

section Steps
variable {executor : AsyncTaskExecutor} {inputs : ExecutionInputs} {u : WatchUpdate}
  {s : InstantExecution}

/-- A state is read while it is open. -/
def PhaseFits (flushed : Bool) : InstantPhase → Prop
  | .begin => flushed = false
  | .calling _ loaded _ _ _ | .writing _ loaded _ => loaded.state.any (·.completed) = false
  | _ => True

/-- The reopened states are those in which the session has less than what is committed. -/
structure Inv (s : InstantExecution) : Prop where
  reopened : ∀ key, key ∈ s.reopened ↔ s.committed.isCompleted key = true ∧
    s.db.isCompleted key = false
  session : ∀ key, s.db.isCompleted key = true → s.committed.isCompleted key = true
  clean : s.flushed = false → s.db = s.committed
  fits : PhaseFits s.flushed s.phase

/-- A session without uncommitted writes. -/
theorem inv_committed {s : InstantExecution} (hdb : s.db = s.committed)
    (hreopened : s.reopened = []) (hfits : PhaseFits s.flushed s.phase) : Inv s where
  reopened key := by simp [hdb, hreopened]
  session key h := by rwa [← hdb]
  clean _ := hdb
  fits := hfits

theorem inv_start (db : Database) : Inv { committed := db, db := db } := inv_committed rfl rfl rfl

/-- Every completed state stays so. -/
def Keeps (db db' : Database) : Prop :=
  ∀ key, db.isCompleted key = true → db'.isCompleted key = true

theorem keeps_db_iff (h : Inv s) : Keeps s.committed s.db ↔ s.reopened = [] := by
  constructor
  · intro hk
    refine List.eq_nil_iff_forall_not_mem.2 fun key hkey => ?_
    obtain ⟨hc, hno⟩ := (h.reopened key).1 hkey
    rw [hk key hc] at hno
    cases hno
  · intro hnil key hc
    by_contra hno
    have hmem : key ∈ s.reopened := (h.reopened key).2 ⟨hc, by simpa using hno⟩
    rw [hnil] at hmem
    cases hmem

theorem inv_fail (error : ApplyError) : Inv (s.fail error) := inv_committed rfl rfl trivial

/-- The first step writes what the recovery of the origin writes. -/
theorem opening_spec (h : Inv s) (hphase : s.phase = .begin) :
    Inv (s.opening executor inputs u) ∧
    Keeps s.committed (s.opening executor inputs u).committed := by
  have hflushed : s.flushed = false := by
    have hfits := h.fits
    rwa [hphase] at hfits
  have hdb := h.clean hflushed
  have hnil : s.reopened = [] := (keeps_db_iff h).1 fun key hc => by rwa [hdb]
  have hsame : ∀ outcome, Inv { s with phase := .ended outcome } :=
    fun _ => inv_committed hdb hnil trivial
  have hrefl : Keeps s.committed s.committed := fun _ hc => hc
  unfold opening
  split
  · exact ⟨hsame _, hrefl⟩
  · split
    · exact ⟨hsame _, hrefl⟩
    next origin horigin =>
      have hrecovered := (@AsyncTaskExecutor.recovered_originReference executor inputs origin u s.db
        (Table.key_of_get? horigin)).knowledge
      generalize executor.originReference inputs origin u s.db = found at hrecovered ⊢
      obtain ⟨recovered, outcome⟩ := found
      have hkeeps : Keeps s.committed recovered :=
        fun key hc => isCompleted_of_knowledge hrecovered (by rwa [hdb])
      rcases outcome with error | reference
      · exact ⟨inv_committed rfl hnil trivial, hkeeps⟩
      · dsimp only
        split
        · exact ⟨inv_committed rfl hnil trivial, hkeeps⟩
        · exact ⟨inv_committed rfl hnil trivial, hkeeps⟩

theorem visit_spec (h : Inv s) (origin : Source) (group : Nat × List SourceMediaRef)
    (groups : List (Nat × List SourceMediaRef)) :
    Inv (s.visit inputs u origin group groups) ∧ (s.visit inputs u origin group groups).committed =
      s.committed := by
  unfold visit
  split
  · exact ⟨⟨h.reopened, h.session, h.clean, trivial⟩, rfl⟩
  next target others _ =>
    dsimp only
    split
    · exact ⟨⟨h.reopened, h.session, h.clean, trivial⟩, rfl⟩
    next hgo =>
      split
      · exact ⟨inv_fail _, rfl⟩
      · refine ⟨⟨h.reopened, h.session, h.clean, ?_⟩, rfl⟩
        unfold AsyncTaskExecutor.leaves at hgo
        simp only [Bool.or_eq_true, not_or] at hgo
        have hopen : (s.db.watchStates.get? (target.mediaItemId, target.sourceId)).any
            (·.completed) = false := by
          simpa using hgo.1
        exact hopen

theorem call_spec (h : Inv s) {origin : Source} {loaded : LoadedState}
    (hopen : loaded.state.any (·.completed) = false)
    (r : SourceMediaRef) (rs : List SourceMediaRef) (successful : Nat)
    (groups : List (Nat × List SourceMediaRef)) :
    Inv (s.call inputs u origin loaded r rs successful groups) ∧
      (Keeps s.committed (s.call inputs u origin loaded r rs successful groups).committed ↔
        (inputs.answer r.id = .notFound → s.reopened = [])) := by
  unfold call
  dsimp only
  split
  next hanswer =>
    refine ⟨⟨h.reopened, h.session, h.clean, hopen⟩, iff_of_true (fun _ hc => hc) fun hno => ?_⟩
    rw [hanswer] at hno
    cases hno
  next hanswer =>
    have hstates := AsyncTaskExecutor.watchStates_saveSourceMediaRef inputs.now r.id
      ⟨fun r => { r with available := false, unavailableSince := some inputs.now },
        fun _ => rfl⟩ s.db
    refine ⟨inv_committed rfl rfl hopen, ?_⟩
    have hkeeps : Keeps s.committed (s.db.saveSourceMediaRef inputs.now r.id
        ⟨fun r => { r with available := false, unavailableSince := some inputs.now }, fun _ =>
          rfl⟩) ↔ Keeps s.committed s.db :=
      ⟨fun hk key hc => (isCompleted_of_states hstates key).symm.trans (hk key hc),
        fun hk key hc => (isCompleted_of_states hstates key).trans (hk key hc)⟩
    exact hkeeps.trans ((keeps_db_iff h).trans ⟨fun hnil _ => hnil, fun hnil => hnil hanswer⟩)
  next error hanswer =>
    refine ⟨inv_fail _, iff_of_true (fun _ hc => hc) fun hno => ?_⟩
    rw [hanswer] at hno
    cases hno

theorem write_spec (hu : u.completed = false) (h : Inv s) {origin : Source} {loaded : LoadedState}
    (hopen : loaded.state.any (·.completed) = false) (groups : List (Nat × List SourceMediaRef)) :
    Inv (s.write inputs u origin loaded groups) ∧
    (s.write inputs u origin loaded groups).committed = s.committed := by
  unfold write
  split
  next db hflush =>
    have hdb := isCompleted_flush hu hopen hflush
    refine ⟨⟨fun key => ?_, fun key hc => ?_, (fun hno => by cases hno), trivial⟩, rfl⟩
    · dsimp only
      rw [hdb key]
      have hold := h.reopened key
      have hsession := h.session key
      by_cases hkey : key = loaded.key
      · subst hkey
        cases hexpired : loaded.expired <;> cases hnow : s.db.isCompleted loaded.key <;> simp_all
      · have hmem : key ∈ (if loaded.expired &&
            s.db.isCompleted loaded.key then loaded.key :: s.reopened else s.reopened) ↔
            key ∈ s.reopened := by
          split
          · simp [hkey]
          · exact Iff.rfl
        rw [hmem, decide_eq_false hkey, Bool.and_false, Bool.not_false, Bool.and_true]
        exact hold
    · dsimp only at hc
      rw [hdb key, Bool.and_eq_true] at hc
      exact h.session key hc.1
  · exact ⟨inv_fail _, rfl⟩

theorem advance_spec (hu : u.completed = false) (h : Inv s) : Inv (s.advance executor inputs u) ∧
    (Keeps s.committed (s.advance executor inputs u).committed ↔
      (Commits inputs s.phase → s.reopened = [])) := by
  have hfits := h.fits
  have hrefl : ∀ db, Keeps db db := fun _ _ hc => hc
  unfold advance
  split
  next hphase =>
    obtain ⟨hinv, hkeeps⟩ := @opening_spec executor inputs u s h hphase
    rw [hphase]
    exact ⟨hinv, iff_of_true hkeeps False.elim⟩
  next hphase =>
    rw [hphase]
    exact ⟨inv_committed rfl rfl trivial,
      (keeps_db_iff h).trans ⟨fun hnil _ => hnil, fun hnil => hnil trivial⟩⟩
  next origin group groups hphase =>
    obtain ⟨hinv, hsame⟩ := @visit_spec inputs u s h origin group groups
    rw [hsame, hphase]
    exact ⟨hinv, iff_of_true (hrefl _) False.elim⟩
  next origin loaded r rs successful groups hphase =>
    rw [hphase] at hfits ⊢
    exact call_spec h hfits r rs successful groups
  next origin loaded successful groups hphase =>
    rw [hphase] at hfits ⊢
    split
    · exact ⟨inv_fail _, iff_of_true (hrefl _) False.elim⟩
    · exact ⟨⟨h.reopened, h.session, h.clean, hfits⟩, iff_of_true (hrefl _) False.elim⟩
  next origin loaded groups hphase =>
    rw [hphase] at hfits ⊢
    obtain ⟨hinv, hsame⟩ := @write_spec inputs u s hu h origin loaded hfits groups
    rw [hsame]
    exact ⟨hinv, iff_of_true (hrefl _) False.elim⟩
  next outcome hphase =>
    rw [hphase]
    exact ⟨h, iff_of_true (hrefl _) False.elim⟩

theorem inv_step (hu : u.completed = false) (h : Inv s) (e : InstantEvent) :
    Inv (s.step executor inputs u e) := by
  cases e with
  | advance => exact (advance_spec hu h).1
  | other states =>
    dsimp only [step]
    split
    · exact h
    next hclean =>
      have hdb := h.clean (by simpa using hclean)
      have hnil : s.reopened = [] := (keeps_db_iff h).1 fun key hc => by rwa [hdb]
      exact inv_committed rfl hnil h.fits

/-- The other sessions take no completion back. -/
def Respects (s : InstantExecution) : InstantEvent → Prop
  | .advance => True
  | .other states =>
    ∀ key, s.committed.isCompleted key = true → (states.get? key).any (·.completed) = true

/-- No state that expired is written over a completion and committed. -/
def Spares (inputs : ExecutionInputs) (s : InstantExecution) : InstantEvent → Prop
  | .advance => Commits inputs s.phase → s.reopened = []
  | .other _ => True

theorem keeps_step_iff (hu : u.completed = false) (h : Inv s) {e : InstantEvent}
    (hother : Respects s e) :
    Keeps s.committed (s.step executor inputs u e).committed ↔ Spares inputs s e := by
  cases e with
  | advance => exact (advance_spec hu h).2
  | other states =>
    refine iff_of_true ?_ trivial
    dsimp only [step]
    split
    · exact fun _ hc => hc
    · exact hother

end Steps

section Runs
variable {executor : AsyncTaskExecutor} {inputs : ExecutionInputs} {u : WatchUpdate}

theorem inv_run (hu : u.completed = false) {s : InstantExecution} (h : Inv s)
    (es : List InstantEvent) :
    Inv (es.foldl (step executor inputs u) s) := by
  induction es generalizing s with
  | nil => exact h
  | cons e es ih => exact ih (inv_step hu h e)

/-- Along a run of steps that keep the completed states, whatever is completed stays so. -/
theorem keeps_run {s : InstantExecution} {es : List InstantEvent}
    (h : Along (step executor inputs u)
      (fun s e => Keeps s.committed (s.step executor inputs u e).committed) s es) :
    Keeps s.committed (es.foldl (step executor inputs u) s).committed := by
  induction es generalizing s with
  | nil => exact fun _ hc => hc
  | cons e es ih => exact fun key hc => ih h.2 key (h.1 key hc)

end Runs

/-- Whatever is committed as completed at some point of the run is completed at every later
point. -/
def CompletionsSurvive (executor : AsyncTaskExecutor) (inputs : ExecutionInputs) (u : WatchUpdate)
    (s : InstantExecution) (es : List InstantEvent) : Prop :=
  ∀ before after, before ++ after <+: es → Keeps (before.foldl (step executor inputs u) s).committed
    ((before ++ after).foldl (step executor inputs u) s).committed

/-- An instant update about a position, among other sessions that take no completion back:
completions survive it exactly when it commits no state that it assigned after a not-found answer
had expired it and that was completed by then. -/
theorem completions_survive_iff (executor : AsyncTaskExecutor) (inputs : ExecutionInputs)
    (u : WatchUpdate) (hu : u.completed = false) (db : Database) (es : List InstantEvent)
    (hothers : Along (step executor inputs u) Respects { committed := db, db := db } es) :
    CompletionsSurvive executor inputs u { committed := db, db := db } es ↔
      Along (step executor inputs u) (Spares inputs) { committed := db, db := db } es := by
  have hinv := inv_start db
  generalize ({ committed := db, db := db } : InstantExecution) = s at hothers hinv ⊢
  have hkeeps : Along (step executor inputs u) (Spares inputs) s es ↔
      Along (step executor inputs u)
        (fun s e => Keeps s.committed (s.step executor inputs u e).committed) s es := by
    rw [Along.iff_forall_prefix, Along.iff_forall_prefix]
    rw [Along.iff_forall_prefix] at hothers
    refine forall_congr' fun before => forall_congr' fun e => imp_congr_right fun hstart => ?_
    exact (keeps_step_iff hu (inv_run hu hinv before) (hothers before e hstart)).symm
  rw [hkeeps]
  constructor
  · intro h
    rw [Along.iff_forall_prefix]
    intro before e hstart
    have hstep := h before [e] hstart
    rwa [List.foldl_append] at hstep
  · rintro h before after ⟨rest, rfl⟩
    rw [List.foldl_append]
    exact keeps_run (Along.append.1 (Along.append.1 h).1).2

/-! ### Alone -/

section Alone
variable {executor : AsyncTaskExecutor} {inputs : ExecutionInputs} {u : WatchUpdate}

/-- Some steps without other sessions. -/
def Reaches (executor : AsyncTaskExecutor) (inputs : ExecutionInputs) (u : WatchUpdate) :
    InstantExecution → InstantExecution → Prop :=
  Relation.ReflTransGen fun s s' => s.advance executor inputs u = s'

/-- The session as the execution without steps has it. -/
def applying (s : InstantExecution) : Applying where
  committed := s.committed
  db := s.db
  calls := s.calls
  changed := s.changed

theorem Reaches.step {s s' s'' : InstantExecution} (hstep : s.advance executor inputs u = s')
    (h : Reaches executor inputs u s' s'') : Reaches executor inputs u s s'' := .head hstep h

theorem Reaches.single {s s' : InstantExecution} (hstep : s.advance executor inputs u = s') :
    Reaches executor inputs u s s' :=
  Relation.ReflTransGen.single hstep

theorem saveWatchState_congr {db : Database} {now : Time} {key : Nat × Nat}
    {f g : Assignment WatchState.key}
    (h : ∀ s, db.watchStates.get? key = some s → f s = g s) :
    db.saveWatchState now key f = db.saveWatchState now key g := by
  have hrow : ∀ s ∈ db.watchStates.rows, s.key = key → f s = g s :=
    fun s hs hkey => h s (by rw [← hkey, Table.get?_of_mem hs])
  have hp : ∀ s ∈ db.watchStates.rows, (decide (s.key = key) && decide (f s ≠ s)) =
      (decide (s.key = key) && decide (g s ≠ s)) := by
    intro s hs
    by_cases hkey : s.key = key
    · rw [hrow s hs hkey]
    · rw [decide_eq_false hkey, Bool.false_and, Bool.false_and]
  have htable : db.watchStates.update (fun s => decide (s.key = key) && decide (f s ≠ s))
      ⟨fun s => { f s with updatedAt := now }, f.key_apply⟩ =
    db.watchStates.update (fun s => decide (s.key = key) && decide (g s ≠ s))
      ⟨fun s => { g s with updatedAt := now }, g.key_apply⟩ := by
    refine Table.ext_rows ?_
    rw [Table.rows_update, Table.rows_update]
    refine List.map_congr_left fun s hs => ?_
    rw [hp s hs]
    split
    next hsel =>
      rw [Bool.and_eq_true, decide_eq_true_eq] at hsel
      show { f s with updatedAt := now } = { g s with updatedAt := now }
      rw [hrow s hs hsel.1]
    · rfl
  unfold saveWatchState updateWatchStates
  rw [htable, List.filter_congr hp]

theorem flushColumns_self (s : WatchState) : u.flushColumns s s = u.assign s := by
  have hcolumn : ∀ {α : Type} [DecidableEq α] (a b : α), (if a = b then b else a) = a := by
    intro α _ a b
    split
    next h => exact h.symm
    · rfl
  unfold WatchUpdate.flushColumns
  simp only [hcolumn]
  unfold WatchUpdate.assign
  dsimp only
  split <;> rfl

/-- A flush of a state that is as it was read. -/
theorem flush_eq {now : Time} {loaded : LoadedState} {db : Database}
    (h : db.watchStates.get? loaded.key = loaded.state) :
    loaded.flush u now db = some
      (db.putWatchState now loaded.key (u.newState now loaded.key) ⟨u.assign, u.key_assign⟩) := by
  unfold LoadedState.flush putWatchState
  rw [h]
  rcases hstate : loaded.state with - | s
  · rfl
  · dsimp only
    refine congrArg some ?_
    split
    · rfl
    · refine saveWatchState_congr fun row hrow => ?_
      rw [hstate] at h
      obtain rfl := Option.some.inj (h.symm.trans hrow)
      exact flushColumns_self s

theorem watchStates_callEach (position : Option Int) (state : Option WatchState)
    (rs : List SourceMediaRef) (s : Applying × Nat) :
    (AsyncTaskExecutor.callEach inputs position state rs s).1.db.watchStates =
      s.1.db.watchStates := by
  induction rs generalizing s with
  | nil => rfl
  | cons r rs ih =>
    obtain ⟨s, n⟩ := s
    unfold AsyncTaskExecutor.callEach
    dsimp only
    split
    · exact ih _
    · exact (ih _).trans (AsyncTaskExecutor.watchStates_saveSourceMediaRef _ _ _ _)
    · rfl

/-- From `s` the steps lead to the end with this error, or to a state like this one. -/
def LeadsTo (executor : AsyncTaskExecutor) (inputs : ExecutionInputs) (u : WatchUpdate)
    (s : InstantExecution) (result : Applying) (next : InstantPhase → Prop) : Prop :=
  ∃ s', Reaches executor inputs u s s' ∧ match result.error with
    | some error =>
      s'.phase = .ended (.error error) ∧ s'.committed = result.committed ∧ s'.calls = result.calls
    | none => next s'.phase ∧ s'.applying = result

theorem calls_alone (origin : Source) (groups : List (Nat × List SourceMediaRef))
    (rs : List SourceMediaRef) {s : InstantExecution}
    {loaded : LoadedState} {n : Nat} (hphase : s.phase = .calling origin loaded rs n groups) :
    LeadsTo executor inputs u s
      (AsyncTaskExecutor.callEach inputs u.position loaded.state rs (s.applying, n)).1 fun phase =>
      ∃ expired, phase = .calling origin { loaded with expired := expired } []
        (AsyncTaskExecutor.callEach inputs u.position loaded.state rs (s.applying, n)).2
          groups := by
  induction rs generalizing s loaded n with
  | nil => exact ⟨s, .refl, ⟨loaded.expired, hphase⟩, rfl⟩
  | cons r rs ih =>
    have hadvance : s.advance executor inputs u = s.call inputs u origin loaded r rs n groups := by
      unfold advance
      rw [hphase]
    unfold AsyncTaskExecutor.callEach
    unfold call at hadvance
    dsimp only [applying] at hadvance ⊢
    rcases hanswer : inputs.answer r.id with - | - | error <;> rw [hanswer] at hadvance <;>
      dsimp only at hadvance ⊢
    · obtain ⟨s', hreach, hresult⟩ :=
        @ih (s.advance executor inputs u) loaded (n + 1) (by rw [hadvance])
      rw [hadvance] at hreach hresult
      exact ⟨s', hreach.step hadvance, hresult⟩
    · obtain ⟨s', hreach, hresult⟩ :=
        @ih (s.advance executor inputs u) { loaded with expired := true } n (by rw [hadvance])
      rw [hadvance] at hreach hresult
      exact ⟨s', hreach.step hadvance, hresult⟩
    · exact ⟨_, Reaches.single hadvance, ⟨rfl, rfl, rfl⟩⟩

theorem visit_alone (origin : Source) (group : Nat × List SourceMediaRef)
    (groups : List (Nat × List SourceMediaRef))
    {s : InstantExecution} (hphase : s.phase = .visiting origin (group :: groups)) :
    LeadsTo executor inputs u s (AsyncTaskExecutor.visit inputs origin u s.applying group)
    (· = .visiting origin groups) := by
  have hadvance : s.advance executor inputs u = s.visit inputs u origin group groups := by
    unfold advance
    rw [hphase]
  have happlying : s.applying = ⟨s.committed, s.db, s.calls, s.changed, none⟩ := rfl
  rw [happlying]
  unfold AsyncTaskExecutor.visit
  unfold visit at hadvance
  dsimp only at hadvance ⊢
  rcases hsorted : group.2.mergeSort moreRecent with - | ⟨target, others⟩ <;>
    rw [hsorted] at hadvance <;> dsimp only at hadvance ⊢
  · exact ⟨_, Reaches.single hadvance, rfl, rfl⟩
  · by_cases hgo : AsyncTaskExecutor.leaves origin u s.db group.1
      (s.db.watchStates.get? (target.mediaItemId, target.sourceId)) = true
    · rw [if_pos hgo] at hadvance ⊢
      exact ⟨_, Reaches.single hadvance, rfl, rfl⟩
    · rw [if_neg hgo] at hadvance ⊢
      rcases hconnection : inputs.connectionError group.1 with - | error <;>
        rw [hconnection] at hadvance <;> dsimp only at hadvance ⊢
      · have hcalls := @calls_alone executor inputs u origin groups (target :: others)
          (s.advance executor inputs u)
          ⟨(target.mediaItemId, target.sourceId),
            s.db.watchStates.get? (target.mediaItemId, target.sourceId), false⟩ 0
          (by rw [hadvance])
        have hstates := @watchStates_callEach inputs u.position
          (s.db.watchStates.get? (target.mediaItemId, target.sourceId))
          (target :: others) ((s.advance executor inputs u).applying, 0)
        have hcalling : (s.advance executor inputs u).applying =
            ⟨s.committed, s.db, s.calls, s.changed, none⟩ := by
          rw [hadvance]
          rfl
        rw [hcalling] at hcalls hstates
        dsimp only at hcalls hstates
        generalize AsyncTaskExecutor.callEach inputs u.position
          (s.db.watchStates.get? (target.mediaItemId, target.sourceId))
          (target :: others) _ = called at hcalls hstates ⊢
        obtain ⟨called, successful⟩ := called
        obtain ⟨s₁, hreach, hresult⟩ := hcalls
        have hreach := hreach.step rfl
        dsimp only at hresult hstates ⊢
        rcases herror : called.error with - | error <;> rw [herror] at hresult
        · rw [Option.isSome_none, if_neg Bool.false_ne_true]
          obtain ⟨⟨expired, hphase₁⟩, rfl⟩ := hresult
          have hadvance₁ : s₁.advance executor inputs u = if successful =
              0 then s₁.fail .staleSource else { s₁ with
              phase := .writing origin ⟨(target.mediaItemId, target.sourceId),
                s.db.watchStates.get? (target.mediaItemId, target.sourceId), expired⟩ groups } := by
            unfold advance
            rw [hphase₁]
          by_cases hzero : successful = 0
          · rw [if_pos hzero] at hadvance₁ ⊢
            exact ⟨_, hreach.trans (Reaches.single hadvance₁), rfl, rfl, rfl⟩
          · rw [if_neg hzero] at hadvance₁ ⊢
            have hflush := @flush_eq u inputs.now ⟨(target.mediaItemId, target.sourceId),
              s.db.watchStates.get? (target.mediaItemId, target.sourceId), expired⟩ s₁.db
                (congrArg (Table.get? · _) hstates)
            have hwrite : ∃ s₂, (s₁.advance executor inputs u).advance executor inputs u = s₂ ∧
                s₂.phase = .visiting origin groups ∧
                s₂.applying = { s₁.applying with
                  db := s₁.db.putWatchState inputs.now (target.mediaItemId, target.sourceId)
                    (u.newState inputs.now (target.mediaItemId, target.sourceId))
                      ⟨u.assign, u.key_assign⟩
                  changed := true } := by
              rw [hadvance₁]
              dsimp only [advance, write]
              rw [hflush]
              exact ⟨_, rfl, rfl, rfl⟩
            obtain ⟨s₂, hadvance₂, hphase₂, happlying₂⟩ := hwrite
            exact ⟨s₂, (hreach.tail rfl).tail hadvance₂, hphase₂, happlying₂⟩
        · rw [Option.isSome_some, if_pos rfl]
          exact ⟨s₁, hreach, by rw [herror]; exact hresult⟩
      · exact ⟨_, Reaches.single hadvance, rfl, rfl, rfl⟩

theorem foldl_visit_of_error (origin : Source) {s : Applying} {error : ApplyError}
    (h : s.error = some error)
    (groups : List (Nat × List SourceMediaRef)) :
    groups.foldl (AsyncTaskExecutor.visit inputs origin u) s = s := by
  induction groups with
  | nil => rfl
  | cons group groups ih =>
    have hvisit : AsyncTaskExecutor.visit inputs origin u s group = s := by
      unfold AsyncTaskExecutor.visit
      rw [h]
    rw [List.foldl_cons, hvisit, ih]

theorem groups_alone (origin : Source) (groups : List (Nat × List SourceMediaRef))
    {s : InstantExecution} (hphase : s.phase = .visiting origin groups) :
    LeadsTo executor inputs u s (groups.foldl (AsyncTaskExecutor.visit inputs origin u) s.applying)
    (· = .visiting origin []) := by
  induction groups generalizing s with
  | nil => exact ⟨s, .refl, hphase, rfl⟩
  | cons group groups ih =>
    obtain ⟨s₁, hreach, hresult⟩ := @visit_alone executor inputs u origin group groups s hphase
    rw [List.foldl_cons]
    generalize AsyncTaskExecutor.visit inputs origin u s.applying group = visited at hresult ⊢
    rcases herror : visited.error with - | error
    · rw [herror] at hresult
      obtain ⟨hphase₁, rfl⟩ := hresult
      obtain ⟨s₂, hreach₂, hresult₂⟩ := ih hphase₁
      exact ⟨s₂, hreach.trans hreach₂, hresult₂⟩
    · rw [foldl_visit_of_error origin herror]
      rw [herror] at hresult
      exact ⟨s₁, hreach, by rw [herror]; exact hresult⟩

/-- Without other sessions the steps are the execution. -/
theorem undisturbed (executor : AsyncTaskExecutor) (inputs : ExecutionInputs) (u : WatchUpdate)
    (db : Database) :
    ∃ s', Reaches executor inputs u { committed := db, db := db } s' ∧
    s'.phase = .ended (executor.applyWatchUpdate inputs u db).outcome ∧
      s'.committed = (executor.applyWatchUpdate inputs u db).db ∧
      s'.calls = (executor.applyWatchUpdate inputs u db).calls := by
  have hadvance : ({ committed := db, db := db } : InstantExecution).advance executor inputs u =
      ({ committed := db, db := db } : InstantExecution).opening executor inputs u := rfl
  unfold AsyncTaskExecutor.applyWatchUpdate
  unfold opening at hadvance
  dsimp only at hadvance
  split
  next hidle =>
    rw [if_pos hidle] at hadvance
    exact ⟨_, Reaches.single hadvance, rfl, rfl, rfl⟩
  next hidle =>
    rw [if_neg hidle] at hadvance
    rcases hsource : db.sources.get? u.sourceId with - | origin <;> rw [hsource] at hadvance <;>
      dsimp only at hadvance ⊢
    · exact ⟨_, Reaches.single hadvance, rfl, rfl, rfl⟩
    · rcases hfound :
        executor.originReference inputs origin u db with ⟨recovered, error | reference⟩ <;>
        rw [hfound] at hadvance <;> dsimp only at hadvance ⊢
      · exact ⟨_, Reaches.single hadvance, rfl, rfl, rfl⟩
      · rcases hgroups : groupBy (·.sourceId) (recovered.otherReferences reference.mediaItemId
          origin.id true) with - | ⟨group, groups⟩ <;>
          simp only [hgroups] at hadvance ⊢
        · refine ⟨_, Reaches.single hadvance, ?_⟩
          cases (recovered.otherReferences reference.mediaItemId origin.id false).isEmpty
          · exact ⟨rfl, rfl, rfl⟩
          · exact ⟨rfl, rfl, rfl⟩
        · obtain ⟨s₁, hreach, hresult⟩ := @groups_alone executor inputs u origin (group :: groups)
            (({ committed := db, db := db } : InstantExecution).advance executor inputs u)
              (by rw [hadvance])
          have hreach := hreach.step rfl
          rw [hadvance] at hresult
          dsimp only [applying] at hresult
          generalize (group :: groups).foldl (AsyncTaskExecutor.visit inputs origin u) _ =
            visited at hresult ⊢
          rcases herror : visited.error with - | error <;> rw [herror] at hresult
          · obtain ⟨hphase, rfl⟩ := hresult
            have hend : s₁.advance executor inputs u =
                { s₁.commit with phase := .ended (.ok s₁.changed) } := by
              unfold advance
              rw [hphase]
            exact ⟨_, hreach.trans (Reaches.single hend), rfl, rfl, rfl⟩
          · exact ⟨s₁, hreach, hresult⟩

end Alone

/-! ### A completion between a repair and the write -/

section Example

/-- The ids under which the second server knows the item. -/
def knownIds : List SourceMediaRef :=
  [{ id := 2, sourceId := 2, libraryId := 2, mediaItemId := 1, externalId := "b", lastSeenAt := 5 },
    { id := 3, sourceId := 2, libraryId := 2, mediaItemId := 1, externalId := "c" }]

def openState : WatchState :=
  { mediaItemId := 1, sourceId := 2, completed := false, observedAt := 0 }

/-- An item on two servers. -/
def sharedItem : Database :=
  let origin : SourceMediaRef :=
    { id := 1, sourceId := 1, libraryId := 1, mediaItemId := 1, externalId := "a" }
  { Database.empty with
    sources := (Table.empty.insert ⟨1, .plex, "", "", true⟩).insert ⟨2, .jellyfin, "", "", true⟩
    mediaItems := Table.empty.insert { id := 1, kind := .movie }
    sourceMediaRefs := knownIds.foldl Table.insert (Table.empty.insert origin)
    watchStates := Table.empty.insert openState }

def positionUpdate : WatchUpdate := ⟨1, "a", 10, some 5000, false, none⟩

/-- The server no longer has the first id. -/
def oneGone : ExecutionInputs where
  now := 10
  answer reference := if reference = 2 then .notFound else .success

def plainExecutor : AsyncTaskExecutor := ⟨.plain, fun item => item.externalId, fun _ => ""⟩

/-- The state is read, another session completes it, and the execution goes on. -/
def completedMeanwhile : List InstantEvent :=
  [.advance, .advance, .other
    (Table.empty.insert { openState with viewCount := 1, completed := true, observedAt := 9 }),
    .advance, .advance, .advance, .advance, .advance]

/-- The first two steps. -/
theorem advance_sharedItem :
    (({ committed := sharedItem, db := sharedItem } : InstantExecution).advance plainExecutor
      oneGone positionUpdate).advance plainExecutor oneGone positionUpdate =
      { committed := sharedItem
        db := sharedItem
        phase :=
          .calling ⟨1, .plex, "", "", true⟩ { key := (1, 2), state := some openState } knownIds
            0 [] } := by
  have hopen :
      ({ committed := sharedItem, db := sharedItem } : InstantExecution).advance plainExecutor
        oneGone positionUpdate =
      { committed := sharedItem
        db := sharedItem
        phase := .visiting ⟨1, .plex, "", "", true⟩ [(2, knownIds)] } := rfl
  rw [hopen]
  dsimp only [advance, visit]
  rw [show knownIds.mergeSort moreRecent = knownIds from List.mergeSort_of_pairwise (by decide)]
  rfl

theorem isCompleted_sharedItem (key : Nat × Nat) : sharedItem.isCompleted key = false := by
  have hrows : ∀ s ∈ sharedItem.watchStates.rows, s.completed = false := by decide
  unfold isCompleted
  rcases hs : sharedItem.watchStates.get? key with - | s
  · rfl
  · exact hrows s (Table.mem_of_get? hs)

theorem completions_survive_iff_meanwhile :
    CompletionsSurvive plainExecutor oneGone
      positionUpdate { committed := sharedItem, db := sharedItem } completedMeanwhile ↔
      Along (step plainExecutor oneGone positionUpdate) (Spares oneGone)
      { committed := sharedItem, db := sharedItem }
        completedMeanwhile := by
  refine completions_survive_iff plainExecutor oneGone positionUpdate rfl sharedItem
    completedMeanwhile
    ⟨trivial, trivial, fun key hkey => ?_, trivial, trivial, trivial, trivial, trivial, trivial⟩
  have hno := isCompleted_sharedItem key
  dsimp only [step] at hkey
  rw [advance_sharedItem] at hkey
  rw [hno] at hkey
  cases hkey

theorem completion_overwritten :
    ¬ CompletionsSurvive plainExecutor oneGone
      positionUpdate { committed := sharedItem, db := sharedItem } completedMeanwhile := by
  intro h
  have hkey := h (completedMeanwhile.take 3) (completedMeanwhile.drop 3) List.prefix_rfl (1, 2)
  simp only [completedMeanwhile, List.take, List.drop, List.foldl, List.append, HAppend.hAppend,
    Append.append, step,
    advance_sharedItem] at hkey
  revert hkey
  decide +kernel

end Example

end InstantExecution

end Euvieouvi
