import Euvieouvi.Jobs.JobRun
import Euvieouvi.Lib.Runs

/-!
# The active synchronization run

The operations of `sync/orchestrator.py` and `sync/reconcile.py` that write the status of a run, as
the statements of any number of threads. `_acquire` looks for an active run and adds one under the
same write lock (`BEGIN IMMEDIATE`). `run_queued` and `reconcile_orphaned_runs` read first, outside
of a transaction, and write later: `claims` and `orphans` are what threads have read and not yet
written.
-/

namespace Euvieouvi

structure SyncRun where
  id : Nat
  sourceId : Nat
  trigger : SyncTrigger
  status : SyncStatus
  startedAt : Option Time := none
  finishedAt : Option Time := none
  heartbeatAt : Option Time := none
  itemsFailed : Nat := 0
  summary : Option String := none
deriving DecidableEq, Repr

/-- A status that `_finish_run` may be given. -/
abbrev FinalStatus := { status : SyncStatus // status.active = false }

namespace SyncRun

/-- The row that `_acquire` adds. -/
def acquired (id sourceId : Nat) (trigger : SyncTrigger) (queued : Bool) (now : Time) :
    SyncRun where
  id := id
  sourceId := sourceId
  trigger := trigger
  status := if queued then .queued else .running
  startedAt := if queued then none else some now
  heartbeatAt := if queued then none else some now
  summary :=
    some (if queued then "Sincronização aguardando início." else "Preparando sincronização.")

/-- What `run_queued` assigns. -/
def claimed (now : Time) : Assignment SyncRun.id where
  apply r := { r with status := .running, startedAt := some now, heartbeatAt := some now }

/-- What `_finish_run` assigns. -/
def finished (status : FinalStatus) (summary : String) (now : Time) : Assignment SyncRun.id where
  apply r := { r with
    status := status
    finishedAt := some now
    heartbeatAt := some now
    summary := some (if status.1 = .succeeded ∧ 0 < r.itemsFailed then
      s!"Synchronization completed with {r.itemsFailed} item warnings." else summary) }

/-- What `reconcile_orphaned_runs` assigns. -/
def orphaned (now : Time) : Assignment SyncRun.id where
  apply r := { r with
    status := .interrupted
    finishedAt := some now
    heartbeatAt := some now
    summary := some "Execution interrupted during a previous process lifetime." }

end SyncRun

structure RunsState where
  runs : Table SyncRun.id
  claims : List Nat := []
  orphans : List (List Nat) := []

inductive RunsEvent
  | acquire (sourceId : Nat) (enabled : Bool) (trigger : SyncTrigger) (queued : Bool) (now : Time)
  | readQueued (id : Nat)
  | writeRunning (id : Nat) (now : Time)
  | finish (id : Nat) (status : FinalStatus) (summary : String) (now : Time)
  | readOrphans
  | writeOrphans (ids : List Nat) (now : Time)

namespace RunsState

def start : RunsState where
  runs := .empty

/-- `SyncRunRepository.running`. -/
def running (s : RunsState) : List SyncRun := s.runs.rows.filter (·.status.active)

def step (s : RunsState) : RunsEvent → RunsState
  | .acquire sourceId enabled trigger queued now =>
    if s.running.isEmpty && enabled then
      { s with runs := s.runs.insert (.acquired s.runs.nextId sourceId trigger queued now) }
    else s
  | .readQueued id =>
    if (s.runs.get? id).any (·.status = .queued) then { s with claims := id :: s.claims } else s
  | .writeRunning id now =>
    if id ∈ s.claims then
      { s with
        runs := s.runs.update (·.id == id) (SyncRun.claimed now), claims := s.claims.erase id }
    else s
  | .finish id status summary now =>
    { s with runs := s.runs.update (·.id == id) (SyncRun.finished status summary now) }
  | .readOrphans => { s with orphans := s.running.map (·.id) :: s.orphans }
  | .writeOrphans ids now =>
    if ids ∈ s.orphans then
      { s with
        runs := s.runs.update (fun r => ids.contains r.id) (SyncRun.orphaned now),
        orphans := s.orphans.erase ids }
    else s

/-- At most one run is queued or running. -/
def OneActive (s : RunsState) : Prop :=
  ∀ r ∈ s.runs.rows, ∀ r' ∈ s.runs.rows, r.status.active = true → r'.status.active = true →
    r.id = r'.id

instance (s : RunsState) : Decidable s.OneActive := by
  unfold OneActive
  infer_instance

/-- No run that had ended is active again. -/
def Forward (s s' : RunsState) : Prop :=
  ∀ r ∈ s.runs.rows, ∀ r' ∈ s'.runs.rows, r'.id = r.id → r.status.active = false →
    r'.status.active = false

/-- The run that `run_queued` sets running has not ended since it was read. -/
def ClaimsActive (s : RunsState) : RunsEvent → Prop
  | .writeRunning id _ => id ∈ s.claims → ∀ r ∈ s.runs.rows, r.id = id → r.status.active = true
  | _ => True

variable {s : RunsState} {e : RunsEvent}

/-! ### One statement -/

/-- A statement that makes no ended run active. -/
theorem update_calm {p : SyncRun → Bool} {f : Assignment SyncRun.id} {t : RunsState}
    (ht : t.runs = s.runs.update p f)
    (hf : ∀ r ∈ s.runs.rows, p r = true → (f r).status.active = true → r.status.active = true) :
    (s.OneActive → t.OneActive) ∧ s.Forward t := by
  have hback : ∀ r' ∈ t.runs.rows, ∃ r ∈ s.runs.rows, r.id = r'.id ∧
      (r'.status.active = true → r.status.active = true) := by
    intro r' hr'
    rw [ht] at hr'
    rcases Table.mem_update.1 hr' with ⟨r, hr, rfl⟩
    refine ⟨r, hr, ?_⟩
    split
    next hp => exact ⟨(f.key_apply r).symm, hf r hr hp⟩
    next => exact ⟨rfl, fun h => h⟩
  constructor
  · intro hone r₁ hr₁ r₂ hr₂ h₁ h₂
    obtain ⟨s₁, hs₁, hid₁, ha₁⟩ := hback r₁ hr₁
    obtain ⟨s₂, hs₂, hid₂, ha₂⟩ := hback r₂ hr₂
    rw [← hid₁, ← hid₂]
    exact hone s₁ hs₁ s₂ hs₂ (ha₁ h₁) (ha₂ h₂)
  · intro r hr r' hr' hid hended
    obtain ⟨r₀, hr₀, hid₀, hactive⟩ := hback r' hr'
    obtain rfl := s.runs.eq_of_key_eq hr₀ hr (hid₀.trans hid)
    refine Bool.eq_false_iff.2 fun h => ?_
    rw [hactive h] at hended
    cases hended

theorem same_calm {t : RunsState} (ht : t.runs = s.runs) :
    (s.OneActive → t.OneActive) ∧ s.Forward t := by
  unfold OneActive Forward
  rw [ht]
  refine ⟨fun h => h, fun r hr r' hr' hid hended => ?_⟩
  rw [s.runs.eq_of_key_eq hr' hr hid]
  exact hended

theorem acquire_calm {r : SyncRun} {t : RunsState} (ht : t.runs = s.runs.insert r)
    (hnone : s.running.isEmpty = true)
    (hid : r.id = s.runs.nextId) : (s.OneActive → t.OneActive) ∧ s.Forward t := by
  have hended : ∀ r' ∈ s.runs.rows, ¬ r'.status.active = true := by
    intro r' hr' hactive
    have hmem : r' ∈ s.running := List.mem_filter.2 ⟨hr', hactive⟩
    rw [List.isEmpty_iff.1 hnone] at hmem
    cases hmem
  constructor
  · intro _ r₁ hr₁ r₂ hr₂ h₁ h₂
    rw [ht] at hr₁ hr₂
    rcases Table.mem_insert hr₁ with hr₁ | rfl
    · exact absurd h₁ (hended r₁ hr₁)
    · rcases Table.mem_insert hr₂ with hr₂ | rfl
      exacts [absurd h₂ (hended r₂ hr₂), rfl]
  · intro r₁ hr₁ r₂ hr₂ hsame hended₁
    rw [ht] at hr₂
    rcases Table.mem_insert hr₂ with hr₂ | rfl
    · rw [s.runs.eq_of_key_eq hr₂ hr₁ hsame]
      exact hended₁
    · have := Table.key_lt_nextId hr₁
      omega

theorem step_calm (h : s.ClaimsActive e) : (s.OneActive → (s.step e).OneActive) ∧
    s.Forward (s.step e) := by
  cases e with
  | acquire sourceId enabled trigger queued now =>
    dsimp only [step]
    split
    next hfree => exact acquire_calm rfl ((Bool.and_eq_true _ _).mp hfree).1 rfl
    next => exact same_calm rfl
  | readQueued id =>
    dsimp only [step]
    split <;> exact same_calm rfl
  | writeRunning id now =>
    dsimp only [step]
    split
    next hclaim => exact update_calm rfl fun r hr hp _ => h hclaim r hr (beq_iff_eq.1 hp)
    next => exact same_calm rfl
  | finish id status summary now =>
    refine update_calm rfl fun r _ _ hactive => ?_
    exact absurd hactive (by
      rw [show (SyncRun.finished status summary now r).status = status.1 from rfl, status.2];
        decide)
  | readOrphans => exact same_calm rfl
  | writeOrphans ids now =>
    dsimp only [step]
    split
    next => exact update_calm rfl fun r _ _ hactive => absurd hactive Bool.false_ne_true
    next => exact same_calm rfl

/-- A claim of a run that has ended makes it active again. -/
theorem claimsActive_of_forward (h : s.Forward (s.step e)) : s.ClaimsActive e := by
  cases e with
  | writeRunning id now =>
    intro hclaim r hr hid
    by_contra hended
    have hrow : SyncRun.claimed now r ∈ (s.step (.writeRunning id now)).runs.rows := by
      dsimp only [step]
      rw [if_pos hclaim]
      exact Table.mem_update.2 ⟨r, hr, by rw [if_pos (beq_iff_eq.2 hid)]⟩
    have hfalse := h r hr _ hrow rfl (Bool.eq_false_iff.2 hended)
    cases hfalse
  | _ => trivial

/-- In every state of a run at most one run is active, and no run that ended becomes active, exactly
when no thread of `run_queued` sets running what has ended since it looked. -/
theorem one_active_run_iff (es : List RunsEvent) :
    ((∀ pre, pre <+: es → (pre.foldl step start).OneActive) ∧
      ∀ pre e, pre ++ [e] <+: es → (pre.foldl step start).Forward ((pre.foldl step start).step e)) ↔
    Along step ClaimsActive start es := by
  constructor
  · rintro ⟨-, hforward⟩
    exact Along.iff_forall_prefix.2 fun pre e hpre => claimsActive_of_forward (hforward pre e hpre)
  · intro halong
    refine ⟨fun pre hpre => ?_, fun pre e hpre =>
      (step_calm (Along.iff_forall_prefix.1 halong pre e hpre)).2⟩
    obtain ⟨suf, rfl⟩ := hpre
    refine (Along.append.1 halong).1.invariant (fun s e hone hok => (step_calm hok).1 hone) ?_
    rintro r hr
    cases hr

section Example

/-- The run is claimed, found orphaned by the scheduler that starts, and another one is acquired
before the claim is written. -/
def lateClaim : List RunsEvent :=
  [.acquire 1 true .api true 0, .readQueued 1, .readOrphans, .writeOrphans [1] 1,
    .acquire 2 true .api true 2, .writeRunning 1 3]

theorem late_claim_activates_an_ended_run :
    ¬ ((∀ pre, pre <+: lateClaim → (pre.foldl step start).OneActive) ∧
      ∀ pre e, pre ++ [e] <+: lateClaim →
        (pre.foldl step start).Forward ((pre.foldl step start).step e)) := by
  rintro ⟨hone, -⟩
  have htwo : ¬ (lateClaim.foldl step start).OneActive := by decide
  exact htwo (hone lateClaim (List.prefix_refl _))

end Example

end RunsState

end Euvieouvi
