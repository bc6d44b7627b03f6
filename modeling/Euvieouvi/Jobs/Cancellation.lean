import Euvieouvi.Jobs.Queue

/-!
# Cancelling a job

The operations on `job_runs` with other operations between their read and their commit. A session
loads a row and decides what to assign; its commit writes the columns that the assignments changed
(`JobRun.flush`). Claims and lease renewals are single statements. A worker runs one job at a time:
between `dispatch` and `leave` it executes a run, whoever owns the row meanwhile.

`accepted`, `executedLate` and `interrupted` are no part of the program. They record the runs whose
cancellation was committed, those dispatched after that, and the accepted runs that some state since
then showed as interrupted.
-/

namespace Euvieouvi

/-- What a session does with the row it loads. -/
inductive JobWrite
  | request (now : Time)
  | cancelledBeforeStart (worker : String) (now : Time) (summary : String)
  | started (worker : String) (reference : ExecutionReference)
  | monitor (worker : String) (now : Time) (report : ExecutionReport)
  | closed (worker : String) (now : Time) (result : Option (Nat × Nat)) (summary : String)
  | copySyncResult (now : Time) (sync : SyncRunResult)
  | failOrRetry (worker : String) (detail : String) (now : Time)
  | recover (force : Bool) (now : Time)
deriving DecidableEq

namespace JobWrite

def assign : JobWrite → Assignment JobRun.id
  | .request now => JobRun.cancel now
  | .cancelledBeforeStart _ now summary => JobRun.cancelledBeforeStart now summary
  | .started _ reference => JobRun.started reference
  | .monitor worker now report => JobRun.monitor worker now report
  | .closed _ now result summary => JobRun.closed now result summary
  | .copySyncResult now sync => JobRun.copySyncResult now sync
  | .failOrRetry _ detail now => JobRun.failOrRetry detail now
  | .recover _ now => JobRun.recover now

/-- `reconcile_completed_sync_job` finds a finished synchronization: the referenced one, or for a
row that the durable queue has never claimed the latest one of its source. -/
def hasFinishedSync (sync : SyncRunResult) (r : JobRun) : Bool :=
  r.status.active && !sync.status.active &&
    match r.executionReference with
    | some (.sync _) => true
    | _ =>
      r.status = .running && r.attemptCount == 0 && (r.jobId = .syncPlex || r.jobId = .syncJellyfin)

/-- The row as loaded leads to the assignments. The last write of a job that `_monitor_job` runs
itself follows no condition. -/
def applies : JobWrite → JobRun → Bool
  | .request _, r => r.status.active
  | .cancelledBeforeStart worker _ _, r => JobRuns.ownedBy worker r && r.cancelRequestedAt.isSome
  | .started worker _, r => r.status = .running && JobRuns.ownedBy worker r
  | .monitor worker _ _, r => JobRuns.ownedBy worker r
  | .closed .., _ => true
  | .copySyncResult _ sync, r => hasFinishedSync sync r
  | .failOrRetry worker _ _, r => JobRuns.ownedBy worker r
  | .recover force now, r => r.recoverable force now

def isRequest : JobWrite → Bool
  | .request _ => true
  | _ => false

/-- The worker that must be executing the run for the session to begin. -/
def executor : JobWrite → Option String
  | .started worker _ | .monitor worker _ _ | .closed worker _ _ _ => some worker
  | _ => none

end JobWrite

/-- An operation between its read and its commit. -/
structure JobSession where
  write : JobWrite
  loaded : JobRun

structure CancelState where
  runs : JobRuns := .empty
  sessions : Nat → Option JobSession := fun _ => none
  executing : String → Option Nat := fun _ => none
  accepted : List Nat := []
  executedLate : List Nat := []
  interrupted : List Nat := []

inductive CancelEvent
  | submit (setting : Option String) (now : Time) (job : JobId) (trigger : SyncTrigger)
  | claim (worker : String) (now : Time) (id : Nat)
  | renew (worker : String) (now : Time) (id : Nat)
  | dispatch (worker : String) (id : Nat)
  | leave (worker : String)
  | read (session : Nat) (id : Nat) (write : JobWrite)
  | commit (session : Nat)
  | abort (session : Nat)

namespace CancelState

/-- The row a session writes to, when it commits. -/
def target (s : CancelState) (n : Nat) : Option (JobSession × JobRun) :=
  (s.sessions n).bind fun session => (s.runs.get? session.loaded.id).map fun row => (session, row)

def closeSession (n : Nat) (s : CancelState) : CancelState :=
  { s with sessions := Function.update s.sessions n none }

/-- The `UPDATE` of a session. A request whose row is gone raises. -/
def flush (session : JobSession) (s : CancelState) : CancelState :=
  { s with
    runs := s.runs.update (·.id == session.loaded.id)
      ⟨session.loaded.flush (session.write.assign session.loaded), fun _ => rfl⟩
    accepted := if session.write.isRequest &&
      s.runs.contains session.loaded.id then session.loaded.id :: s.accepted
      else s.accepted }

def act (parseInt : String → Option Int) (s : CancelState) : CancelEvent → CancelState
  | .submit setting now job trigger =>
    { s with runs := s.runs.submitJob parseInt setting now job trigger }
  | .claim worker now id =>
    if s.executing worker = none then { s with runs := s.runs.claimRun worker now id } else s
  | .renew worker now id => { s with runs := s.runs.renewJobLease worker id now }
  | .dispatch worker id =>
    if s.executing worker = none ∧ (s.runs.get? id).any fun r =>
        r.status = .running && JobRuns.ownedBy worker r && r.cancelRequestedAt.isNone then
      { s with
        executing := Function.update s.executing worker (some id)
        executedLate := if id ∈ s.accepted then id :: s.executedLate else s.executedLate }
    else s
  | .leave worker => { s with executing := Function.update s.executing worker none }
  | .read n id write =>
    match s.runs.get? id with
    | some row =>
      if s.sessions n |>.isNone then
        if write.applies row && write.executor.all fun worker => s.executing worker = some id then
          { s with sessions := Function.update s.sessions n (some ⟨write, row⟩) }
        else s
      else s
    | none => s
  | .commit n =>
    match s.sessions n with
    | some session => (s.flush session).closeSession n
    | none => s
  | .abort n => s.closeSession n

def isInterrupted (s : CancelState) (id : Nat) : Bool :=
  (s.runs.get? id).any fun r => r.status = .interrupted

def step (parseInt : String → Option Int) (s : CancelState) (e : CancelEvent) : CancelState :=
  let s' := s.act parseInt e
  { s' with interrupted := s.interrupted ++ s'.accepted.filter s'.isInterrupted }

/-- What an accepted cancellation promises. -/
structure Durable (s : CancelState) : Prop where
  final : ∀ id ∈ s.accepted, ∀ r, s.runs.get? id = some r → r.status.active = false →
    r.status = .interrupted
  notExecuted : s.executedLate = []
  kept : ∀ id ∈ s.interrupted, ∀ r, s.runs.get? id = some r → r.status ≠ .running

/-- A worker that executes the run holds its lease. -/
def busy (s : CancelState) (r : JobRun) : Bool :=
  r.leaseOwner.any fun worker => s.executing worker = some r.id

/-- The commit of a session does not defeat a cancellation. -/
def CleanCommit (s : CancelState) (session : JobSession) (r : JobRun) : Prop :=
  match session.write with
  | .request _ =>
    if session.loaded.status = .queued then s.busy r = false
    else r.status = .running ∨ (r.status = .queued ∨ r.status = .interrupted) ∧ s.busy r = false
  | .closed .. => r.cancelRequestedAt = none
  | .copySyncResult _ sync =>
    r.cancelRequestedAt = none ∨ session.loaded.cancelRequestedAt ≠ none ∧
      sync.status = .interrupted
  | write =>
    r.cancelRequestedAt = none ∨ session.loaded.cancelRequestedAt ≠ none ∨
      (write.assign session.loaded).status = session.loaded.status

def Clean (s : CancelState) : CancelEvent → Prop
  | .commit n => ∀ t ∈ s.target n, s.CleanCommit t.1 t.2
  | _ => True

instance (s : CancelState) (session : JobSession) (r : JobRun) :
    Decidable (s.CleanCommit session r) := by
  unfold CleanCommit; split <;> infer_instance

instance (s : CancelState) (e : CancelEvent) : Decidable (s.Clean e) := by
  cases e <;> unfold Clean <;> infer_instance

end CancelState

end Euvieouvi
