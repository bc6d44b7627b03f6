import Euvieouvi.Jobs.JobRun
import Euvieouvi.Lib.Runs
import Mathlib.Data.List.Sort

/-!
# The durable job queue

The operations on `job_runs` as transactions: each reads the table and writes it without another
operation in between. `JobEvent` is one transaction of any thread, with whatever worker, run and
moment it names; a worker that crashes between two of its transactions is one that takes no further
step. `parseInt` is `int(text)`.
-/

namespace Euvieouvi

abbrev JobRuns := Table JobRun.id

/-- `jobs.retry.max_attempts`. -/
def maxAttemptsOf (parseInt : String → Option Int) (setting : Option String) : Nat :=
  match parseInt (setting.getD "3") with
  | some n => (max 1 (min 10 n)).toNat
  | none => 3

/-- `_retention`. -/
def retentionOf (parseInt : String → Option Int) (setting : Option String) : Nat :=
  match parseInt (setting.getD "20") with
  | some n => (max 1 (min 500 n)).toNat
  | none => 20

theorem maxAttemptsOf_pos (parseInt : String → Option Int) (setting : Option String) :
    0 < maxAttemptsOf parseInt setting := by
  unfold maxAttemptsOf; split <;> omega

theorem retentionOf_pos (parseInt : String → Option Int) (setting : Option String) :
    0 < retentionOf parseInt setting := by
  unfold retentionOf; split <;> omega

/-- `a` comes before `b` in an ascending order: a null comes first. -/
def nullsFirst : Option Time → Option Time → Bool
  | none, b => b.isSome
  | some a, b => b.any (a < ·)

/-- `ORDER BY priority, available_at, id`. -/
def JobRun.claimOrder (a b : JobRun) : Prop :=
  a.jobId.priority < b.jobId.priority ∨ a.jobId.priority = b.jobId.priority ∧
    (nullsFirst a.availableAt b.availableAt = true ∨ a.availableAt = b.availableAt ∧ a.id ≤ b.id)

instance (a b : JobRun) : Decidable (a.claimOrder b) := by unfold JobRun.claimOrder; infer_instance

/-- `ORDER BY created_at DESC, id DESC`. -/
def JobRun.newer (a b : JobRun) : Prop :=
  b.createdAt < a.createdAt ∨ a.createdAt = b.createdAt ∧ b.id ≤ a.id

instance (a b : JobRun) : Decidable (a.newer b) := by unfold JobRun.newer; infer_instance

namespace JobRuns

def submitJob (parseInt : String → Option Int) (setting : Option String) (now : Time) (job : JobId)
    (trigger : SyncTrigger) (runs : JobRuns) : JobRuns :=
  if runs.rows.any fun r => decide (r.jobId = job) && r.status.active then runs
  else runs.insert (.submitted runs.nextId job trigger (maxAttemptsOf parseInt setting) now)

def queued (runs : JobRuns) : List JobRun := runs.rows.filter fun r => r.status = .queued

def candidates (now : Time) (runs : JobRuns) : List JobRun :=
  (runs.queued.filter fun r => r.availableAt.all (· ≤ now)).insertionSort JobRun.claimOrder

/-- The first candidate that waits for no older run of a prerequisite. -/
def candidate (now : Time) (runs : JobRuns) : Option JobRun :=
  (runs.candidates now).find? fun item =>
    !runs.queued.any fun dependency => item.jobId.dependencies.contains dependency.jobId &&
      dependency.id < item.id

/-- The `UPDATE` of `claim_next_job`. -/
def claimRun (worker : String) (now : Time) (id : Nat) (runs : JobRuns) : JobRuns :=
  if runs.rows.any fun r => r.status = .running then runs
  else runs.update (fun r => r.id == id && r.status = .queued) (JobRun.claimed worker now)

def claimNextJob (worker : String) (now : Time) (runs : JobRuns) : JobRuns :=
  match runs.candidate now with
  | some r => runs.claimRun worker now r.id
  | none => runs

/-- A transaction on one row that a condition on the row may turn into nothing. -/
def onRun (id : Nat) (condition : JobRun → Bool) (f : Assignment JobRun.id)
    (runs : JobRuns) : JobRuns :=
  runs.update (fun r => r.id == id && condition r) f

/-- The worker still owns the run. -/
def ownedBy (worker : String) (r : JobRun) : Bool := r.leaseOwner = some worker

def renewJobLease (worker : String) (id : Nat) (now : Time) (runs : JobRuns) : JobRuns :=
  runs.onRun id (fun r => r.status = .running && ownedBy worker r) (JobRun.renewed now)

/-- The first transaction of `execute_claimed_job`. -/
def cancelBeforeStart (worker : String) (id : Nat) (now : Time) (runs : JobRuns) : JobRuns :=
  runs.onRun id (fun r => r.status = .running && ownedBy worker r && r.cancelRequestedAt.isSome)
    (JobRun.cancelledBeforeStart now "Execução cancelada antes do início.")

/-- The transaction of `execute_claimed_job` after the dispatch. -/
def storeReference (worker : String) (id : Nat) (reference : ExecutionReference)
    (runs : JobRuns) : JobRuns :=
  runs.onRun id (fun r => r.status = .running && ownedBy worker r) (JobRun.started reference)

def failOrRetryJob (worker : String) (id : Nat) (detail : String) (now : Time)
    (runs : JobRuns) : JobRuns :=
  runs.onRun id (ownedBy worker) (JobRun.failOrRetry detail now)

def recoverJobRuns (force : Bool) (now : Time) (runs : JobRuns) : JobRuns :=
  runs.update (JobRun.recoverable force now) (JobRun.recover now)

def requestJobCancellation (id : Nat) (now : Time) (runs : JobRuns) : JobRuns :=
  runs.onRun id (fun r => r.status.active) (JobRun.cancel now)

def monitorJob (worker : String) (id : Nat) (now : Time) (report : ExecutionReport)
    (runs : JobRuns) : JobRuns :=
  runs.onRun id (ownedBy worker) (JobRun.monitor worker now report)

/-- `_run_maintenance` or `_run_reconcile`. -/
def runDirectly (worker : String) (id : Nat) (job : DirectJob) (now : Time)
    (result : Option (Nat × Nat)) (summary : String) (runs : JobRuns) : JobRuns :=
  (runs.onRun id (fun r => ownedBy worker r && r.cancelRequestedAt.isSome)
    (JobRun.cancelledBeforeStart now job.cancelledSummary)).onRun id (ownedBy worker)
      (JobRun.closed now result summary)

/-- `_rotate_job_runs`. -/
def rotateJobRuns (parseInt : String → Option Int) (setting : Option String) (job : JobId)
    (runs : JobRuns) : JobRuns :=
  let old := ((runs.rows.filter fun r => r.jobId = job).insertionSort JobRun.newer).drop
    (retentionOf parseInt setting)
  runs.delete fun r => old.any (·.id == r.id)

end JobRuns

inductive JobEvent
  | submit (setting : Option String) (now : Time) (job : JobId) (trigger : SyncTrigger)
  | claim (worker : String) (now : Time)
  | cancelBeforeStart (worker : String) (id : Nat) (now : Time)
  | storeReference (worker : String) (id : Nat) (reference : ExecutionReference)
  | renew (worker : String) (id : Nat) (now : Time)
  | failOrRetry (worker : String) (id : Nat) (detail : String) (now : Time)
  | recover (force : Bool) (now : Time)
  | requestCancellation (id : Nat) (now : Time)
  | monitor (worker : String) (id : Nat) (now : Time) (report : ExecutionReport)
  | runDirectly (worker : String) (id : Nat) (job : DirectJob) (now : Time)
    (result : Option (Nat × Nat)) (summary : String)
  | rotate (setting : Option String) (job : JobId)

namespace JobRuns

def step (parseInt : String → Option Int) (runs : JobRuns) : JobEvent → JobRuns
  | .submit setting now job trigger => runs.submitJob parseInt setting now job trigger
  | .claim worker now => runs.claimNextJob worker now
  | .cancelBeforeStart worker id now => runs.cancelBeforeStart worker id now
  | .storeReference worker id reference => runs.storeReference worker id reference
  | .renew worker id now => runs.renewJobLease worker id now
  | .failOrRetry worker id detail now => runs.failOrRetryJob worker id detail now
  | .recover force now => runs.recoverJobRuns force now
  | .requestCancellation id now => runs.requestJobCancellation id now
  | .monitor worker id now report => runs.monitorJob worker id now report
  | .runDirectly worker id job now result summary =>
    runs.runDirectly worker id job now result summary
  | .rotate setting job => runs.rotateJobRuns parseInt setting job

/-- Creation times do not go backwards. -/
def ClockForward (runs : JobRuns) : JobEvent → Prop
  | .submit _ now _ _ => ∀ r ∈ runs.rows, r.createdAt ≤ now
  | _ => True

instance (runs : JobRuns) (e : JobEvent) : Decidable (runs.ClockForward e) := by
  cases e <;> unfold ClockForward <;> infer_instance

end JobRuns

end Euvieouvi
