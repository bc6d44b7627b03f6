import Euvieouvi.Database
import Mathlib.Algebra.Group.Nat.Defs

/-!
# Job runs

Rows of `job_runs`, and what each operation of `sync/job_worker.py` and `sync/jobs.py` assigns to
the row it loaded. An operation is a condition on the loaded row and an assignment; how the
assignment reaches the table (in the transaction of the read, or later and column by column) is a
matter of the modules that use it.
-/

namespace Euvieouvi

inductive SyncStatus | queued | running | succeeded | failed | interrupted
deriving DecidableEq, Repr

namespace SyncStatus

/-- `status.in_([QUEUED, RUNNING])`. -/
def active : SyncStatus → Bool
  | .queued | .running => true
  | _ => false

@[simp] theorem active_queued : active .queued = true := rfl
@[simp] theorem active_running : active .running = true := rfl
@[simp] theorem active_succeeded : active .succeeded = false := rfl
@[simp] theorem active_failed : active .failed = false := rfl
@[simp] theorem active_interrupted : active .interrupted = false := rfl

end SyncStatus

inductive SyncTrigger | manual | api | scheduled
deriving DecidableEq, Repr

/-- `JOBS`. -/
inductive JobId
  | syncPlex | watchedPlexToJellyfin | watchedJellyfinToPlex | syncJellyfin | metadata
    | catalogImages
  | catalogReconcile | asyncTasks | maintenance
deriving DecidableEq, Repr

def JobId.value : JobId → String
  | .syncPlex => "sync_plex"
  | .watchedPlexToJellyfin => "watched_plex_to_jellyfin"
  | .watchedJellyfinToPlex => "watched_jellyfin_to_plex"
  | .syncJellyfin => "sync_jellyfin"
  | .metadata => "metadata"
  | .catalogImages => "catalog_images"
  | .catalogReconcile => "catalog_reconcile"
  | .asyncTasks => "async_tasks"
  | .maintenance => "maintenance"

/-- `_JOB_PRIORITY`. -/
def JobId.priority : JobId → Nat
  | .syncPlex => 10
  | .watchedPlexToJellyfin => 20
  | .watchedJellyfinToPlex => 30
  | .syncJellyfin => 40
  | .metadata => 50
  | .catalogImages => 60
  | .catalogReconcile => 70
  | .asyncTasks => 80
  | .maintenance => 90

/-- `_JOB_DEPENDENCIES`. -/
def JobId.dependencies : JobId → List JobId
  | .watchedPlexToJellyfin => [.syncPlex]
  | .watchedJellyfinToPlex => [.syncPlex, .watchedPlexToJellyfin]
  | .syncJellyfin => [.syncPlex, .watchedPlexToJellyfin, .watchedJellyfinToPlex]
  | _ => []

inductive JobExecutor | metadata | images | asyncTasks | maintenance | reconcile | watch
deriving DecidableEq, Repr

/-- The jobs that `_monitor_job` runs itself. -/
inductive DirectJob | maintenance | reconcile
deriving DecidableEq, Repr

def DirectJob.cancelledSummary : DirectJob → String
  | .maintenance => "Otimização cancelada antes do início."
  | .reconcile => "Reconciliação cancelada antes do início."

/-- `execution_reference`: `sync:<id>` or `executor:<name>`. -/
inductive ExecutionReference | sync (runId : Nat) | executor (name : JobExecutor)
deriving DecidableEq, Repr

structure JobRun where
  id : Nat
  jobId : JobId
  trigger : SyncTrigger := .manual
  status : SyncStatus
  createdAt : Time
  startedAt : Option Time := none
  finishedAt : Option Time := none
  availableAt : Option Time := none
  heartbeatAt : Option Time := none
  leaseExpiresAt : Option Time := none
  leaseOwner : Option String := none
  cancelRequestedAt : Option Time := none
  attemptCount : Nat := 0
  maxAttempts : Nat := 3
  executionReference : Option ExecutionReference := none
  progressPercent : Nat := 0
  processed : Nat := 0
  updated : Nat := 0
  failed : Nat := 0
  summary : Option String := none
  logFilename : Option String := none
deriving DecidableEq, Repr

/-- The columns of `sync_runs` that a job run copies. -/
structure SyncRunResult where
  status : SyncStatus
  finishedAt : Option Time
  heartbeatAt : Option Time
  itemsRead : Nat
  itemsInserted : Nat
  itemsUpdated : Nat
  itemsFailed : Nat
  summary : Option String
deriving DecidableEq, Repr

/-- What an executor reports to the job that started it. -/
structure ExecutionReport where
  status : SyncStatus
  percent : Nat
  processed : Nat
  updated : Nat
  failed : Nat
  summary : String
deriving DecidableEq, Repr

def leaseSeconds : Int := 45

abbrev Time.seconds (n : Int) : Time := n * 1000000

namespace JobRun

/-- A new row of `submit_job`. -/
def submitted (id : Nat) (job : JobId) (trigger : SyncTrigger) (maxAttempts : Nat) (now : Time) :
    JobRun where
  id := id
  jobId := job
  trigger := trigger
  status := .queued
  createdAt := now
  availableAt := some now
  maxAttempts := maxAttempts
  summary := some "Aguardando o worker persistente."
  logFilename := some s!"{job.value}-{id}.log"

/-- The `SET` clause of `claim_next_job`. -/
def claimed (worker : String) (now : Time) : Assignment JobRun.id where
  apply r := { r with
    status := .running
    startedAt := some now
    finishedAt := none
    heartbeatAt := some now
    leaseExpiresAt := some (now + Time.seconds leaseSeconds)
    leaseOwner := some worker
    attemptCount := r.attemptCount + 1
    progressPercent := 0
    summary := some "Execução reivindicada pelo worker persistente." }

/-- The `SET` clause of `renew_job_lease`. -/
def renewed (now : Time) : Assignment JobRun.id where
  apply r :=
    { r with heartbeatAt := some now, leaseExpiresAt := some (now + Time.seconds leaseSeconds) }

/-- `_release_lease`. -/
def release (r : JobRun) : JobRun := { r with leaseOwner := none, leaseExpiresAt := none }

/-- `_renew_lease`. -/
def renewLease (worker : String) (now : Time) (r : JobRun) : JobRun :=
  { r with
    heartbeatAt := some now, leaseOwner := some worker,
    leaseExpiresAt := some (now + Time.seconds leaseSeconds) }

def interrupt (now : Time) (summary : String) (r : JobRun) : JobRun :=
  { r with
    status := .interrupted, finishedAt := some now, progressPercent := 100,
    summary := some summary }

/-- The run waits for its next attempt. -/
def requeue (availableAt : Time) (summary : String) (r : JobRun) : JobRun :=
  { r with
    status := .queued
    availableAt := some availableAt
    startedAt := none
    finishedAt := none
    executionReference := none
    summary := some summary }

def giveUp (now : Time) (summary : String) (r : JobRun) : JobRun :=
  { r with
    status := .failed, finishedAt := some now, progressPercent := 100, failed := max 1 r.failed,
      summary := some summary }

def retryDelay (attempts : Nat) : Nat := min 300 (5 * 2 ^ (attempts - 1))

/-- `fail_or_retry_job`, with the error as `concise_error` puts it. -/
def failOrRetry (detail : String) (now : Time) : Assignment JobRun.id where
  apply r :=
    let delay := retryDelay r.attemptCount
    let r :=
      if r.cancelRequestedAt.isSome then
        r.interrupt now "Execução cancelada; dados já confirmados foram preservados."
      else if r.attemptCount < r.maxAttempts then
        r.requeue (now + Time.seconds delay)
          s!"Tentativa {r.attemptCount} falhou ({detail}); nova tentativa em {delay}s."
      else r.giveUp now s!"Falha após {r.attemptCount} tentativas: {detail}"
    { r.release with heartbeatAt := some now }
  key_apply r := by dsimp only; split <;> [skip; split] <;> rfl

/-- The body of the loop of `recover_job_runs`. -/
def recover (now : Time) : Assignment JobRun.id where
  apply r :=
    let r :=
      if r.cancelRequestedAt.isSome then
        r.interrupt now "Cancelamento confirmado durante a recuperação do worker."
      else if r.maxAttempts ≤ r.attemptCount then
        r.giveUp now "Limite de tentativas atingido durante a recuperação do worker."
      else r.requeue now "Execução recuperada após reinício; será retomada pelo checkpoint."
    { r.release with heartbeatAt := some now }
  key_apply r := by dsimp only; split <;> [skip; split] <;> rfl

/-- The rows `recover_job_runs` selects. -/
def recoverable (force : Bool) (now : Time) (r : JobRun) : Bool :=
  r.status = .running && (force || r.leaseExpiresAt.all (· < now)) || r.status = .queued &&
    r.leaseOwner.isSome

/-- `request_job_cancellation`. -/
def cancel (now : Time) : Assignment JobRun.id where
  apply r :=
    let r := { r with cancelRequestedAt := some now }
    if r.status = .queued then
      (r.interrupt now "Execução cancelada enquanto aguardava o worker.").release
    else { r with summary := some "Cancelamento solicitado; aguardando ponto seguro." }
  key_apply r := by dsimp only; split <;> rfl

/-- A run whose cancellation was requested before its work began. -/
def cancelledBeforeStart (now : Time) (summary : String) : Assignment JobRun.id where
  apply r := (r.interrupt now summary).release

/-- `execute_claimed_job` after the dispatch. -/
def started (reference : ExecutionReference) : Assignment JobRun.id where
  apply r := { r with
    executionReference := some reference,
      summary := some "Execução iniciada pelo worker persistente." }

/-- One pass of the loop of `_monitor_job`. -/
def monitor (worker : String) (now : Time) (report : ExecutionReport) : Assignment JobRun.id where
  apply r :=
    let active := report.status.active
    let cancelled := !active && r.cancelRequestedAt.isSome
    let r := { r with
      status := if active then .running else if cancelled then .interrupted else report.status
      progressPercent := report.percent
      processed := report.processed
      updated := report.updated
      failed := report.failed
      summary :=
        some (if cancelled then "Execução cancelada; dados já confirmados foram preservados."
        else report.summary) }
    let r := r.renewLease worker now
    if active then r else { r with finishedAt := some now, progressPercent := 100 }.release
  key_apply r := by dsimp only; split <;> rfl

/-- The last write of `_run_maintenance` and `_run_reconcile`: `none` stands for an exception, which
leaves the counters of the loaded row. -/
def closed (now : Time) (result : Option (Nat × Nat)) (summary : String) :
    Assignment JobRun.id where
  apply r :=
    let r := match result with
      | some (processed, updated) => { r with
          status := .succeeded, progressPercent := 100, processed := processed, updated := updated,
            summary := some summary }
      | none => { r with status := .failed, failed := 1, summary := some summary }
    { r with finishedAt := some now, heartbeatAt := some now }.release
  key_apply r := by dsimp only; split <;> rfl

/-- `_copy_sync_result`. -/
def copySyncResult (now : Time) (sync : SyncRunResult) : Assignment JobRun.id where
  apply r :=
    let finishedAt := sync.finishedAt.getD now
    { r with
      status := sync.status
      finishedAt := some finishedAt
      progressPercent := 100
      processed := sync.itemsRead
      updated := sync.itemsInserted + sync.itemsUpdated
      failed := sync.itemsFailed
      summary := sync.summary
      heartbeatAt := some (sync.heartbeatAt.getD finishedAt) }.release

/-- The `UPDATE` of a flush: only the columns that differ from the loaded row are written. -/
def flush (loaded assigned row : JobRun) : JobRun where
  id := row.id
  jobId := row.jobId
  trigger := row.trigger
  createdAt := row.createdAt
  maxAttempts := row.maxAttempts
  attemptCount := row.attemptCount
  logFilename := row.logFilename
  status := if assigned.status = loaded.status then row.status else assigned.status
  startedAt := if assigned.startedAt = loaded.startedAt then row.startedAt else assigned.startedAt
  finishedAt :=
    if assigned.finishedAt = loaded.finishedAt then row.finishedAt else assigned.finishedAt
  availableAt :=
    if assigned.availableAt = loaded.availableAt then row.availableAt else assigned.availableAt
  heartbeatAt :=
    if assigned.heartbeatAt = loaded.heartbeatAt then row.heartbeatAt else assigned.heartbeatAt
  leaseExpiresAt :=
    if assigned.leaseExpiresAt =
      loaded.leaseExpiresAt then row.leaseExpiresAt else assigned.leaseExpiresAt
  leaseOwner :=
    if assigned.leaseOwner = loaded.leaseOwner then row.leaseOwner else assigned.leaseOwner
  cancelRequestedAt :=
    if assigned.cancelRequestedAt =
      loaded.cancelRequestedAt then row.cancelRequestedAt else assigned.cancelRequestedAt
  executionReference :=
    if assigned.executionReference = loaded.executionReference then row.executionReference
    else assigned.executionReference
  progressPercent :=
    if assigned.progressPercent =
      loaded.progressPercent then row.progressPercent else assigned.progressPercent
  processed := if assigned.processed = loaded.processed then row.processed else assigned.processed
  updated := if assigned.updated = loaded.updated then row.updated else assigned.updated
  failed := if assigned.failed = loaded.failed then row.failed else assigned.failed
  summary := if assigned.summary = loaded.summary then row.summary else assigned.summary

end JobRun

end Euvieouvi
