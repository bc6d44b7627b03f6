import Euvieouvi.Lib.Runs
import Euvieouvi.Python
import Mathlib.Algebra.Group.Nat.Defs

/-!
# The queue of instant updates

`sync/async_tasks.py`. A webhook request enqueues a payload in two database steps: it reads the task
row of its dedup key, and its flush writes later, into the columns whose value the assignments
changed. The executor takes its own steps between them: it selects a due task, claims it, reads the
row, decides whether the payload is superseded, applies it, and removes the task or promotes its
successor; after an error it reads the attempts and retains the task. One executor drains the queue
at a time (`submit`), and each step below is one statement or one transaction of it.

`committed` and `consumed` are no part of the program: they record, for a dedup key, the payload of
the last committed enqueue and the payload a finished execution took after it.
-/

namespace Euvieouvi

/-- The text `enqueue_watch_update` hashes: completions are told apart by their date, positions are
not. -/
def WatchUpdate.identity (py : PyLib) (u : WatchUpdate) : String :=
  if u.completed then s!"watch:{u.sourceId}:{u.externalId}:{py.isoformat u.watchedAt}"
  else s!"progress:{u.sourceId}:{u.externalId}"

def WatchUpdate.dedupKey (py : PyLib) (u : WatchUpdate) : String := py.sha256 (u.identity py)

namespace AsyncTask

/-- The newest payload the row carries. -/
def newest (t : AsyncTask) : WatchUpdate := t.pendingPayload.getD t.payload

/-- The assignments of `enqueue_watch_update` to the task it found. -/
def requeue (now : Time) (payload : WatchUpdate) (t : AsyncTask) : AsyncTask :=
  match t.status with
  | .processing => { t with pendingPayload := some payload, nextAttemptAt := now }
  | _ => { t with
      payload := payload, status := .pending, attempts := 0, lastError := none,
        nextAttemptAt := now }

theorem requeue_id (now : Time) (payload : WatchUpdate) (t : AsyncTask) :
    (t.requeue now payload).id = t.id := by
  unfold requeue; split <;> rfl

/-- The `UPDATE` of a flush: only the columns that differ from the loaded row are written. -/
def flush (loaded assigned row : AsyncTask) : AsyncTask :=
  { row with
    payload := if assigned.payload = loaded.payload then row.payload else assigned.payload
    pendingPayload :=
      if assigned.pendingPayload = loaded.pendingPayload then row.pendingPayload
      else assigned.pendingPayload
    status := if assigned.status = loaded.status then row.status else assigned.status
    attempts := if assigned.attempts = loaded.attempts then row.attempts else assigned.attempts
    nextAttemptAt :=
      if assigned.nextAttemptAt = loaded.nextAttemptAt then row.nextAttemptAt
      else assigned.nextAttemptAt
    lastError := if assigned.lastError =
      loaded.lastError then row.lastError else assigned.lastError }

/-- `payload=case((pending_payload IS NOT NULL, pending_payload), else_=payload), pending_payload=NULL`. -/
def foldPending (t : AsyncTask) : AsyncTask :=
  { t with payload := t.newest, pendingPayload := none }

def ofPayload (py : PyLib) (now : Time) (id : Nat) (payload : WatchUpdate) : AsyncTask where
  id := id
  dedupKey := payload.dedupKey py
  payload := payload
  nextAttemptAt := now

end AsyncTask

abbrev Tasks := Table AsyncTask.id

namespace Tasks

/-- `select(AsyncTask).where(AsyncTask.dedup_key == dedup_key)`. -/
def byKey (key : String) (tasks : Tasks) : Option AsyncTask := tasks.rows.find? (·.dedupKey == key)

def setTask (id : Nat) (f : Assignment AsyncTask.id) (tasks : Tasks) : Tasks :=
  tasks.update (·.id == id) f

/-- `enqueue_watch_update` when nothing comes between its read and its write. -/
def enqueueWatchUpdate (py : PyLib) (now : Time) (payload : WatchUpdate) (tasks : Tasks) : Tasks :=
  match byKey (payload.dedupKey py) tasks with
  | some t => setTask t.id ⟨AsyncTask.requeue now payload, AsyncTask.requeue_id now payload⟩ tasks
  | none => tasks.insert (.ofPayload py now tasks.nextId payload)

/-- `ORDER BY next_attempt_at, id LIMIT 1` over the due tasks. -/
def due (now : Time) (tasks : Tasks) : Option AsyncTask :=
  (tasks.rows.filter fun t => t.status = .pending ∧ t.nextAttemptAt ≤ now).foldl
    (fun best t => match best with
      | none => some t
      | some b =>
        if t.nextAttemptAt < b.nextAttemptAt ∨ t.nextAttemptAt = b.nextAttemptAt ∧
          t.id < b.id then some t
        else some b)
    none

/-- `_is_superseded`: a resume position is obsolete when the completion of its item is queued. -/
def isSuperseded (id : Nat) (payload : WatchUpdate) (tasks : Tasks) : Bool :=
  !payload.completed && tasks.rows.any fun t =>
    t.id != id && t.payload.completed && t.payload.sourceId == payload.sourceId &&
      t.payload.externalId == payload.externalId

/-- The end of a successful execution: the task goes, unless a successor waits in it. -/
def finish (now : Time) (id : Nat) (tasks : Tasks) : Tasks :=
  if tasks.rows.any fun t => t.id == id && t.pendingPayload.isNone then
    tasks.delete fun t => t.id == id && t.pendingPayload.isNone
  else
    tasks.update (fun t => t.id == id && t.pendingPayload.isSome)
      ⟨fun t => { t.foldPending with status := .pending, attempts := 0, nextAttemptAt := now },
        fun _ => rfl⟩

def maxAutomaticAttempts : Nat := 12

def backoffSeconds (attempts : Nat) : Nat := min 3600 (15 * 2 ^ min (attempts - 1) 8)

/-- The end of a failed execution. -/
def retain (now : Time) (id attempts : Nat) (error : String) (tasks : Tasks) : Tasks :=
  tasks.update (·.id == id) ⟨fun t =>
    { t.foldPending with
      attempts := attempts
      status := if maxAutomaticAttempts ≤ attempts then .blocked else .pending
      lastError := some (error.take 1000).toString
      nextAttemptAt := now + backoffSeconds attempts * 1000000 }, fun _ => rfl⟩

def retryAll (now : Time) (tasks : Tasks) : Tasks :=
  tasks.update (·.status != .processing) ⟨fun t =>
    { t with status := .pending, attempts := 0, lastError := none, nextAttemptAt := now },
      fun _ => rfl⟩

def recoverAsyncTasks (tasks : Tasks) : Tasks :=
  tasks.update (·.status == .processing) ⟨fun t => { t.foldPending with status := .pending },
    fun _ => rfl⟩

end Tasks

/-! ### Requests and the executor, step by step -/

/-- An enqueue between its read of the task row and its committed write. -/
structure Enqueue where
  client : Nat
  payload : WatchUpdate
  existing : Option AsyncTask

/-- Where the executor stands between two of its steps. -/
inductive Execution
  | idle
  | selected (id : Nat)
  | claimed (id : Nat)
  | read (id : Nat) (payload : WatchUpdate)
  | applying (id : Nat) (payload : WatchUpdate)
  | finishing (id : Nat) (payload : WatchUpdate)
  | failed (id : Nat) (error : String)
  | retaining (id attempts : Nat) (error : String)

/-- The payload an execution has read and has not failed with, and the task it read it from. -/
def Execution.reading : Execution → Option (Nat × WatchUpdate)
  | .read id p | .applying id p | .finishing id p => some (id, p)
  | _ => none

structure QueueState where
  tasks : Tasks := .empty
  enqueues : List Enqueue := []
  execution : Execution := .idle
  committed : String → Option WatchUpdate := fun _ => none
  consumed : String → Option WatchUpdate := fun _ => none

inductive QueueEvent
  | enqueueRead (client : Nat) (payload : WatchUpdate)
  | enqueueWrite (client : Nat) (now : Time)
  | enqueueAbort (client : Nat)
  | select (now : Time)
  | claim (now : Time)
  | readTask
  | superseded
  | applied (outcome : Except String Bool)
  | finish (now : Time)
  | readAttempts
  | retain (now : Time)
  | retryAll (now : Time)
  | recover
  | crash

namespace QueueState

def closeEnqueue (client : Nat) (s : QueueState) : QueueState :=
  { s with enqueues := s.enqueues.filter (·.client != client) }

/-- The commit of an enqueue becomes visible. -/
def commit (py : PyLib) (payload : WatchUpdate) (tasks : Tasks) (s : QueueState) : QueueState :=
  { s with
    tasks := tasks
    committed := Function.update s.committed (payload.dedupKey py) (some payload)
    consumed := Function.update s.consumed (payload.dedupKey py) none }

/-- The flush and commit of an enqueue that loaded `t`. A flush that has something to write and
finds no row with the id of `t` raises, and the transaction is rolled back. -/
def writeLoaded (py : PyLib) (now : Time) (payload : WatchUpdate) (t : AsyncTask) (s : QueueState) :
    QueueState :=
  if t.requeue now payload = t then s.commit py payload s.tasks
  else if s.tasks.contains t.id then
    s.commit py payload (s.tasks.setTask t.id ⟨t.flush (t.requeue now payload), fun _ => rfl⟩)
  else s

/-- The committed write of an enqueue. A row that another request inserted since the read makes the
savepoint fail; it is then read again inside the transaction that holds the write lock. -/
def write (py : PyLib) (now : Time) (e : Enqueue) (s : QueueState) : QueueState :=
  match e.existing with
  | some t => s.writeLoaded py now e.payload t
  | none =>
    match s.tasks.byKey (e.payload.dedupKey py) with
    | some t => s.writeLoaded py now e.payload t
    | none => s.commit py e.payload (s.tasks.insert (.ofPayload py now s.tasks.nextId e.payload))

def step (py : PyLib) (s : QueueState) : QueueEvent → QueueState
  | .enqueueRead client payload =>
    { s with enqueues := ⟨client, payload, s.tasks.byKey (payload.dedupKey py)⟩ :: s.enqueues }
  | .enqueueWrite client now =>
    match s.enqueues.find? (·.client == client) with
    | some e => (s.write py now e).closeEnqueue client
    | none => s
  | .enqueueAbort client => s.closeEnqueue client
  | .select now =>
    match s.execution, s.tasks.due now with
    | .idle, some t => { s with execution := .selected t.id }
    | _, _ => s
  | .claim now =>
    match s.execution with
    | .selected id =>
      if s.tasks.rows.any fun t => t.id == id && t.status == .pending then
        { s with
          tasks := s.tasks.update (fun t => t.id == id && t.status == .pending)
            ⟨fun t => { t with status := .processing, lastAttemptAt := some now }, fun _ => rfl⟩
          execution := .claimed id }
      else { s with execution := .idle }
    | _ => s
  | .readTask =>
    match s.execution with
    | .claimed id =>
      match s.tasks.get? id with
      | some t => { s with execution := .read id t.payload }
      | none => { s with execution := .idle }
    | _ => s
  | .superseded =>
    match s.execution with
    | .read id payload =>
      if s.tasks.isSuperseded id payload then { s with execution := .finishing id payload }
      else { s with execution := .applying id payload }
    | _ => s
  | .applied outcome =>
    match s.execution, outcome with
    | .applying id payload, .ok _ => { s with execution := .finishing id payload }
    | .applying id _, .error error => { s with execution := .failed id error }
    | _, _ => s
  | .finish now =>
    match s.execution with
    | .finishing id payload =>
      { s with
        tasks := s.tasks.finish now id
        execution := .idle
        consumed := Function.update s.consumed (payload.dedupKey py) (some payload) }
    | _ => s
  | .readAttempts =>
    match s.execution with
    | .failed id error =>
      match s.tasks.get? id with
      | some t => { s with execution := .retaining id (t.attempts + 1) error }
      | none => { s with execution := .idle }
    | _ => s
  | .retain now =>
    match s.execution with
    | .retaining id attempts error =>
      { s with tasks := s.tasks.retain now id attempts error, execution := .idle }
    | _ => s
  | .retryAll now => { s with tasks := s.tasks.retryAll now }
  | .recover => { s with tasks := s.tasks.recoverAsyncTasks }
  | .crash => { s with execution := .idle }

def run (py : PyLib) (events : List QueueEvent) : QueueState := events.foldl (step py) {}

end QueueState

end Euvieouvi
