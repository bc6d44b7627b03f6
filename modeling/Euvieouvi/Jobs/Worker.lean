import Euvieouvi.Jobs.Queue
import Euvieouvi.Lib.Wakeups

/-!
# The durable job worker

`DurableJobWorker` (`sync/job_worker.py`) beside the queue: its lock, its flag and its event, the
threads that run `_drain`, and the transactions of the drain and of the other threads on `job_runs`.
`DrainEvent` is one section under the lock, one transaction, or the end of a wait. Waiting on the
event is timed, so a wait may end at any moment.
-/

namespace Euvieouvi

namespace JobRuns

/-- What `claim_next_job` returns. -/
def claimedRun (now : Time) (runs : JobRuns) : Option Nat :=
  (runs.candidate now).bind fun r => if runs.rows.any fun r =>
    r.status = .running then none else some r.id

/-- `seconds_until_next_job`, in microseconds. -/
def secondsUntilNextJob (now : Time) (runs : JobRuns) : Option Int :=
  if runs.rows.any fun r => r.status = .running then some (Time.seconds 1)
  else (runs.queued.filterMap (·.availableAt)).min?.map fun availableAt =>
    max 500000 (availableAt - now)

end JobRuns

/-- What the thread does next in a pass. -/
inductive DrainWork | recovering | claiming | executing (id : Nat) | looking
deriving DecidableEq, Repr

/-- A wait on the event: when the thread looked last, and when the wait ends at the latest. -/
structure Rest where
  since : Time
  limit : Time
deriving DecidableEq, Repr

/-- `wait(1)`. -/
def Rest.locked (now : Time) : Rest := ⟨now, now + Time.seconds 1⟩

/-- `wait(min(30.0, max(0.05, retry_delay)))`. -/
def Rest.until (now : Time) (delay : Int) : Rest :=
  ⟨now, now + min (Time.seconds 30) (max 50000 delay)⟩

structure WorkerState where
  runs : JobRuns := .empty
  waker : Waker DrainWork Rest := {}
  /-- A run was queued, by a caller that calls `wake` next, after the last call of `wake`. -/
  owed : Bool := false

inductive DrainEvent
  | commit (e : JobEvent)
  | wake
  | begin (t : Nat)
  | recover (t : Nat) (now : Time)
  | claim (t : Nat) (now : Time)
  | locked (t : Nat) (now : Time)
  | execute (t : Nat) (e : JobEvent)
  | executed (t : Nat)
  | look (t : Nat) (now : Time)
  | settle (t : Nat) (d : Rest)
  | leave (t : Nat)
  | resume (t : Nat)
  | raise (t : Nat)
  | exit (t : Nat)

namespace JobEvent

/-- The transaction may put a run into the queue. -/
def queues : JobEvent → Bool
  | .submit .. | .failOrRetry .. | .recover .. => true
  | _ => false

/-- The transactions of threads that do not drain: requests, the scheduler, and the heartbeat. -/
def foreign : JobEvent → Bool
  | .submit .. | .recover .. | .requestCancellation .. | .rotate .. | .renew .. => true
  | _ => false

end JobEvent

namespace WorkerState

def drive (e : WakerEvent DrainWork Rest) (s : WorkerState) : WorkerState :=
  { s with waker := s.waker.act e }

def act (parseInt : String → Option Int) (workerId : String) (s : WorkerState) :
    DrainEvent → WorkerState
  | .commit e => { s with runs := s.runs.step parseInt e, owed := s.owed || e.queues }
  | .wake => { s.drive .wake with owed := false }
  | .begin t => s.drive (.begin t .recovering)
  | .recover t now =>
    { s.drive (.work t .claiming) with runs := s.runs.step parseInt (.recover false now) }
  | .claim t now => { s.drive (.work t ((s.runs.claimedRun now).elim .looking .executing)) with
      runs := s.runs.step parseInt (.claim workerId now) }
  | .locked t now => s.drive (.nap t (.locked now))
  | .execute _ e => { s with runs := s.runs.step parseInt e }
  | .executed t => s.drive (.resume t)
  | .look t now =>
    s.drive ((s.runs.secondsUntilNextJob now).elim (.retire t) fun delay =>
      .doze t (.until now delay))
  | .settle t d => s.drive (.settle t d)
  | .leave t => s.drive (.leave t)
  | .resume t => s.drive (.resume t)
  | .raise t => s.drive (.raise t)
  | .exit t => s.drive (.exit t)

/-- The event is the next thing that its thread does. -/
def Enabled (s : WorkerState) : DrainEvent → Prop
  | .commit e => e.foreign = true
  | .wake => True
  | .begin t => s.waker.place t = some .top
  | .recover t _ => s.waker.place t = some (.working .recovering)
  | .claim t _ => s.waker.place t = some (.working .claiming)
  | .locked t _ =>
    s.waker.place t = some (.working .recovering) ∨ s.waker.place t = some (.working .claiming)
  | .execute t _ | .executed t => ∃ id, s.waker.place t = some (.working (.executing id))
  | .look t _ => s.waker.place t = some (.working .looking)
  | .settle t d => s.waker.place t = some (.dozing d)
  | .leave t => s.waker.place t = some .leaving
  | .resume t => ∃ d, s.waker.place t = some (.napping d) ∨ s.waker.place t = some (.sleeping d)
  | .raise t => ∃ p, s.waker.place t = some p ∧ p.draining = true
  | .exit t => s.waker.place t = some .left ∨ s.waker.place t = some .raised

/-- The event is enabled, and no exception ends the drain. -/
def Calm (s : WorkerState) (e : DrainEvent) : Prop := s.Enabled e ∧ ∀ t, e ≠ .raise t

end WorkerState

end Euvieouvi
