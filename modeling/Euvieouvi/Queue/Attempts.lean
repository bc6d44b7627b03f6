import Euvieouvi.Queue.AsyncTasks

/-!
# Attempts of a payload

The `attempts` of a task row are meant to be those of the payload it stores. The success path starts
a promoted payload at zero; `retain` and `recoverAsyncTasks` move a successor into the row and keep
the count of the payload it replaces. `Ledger` counts what really happened to the stored payload of
each task since it was stored or the user last retried it, and `own_attempts` says in which runs the
rows agree with it. An event that arrives during the twelfth failing attempt is blocked untried
(`blocked_untried`).
-/

namespace Euvieouvi

/-- The attempts of a stored payload that were started, and those that failed. -/
structure Attempts where
  started : Nat := 0
  failed : Nat := 0
deriving DecidableEq

abbrev Ledger := Nat → Attempts

namespace Execution

/-- The task whose row the execution has claimed. -/
def task : Execution → Option Nat
  | .idle | .selected _ => none
  | .claimed id | .read id _ | .applying id _ | .finishing id _ | .failed id _ | .retaining id _
    _ => some id

/-- The task of which an attempt is under way. -/
def attempting : Execution → Option Nat
  | .idle | .selected _ | .claimed _ => none
  | .read id _ | .applying id _ | .finishing id _ | .failed id _ | .retaining id _ _ => some id

theorem task_of_attempting : ∀ {x : Execution} {id : Nat}, x.attempting = some id → x.task = some id
  | .read _ _, _, h | .applying _ _, _, h | .finishing _ _, _, h | .failed _ _, _,
    h | .retaining _ _ _, _, h => h

end Execution

namespace QueueState

/-- The task that the write of an enqueue assigns to. -/
def written (py : PyLib) (client : Nat) (s : QueueState) : Option AsyncTask :=
  (s.enqueues.find? (·.client == client)).bind fun e =>
    e.existing.or (s.tasks.byKey (e.payload.dedupKey py))

/-- What an event does to the accounts of the stored payloads. -/
def account (py : PyLib) (s : QueueState) (ledger : Ledger) : QueueEvent → Ledger
  | .enqueueWrite client _ =>
    match s.written py client with
    | some t => if t.status = .processing then ledger else Function.update ledger t.id {}
    | none => Function.update ledger s.tasks.nextId {}
  | .readTask =>
    match s.execution with
    | .claimed id => Function.update ledger id { ledger id with started := (ledger id).started + 1 }
    | _ => ledger
  | .finish _ =>
    match s.execution with
    | .finishing id _ => Function.update ledger id {}
    | _ => ledger
  | .retain _ =>
    match s.execution with
    | .retaining id _ _ =>
      if (s.tasks.get? id).any (·.pendingPayload.isSome) then Function.update ledger id {}
      else Function.update ledger id { ledger id with failed := (ledger id).failed + 1 }
    | _ => ledger
  | .retryAll _ =>
    fun id => if (s.tasks.get? id).any (·.status != .processing) then {} else ledger id
  | .recover => fun id =>
    if (s.tasks.get? id).any fun t => t.status == .processing &&
      t.pendingPayload.isSome then {} else ledger id
  | _ => ledger

end QueueState

/-- The queue with the accounts of its payloads. -/
structure AccountedQueue where
  queue : QueueState := {}
  ledger : Ledger := fun _ => {}

namespace AccountedQueue

def step (py : PyLib) (s : AccountedQueue) (e : QueueEvent) : AccountedQueue :=
  ⟨s.queue.step py e, s.queue.account py s.ledger e⟩

def run (py : PyLib) (events : List QueueEvent) : AccountedQueue := events.foldl (step py) {}

/-- Every stored payload has its own attempts: the counter is that of its failures, it was tried
before its task is blocked, and it was tried at most twelve times. -/
def OwnAttempts (s : AccountedQueue) : Prop :=
  ∀ t ∈ s.queue.tasks.rows, t.attempts = (s.ledger t.id).failed ∧
    (t.status = .blocked → 1 ≤ (s.ledger t.id).started) ∧
    (s.ledger t.id).started ≤ Tasks.maxAutomaticAttempts

/-- An enqueue writes to its task as it read it, recovery happens between executions, and no attempt
is cut off. -/
def Sequential (py : PyLib) (s : AccountedQueue) : QueueEvent → Prop
  | .enqueueWrite client _ => ∀ t ∈ s.queue.written py client, ∀ r ∈ s.queue.tasks.get? t.id, r = t
  | .recover => s.queue.execution.task = none
  | .crash => s.queue.execution.attempting = none
  | _ => True

/-- No failing execution finds a successor, and recovery finds one only where the stored payload has
not failed. -/
def KeepsCount (s : AccountedQueue) : QueueEvent → Prop
  | .retain _ => ∀ id, (∃ n error, s.queue.execution = .retaining id n error) →
      ∀ t ∈ s.queue.tasks.get? id, t.pendingPayload = none
  | .recover =>
    ∀ t ∈ s.queue.tasks.rows, t.status = .processing → t.pendingPayload ≠ none → t.attempts = 0
  | _ => True

end AccountedQueue

/-- The row agrees with the account of its payload. -/
structure AsyncTask.Accounted (x : Execution) (a : Attempts) (t : AsyncTask) : Prop where
  failed : t.attempts = a.failed
  started : a.started = a.failed + if x.attempting = some t.id then 1 else 0
  blocked : t.status = .blocked → t.attempts = Tasks.maxAutomaticAttempts
  automatic : t.status ≠ .blocked → t.attempts < Tasks.maxAutomaticAttempts
  held : x.task = some t.id → t.status = .processing
  counted : ∀ n error, x = .retaining t.id n error → n = t.attempts + 1

namespace AsyncTask.Accounted
variable {x x' : Execution} {a : Attempts} {t : AsyncTask}

theorem own (h : t.Accounted x a) : t.attempts = a.failed ∧ (t.status = .blocked → 1 ≤ a.started) ∧
    a.started ≤ Tasks.maxAutomaticAttempts := by
  have hstarted := h.started
  have hfailed := h.failed
  by_cases hx : x.attempting = some t.id
  · rw [if_pos hx] at hstarted
    have hstatus : t.status ≠ .blocked := by
      rw [h.held (Execution.task_of_attempting hx)]
      decide
    have hlt := h.automatic hstatus
    exact ⟨h.failed, fun hblocked => absurd hblocked hstatus, by omega⟩
  · rw [if_neg hx] at hstarted
    by_cases hblocked : t.status = .blocked
    · have hmax := h.blocked hblocked
      have htwelve : Tasks.maxAutomaticAttempts = 12 := rfl
      exact ⟨h.failed, fun _ => by omega, by omega⟩
    · have hlt := h.automatic hblocked
      exact ⟨h.failed, fun hb => absurd hb hblocked, by omega⟩

/-- A stored payload that has not been tried. -/
theorem fresh (ht : t.attempts = 0) (hstatus : t.status ≠ .blocked) (hx : x.attempting ≠ some t.id)
    (hheld : x.task = some t.id → t.status = .processing) : t.Accounted x {} where
  failed := ht
  started := by rw [if_neg hx]
  blocked hblocked := absurd hblocked hstatus
  automatic _ := by rw [ht]; decide
  held := hheld
  counted n error hxr := absurd (by rw [hxr]; rfl) hx

/-- The execution moves on without starting or ending an attempt. -/
theorem of_execution (h : t.Accounted x a)
    (hattempting : x'.attempting = some t.id ↔ x.attempting = some t.id)
    (hheld : x'.task = some t.id → x.task = some t.id)
    (hcounted : ∀ n error, x' = .retaining t.id n error → n = t.attempts + 1) :
    t.Accounted x' a where
  failed := h.failed
  started := by rw [h.started]; exact if_congr hattempting.symm rfl rfl ▸ rfl
  blocked := h.blocked
  automatic := h.automatic
  held hx' := h.held (hheld hx')
  counted := hcounted

end AsyncTask.Accounted

/-- Every row agrees with its account, and what is executed has a row. -/
structure AccountedInv (s : AccountedQueue) : Prop where
  rows : ∀ t ∈ s.queue.tasks.rows, t.Accounted s.queue.execution (s.ledger t.id)
  present : ∀ id, s.queue.execution.task = some id → ∃ t ∈ s.queue.tasks.rows, t.id = id

namespace AccountedInv
variable {py : PyLib} {s : AccountedQueue}

theorem init : AccountedInv {} where
  rows t ht := by cases ht
  present id h := by cases h

theorem own (h : AccountedInv s) : s.OwnAttempts := fun t ht => (h.rows t ht).own

/-- A row that the executor does not hold is not being attempted. -/
theorem not_attempting (h : AccountedInv s) {t : AsyncTask} (ht : t ∈ s.queue.tasks.rows)
    (hstatus : t.status ≠ .processing) :
    s.queue.execution.attempting ≠ some t.id :=
  fun hx => hstatus ((h.rows t ht).held (Execution.task_of_attempting hx))

/-- A row that stores a new payload. -/
theorem requeued (h : AccountedInv s) {t t' : AsyncTask} (ht : t ∈ s.queue.tasks.rows)
    (hid : t'.id = t.id)
    (hstatus : t.status ≠ .processing) (hattempts : t'.attempts = 0)
    (hpending : t'.status = .pending) :
    t'.Accounted s.queue.execution {} := by
  refine .fresh hattempts (by rw [hpending]; decide)
    (by rw [hid]; exact h.not_attempting ht hstatus) fun hx => ?_
  rw [hid] at hx
  exact absurd ((h.rows t ht).held hx) hstatus

theorem flush_self (t a : AsyncTask) :
    t.flush a t = { t with
      payload := a.payload, pendingPayload := a.pendingPayload, status :=
    a.status, attempts := a.attempts,
      nextAttemptAt := a.nextAttemptAt, lastError := a.lastError } := by
  unfold AsyncTask.flush
  congr 1 <;> split <;> simp_all

/-- The write of an enqueue to the row it read either leaves the stored payload or stores a fresh
one. -/
theorem written_row (h : AccountedInv s) (now : Time) (payload : WatchUpdate) {t : AsyncTask}
    (ht : t ∈ s.queue.tasks.rows) :
    (t.flush (t.requeue now payload) t).Accounted s.queue.execution
      (if t.status = .processing then s.ledger t.id else {}) := by
  rw [flush_self]
  by_cases hstatus : t.status = .processing
  · have hrow := h.rows t ht
    rw [if_pos hstatus, AsyncTask.requeue, hstatus]
    exact ⟨hrow.failed, hrow.started, fun hb => (by cases hb), fun _ =>
      hrow.automatic (by rw [hstatus]; decide),
      fun _ => rfl, hrow.counted⟩
  · rw [if_neg hstatus]
    refine h.requeued ht rfl hstatus ?_ ?_ <;> rw [AsyncTask.requeue] <;> split <;>
      first | rfl | contradiction

/-- Rows whose ids the accounts keep. -/
theorem of_ledger (h : AccountedInv s) {queue : QueueState} {ledger : Ledger}
    (htasks : queue.tasks = s.queue.tasks)
    (hexecution : queue.execution = s.queue.execution)
    (hledger : ∀ t ∈ s.queue.tasks.rows, ledger t.id = s.ledger t.id) :
    AccountedInv ⟨queue, ledger⟩ where
  rows t ht := by
    have ht : t ∈ s.queue.tasks.rows := htasks ▸ ht
    show t.Accounted queue.execution (ledger t.id)
    rw [hexecution, hledger t ht]
    exact h.rows t ht
  present id hid := by
    show ∃ t ∈ queue.tasks.rows, t.id = id
    rw [htasks]
    exact h.present id (hexecution ▸ hid)

theorem writeLoaded (h : AccountedInv s) (py : PyLib) (now : Time) (payload : WatchUpdate)
    {t : AsyncTask} {ledger : Ledger}
    (hsame : ∀ r ∈ s.queue.tasks.get? t.id, r = t)
    (hother : ∀ id, id ≠ t.id → ledger id = s.ledger id)
    (hloaded : ledger t.id = if t.status = .processing then s.ledger t.id else {}) :
    AccountedInv ⟨s.queue.writeLoaded py now payload t, ledger⟩ := by
  have hrow : ∀ r ∈ s.queue.tasks.rows, r.id = t.id → r = t := fun r hr hid =>
    hsame r (Table.get?_eq_some.2 ⟨hr, hid⟩)
  unfold QueueState.writeLoaded
  split
  next hunchanged =>
    refine ⟨fun r (hr : r ∈ s.queue.tasks.rows) => ?_, h.present⟩
    show r.Accounted s.queue.execution (ledger r.id)
    by_cases hid : r.id = t.id
    · obtain rfl := hrow r hr hid
      have hwritten := h.written_row now payload hr
      rw [hunchanged, flush_self] at hwritten
      rw [hloaded]
      exact hwritten
    · rw [hother _ hid]
      exact h.rows r hr
  next =>
    split
    · refine ⟨fun r' hr' => ?_, fun id hid => ?_⟩
      · obtain ⟨r, hr, rfl⟩ := Table.mem_update.1 hr'
        have hr : r ∈ s.queue.tasks.rows := hr
        by_cases hid : r.id = t.id
        · obtain rfl := hrow r hr hid
          rw [if_pos (beq_self_eq_true _)]
          show (r.flush (r.requeue now payload) r).Accounted s.queue.execution (ledger r.id)
          rw [hloaded]
          exact h.written_row now payload hr
        · rw [if_neg (by simpa using hid)]
          show r.Accounted s.queue.execution (ledger r.id)
          rw [hother _ hid]
          exact h.rows r hr
      · obtain ⟨r, hr, rfl⟩ := h.present id hid
        refine ⟨_, Table.mem_update.2 ⟨r, hr, rfl⟩, ?_⟩
        split <;> rfl
    next habsent =>
      refine h.of_ledger rfl rfl fun r hr => hother r.id fun hid => habsent ?_
      rw [Table.contains, ← hid, Table.get?_of_mem hr]
      rfl

/-- The account of an enqueue that loaded `t`. -/
theorem account_loaded (ledger : Ledger) (t : AsyncTask) :
    (∀ id, id ≠ t.id →
      (if t.status = .processing then ledger else Function.update ledger t.id {}) id = ledger id) ∧
      (if t.status = .processing then ledger else Function.update ledger t.id {}) t.id =
        if t.status = .processing then ledger t.id else {} := by
  split
  · exact ⟨fun _ _ => rfl, rfl⟩
  · exact ⟨fun id hid => Function.update_of_ne hid _ _, Function.update_self _ _ _⟩

theorem write (h : AccountedInv s) {now : Time} {client : Nat}
    (hok : ∀ t ∈ s.queue.written py client, ∀ r ∈ s.queue.tasks.get? t.id, r = t) :
    AccountedInv (s.step py (.enqueueWrite client now)) := by
  have hnew : ∀ t ∈ s.queue.tasks.rows, Function.update s.ledger s.queue.tasks.nextId {} t.id =
      s.ledger t.id :=
    fun t ht => Function.update_of_ne (Table.key_lt_nextId ht).ne _ _
  unfold AccountedQueue.step QueueState.account QueueState.step
  dsimp only
  cases he : s.queue.enqueues.find? (·.client == client) with
  | none =>
    rw [QueueState.written, he]
    exact h.of_ledger rfl rfl hnew
  | some e =>
    have hwritten : s.queue.written py client =
        e.existing.or (s.queue.tasks.byKey (e.payload.dedupKey py)) := by
      rw [QueueState.written, he]; rfl
    rw [hwritten] at hok ⊢
    dsimp only
    unfold QueueState.write
    cases hexisting : e.existing with
    | some t =>
      rw [hexisting] at hok
      have hw := h.writeLoaded py now e.payload (hok t rfl)
        (account_loaded s.ledger t).1 (account_loaded s.ledger t).2
      exact ⟨hw.rows, hw.present⟩
    | none =>
      rw [hexisting] at hok
      cases hkey : s.queue.tasks.byKey (e.payload.dedupKey py) with
      | some t =>
        rw [hkey] at hok
        have hw := h.writeLoaded py now e.payload (hok t rfl)
          (account_loaded s.ledger t).1 (account_loaded s.ledger t).2
        exact ⟨hw.rows, hw.present⟩
      | none =>
        refine ⟨fun t ht => ?_, fun id hid => ?_⟩
        · rcases Table.mem_insert ht with ht | rfl
          · show t.Accounted s.queue.execution
              (Function.update s.ledger s.queue.tasks.nextId {} t.id)
            rw [hnew t ht]
            exact h.rows t ht
          · show AsyncTask.Accounted s.queue.execution
              (Function.update s.ledger s.queue.tasks.nextId {}
              s.queue.tasks.nextId) _
            rw [Function.update_self]
            have hfree : ∀ id, s.queue.execution.task = some id → id ≠ s.queue.tasks.nextId := by
              intro id hid
              obtain ⟨t, ht, rfl⟩ := h.present id hid
              exact (Table.key_lt_nextId ht).ne
            exact .fresh rfl TaskStatus.noConfusion
              (fun hx => hfree _ (Execution.task_of_attempting hx) rfl)
              fun hx => absurd rfl (hfree _ hx)
        · obtain ⟨t, ht, rfl⟩ := h.present id hid
          exact ⟨t, Table.mem_insert_of_mem ht, rfl⟩

/-- The execution moves on, the rows and accounts stay. -/
theorem of_execution (h : AccountedInv s) {x : Execution}
    (hattempting : x.attempting = s.queue.execution.attempting)
    (htask : ∀ id, x.task = some id → s.queue.execution.task = some id)
    (hcounted : ∀ t ∈ s.queue.tasks.rows, ∀ n error, x = .retaining t.id n error →
      n = t.attempts + 1) :
    AccountedInv ⟨{ s.queue with execution := x }, s.ledger⟩ where
  rows t ht := (h.rows t ht).of_execution (by rw [hattempting]) (htask t.id) (hcounted t ht)
  present id hid := h.present id (htask id hid)

/-- The execution ends or gives up with its rows as they are. -/
theorem idle (h : AccountedInv s) (hattempting : s.queue.execution.attempting = none) :
    AccountedInv ⟨{ s.queue with execution := .idle }, s.ledger⟩ :=
  h.of_execution hattempting.symm (fun _ hx => by cases hx) fun _ _ _ _ hx => by cases hx

/-- An update of the rows of one task, which the execution leaves. -/
theorem of_task_update (h : AccountedInv s) {id : Nat} {p : AsyncTask → Bool}
    {f : Assignment AsyncTask.id}
    {x : Execution} {a : Attempts} (hp : ∀ t ∈ s.queue.tasks.rows, p t = true ↔ t.id = id)
    (hold : ∀ other, other ≠ id → s.queue.execution.task ≠ some other)
    (hnew : ∀ other, other ≠ id → x.task ≠ some other)
    (hexists : x.task = some id → ∃ t ∈ s.queue.tasks.rows, t.id = id)
    (hf : ∀ t ∈ s.queue.tasks.rows, t.id = id → (f t).Accounted x a) :
    AccountedInv ⟨{ s.queue with tasks := s.queue.tasks.update p f, execution := x },
      Function.update s.ledger id a⟩ := by
  refine ⟨fun t' ht' => ?_, fun other hother => ?_⟩
  · obtain ⟨t, ht, rfl⟩ := Table.mem_update.1 ht'
    by_cases hid : t.id = id
    · rw [if_pos ((hp t ht).2 hid)]
      show (f t).Accounted x (Function.update s.ledger id a (f t).id)
      rw [f.key_apply, hid, Function.update_self]
      exact hf t ht hid
    · rw [if_neg fun hpt => hid ((hp t ht).1 hpt)]
      show t.Accounted x (Function.update s.ledger id a t.id)
      rw [Function.update_of_ne hid]
      refine (h.rows t ht).of_execution ?_ (fun hx => absurd hx (hnew _ hid)) fun n error hx => ?_
      · exact ⟨fun hx => absurd (Execution.task_of_attempting hx) (hnew _ hid),
          fun hx => absurd (Execution.task_of_attempting hx) (hold _ hid)⟩
      · exact absurd (by rw [hx]; rfl) (hnew _ hid)
  · obtain rfl : other = id := by
      by_contra hne
      exact hnew other hne hother
    obtain ⟨t, ht, rfl⟩ := hexists hother
    exact ⟨_, Table.mem_update.2 ⟨t, ht, rfl⟩, by split <;> simp [f.key_apply]⟩

theorem claimed (h : AccountedInv s) (now : Time) : AccountedInv (s.step py (.claim now)) := by
  unfold AccountedQueue.step QueueState.account QueueState.step
  dsimp only
  split
  next id hx =>
    have hnone : s.queue.execution.task = none := by rw [hx]; rfl
    split
    next hany =>
      obtain ⟨r, hr, hpending⟩ := List.any_eq_true.1 hany
      obtain ⟨hid, hstatus⟩ := Bool.and_eq_true_iff.1 hpending
      have hr' : ∀ t ∈ s.queue.tasks.rows, t.id = id → t.status = .pending := by
        intro t ht htid
        obtain rfl := s.queue.tasks.eq_of_key_eq ht hr (htid.trans (eq_of_beq hid).symm)
        exact eq_of_beq hstatus
      have hledger : s.ledger = Function.update s.ledger id (s.ledger id) :=
        (Function.update_eq_self id s.ledger).symm
      rw [hledger]
      refine h.of_task_update (fun t ht => ?_) (fun _ _ => by rw [hnone]; nofun)
        (fun other hne hx => hne (Option.some.inj hx).symm) (fun _ => ⟨r, hr, eq_of_beq hid⟩)
          fun t ht htid => ?_
      · refine ⟨fun hp => eq_of_beq (Bool.and_eq_true_iff.1 hp).1, fun htid => ?_⟩
        rw [hr' t ht htid, htid]
        simp
      · have hrow := h.rows t ht
        have hstarted := hrow.started
        rw [if_neg (by rw [hx]; nofun), htid] at hstarted
        exact ⟨htid ▸ hrow.failed, hstarted, fun hb => (by cases hb),
          fun _ => hrow.automatic (by rw [hr' t ht htid]; exact TaskStatus.noConfusion),
            fun _ => rfl,
          fun n error hx => (by cases hx)⟩
    next => exact h.idle (by rw [hx]; rfl)
  next => exact h

theorem began (h : AccountedInv s) : AccountedInv (s.step py .readTask) := by
  unfold AccountedQueue.step QueueState.account QueueState.step
  dsimp only
  cases hx : s.queue.execution with
  | claimed id =>
    obtain ⟨t, ht, rfl⟩ := h.present id (by rw [hx]; rfl)
    dsimp only
    rw [Table.get?_of_mem ht]
    dsimp only
    refine ⟨fun r hr => ?_, fun id hid => h.present id (by rw [hx]; exact hid)⟩
    have hrow := h.rows r hr
    show r.Accounted (.read t.id t.payload) (Function.update s.ledger t.id _ r.id)
    by_cases hid : r.id = t.id
    · have hstarted := hrow.started
      rw [if_neg (by rw [hx]; nofun)] at hstarted
      rw [hid, Function.update_self]
      refine ⟨hid ▸ hrow.failed, ?_, hrow.blocked, hrow.automatic, fun _ =>
        hrow.held (by rw [hx, hid]; rfl),
        fun n error hx => (by cases hx)⟩
      show (s.ledger t.id).started + 1 = (s.ledger t.id).failed + if some t.id =
        some r.id then 1 else 0
      rw [if_pos (by rw [hid]), ← hid, hstarted]
    · rw [Function.update_of_ne hid]
      refine hrow.of_execution ?_ (fun hx' => ?_) fun n error hx => (by cases hx)
      · rw [hx]
        exact ⟨fun hx' => absurd (Option.some.inj hx').symm hid, fun hx' => by cases hx'⟩
      · exact absurd (Option.some.inj hx').symm hid
  | _ => exact h

theorem finished (h : AccountedInv s) (now : Time) : AccountedInv (s.step py (.finish now)) := by
  unfold AccountedQueue.step QueueState.account QueueState.step
  dsimp only
  cases hx : s.queue.execution with
  | finishing id p =>
    obtain ⟨r, hr, rfl⟩ := h.present id (by rw [hx]; rfl)
    have honly : ∀ t ∈ s.queue.tasks.rows, t.id = r.id → t = r :=
      fun t ht hid => s.queue.tasks.eq_of_key_eq ht hr hid
    have hleft : ∀ other, other ≠ r.id → s.queue.execution.task ≠ some other :=
      fun other hne hother => hne (Option.some.inj (hother.symm.trans (by rw [hx]; rfl)))
    dsimp only
    unfold Tasks.finish
    split
    next hany =>
      have hgone : ∀ t ∈ s.queue.tasks.rows, (t.id == r.id && t.pendingPayload.isNone) = false →
          t.id ≠ r.id := by
        intro t ht hkept hid
        obtain ⟨r', hr', hnone⟩ := List.any_eq_true.1 hany
        obtain rfl := honly r' hr' (eq_of_beq (Bool.and_eq_true_iff.1 hnone).1)
        obtain rfl := honly t ht hid
        rw [hnone] at hkept
        cases hkept
      refine ⟨fun t ht => ?_, fun id hid => by cases hid⟩
      obtain ⟨ht, hkept⟩ := Table.mem_delete.1 ht
      show t.Accounted .idle (Function.update s.ledger r.id {} t.id)
      rw [Function.update_of_ne (hgone t ht hkept)]
      refine (h.rows t ht).of_execution ?_ (fun hx => by cases hx) fun n error hx => by cases hx
      exact ⟨fun hx => (by cases hx), fun hx' =>
        absurd (Execution.task_of_attempting hx') (hleft _ (hgone t ht hkept))⟩
    next hany =>
      have hsome : r.pendingPayload.isSome = true := by
        by_contra hnone
        rw [Bool.not_eq_true, Option.isSome_eq_false_iff] at hnone
        exact hany (List.any_eq_true.2 ⟨r, hr, by rw [hnone, beq_self_eq_true]; rfl⟩)
      have hpromoted : ∀ t ∈ s.queue.tasks.rows, (t.id == r.id && t.pendingPayload.isSome) = true ↔
          t.id = r.id := by
        intro t ht
        refine ⟨fun hp => eq_of_beq (Bool.and_eq_true_iff.1 hp).1, fun hid => ?_⟩
        rw [honly t ht hid, hsome, beq_self_eq_true]
        rfl
      have hupdate := h.of_task_update (f := ⟨fun t => { t.foldPending with
          status := .pending, attempts := 0, nextAttemptAt := now }, fun _ => rfl⟩) (x := .idle)
            (a := {}) hpromoted hleft
        (fun other _ (hx : Execution.idle.task = some other) => by cases hx)
        (fun hx : Execution.idle.task = some r.id => by cases hx)
        fun t ht hid => .fresh rfl TaskStatus.noConfusion (by nofun) (by nofun)
      exact ⟨hupdate.rows, hupdate.present⟩
  | _ => exact h

/-- A failure of the payload that is stored. -/
theorem retained (h : AccountedInv s) (now : Time)
    (hok : s.KeepsCount (.retain now)) : AccountedInv (s.step py (.retain now)) := by
  unfold AccountedQueue.step QueueState.account QueueState.step
  dsimp only
  cases hx : s.queue.execution with
  | retaining id n error =>
    obtain ⟨r, hr, rfl⟩ := h.present id (by rw [hx]; rfl)
    have hnone : r.pendingPayload = none := hok r.id ⟨n, error, hx⟩ r (Table.get?_of_mem hr)
    have hleft : ∀ other, other ≠ r.id → s.queue.execution.task ≠ some other :=
      fun other hne hother => hne (Option.some.inj (hother.symm.trans (by rw [hx]; rfl)))
    dsimp only
    rw [Table.get?_of_mem hr, Option.any_some, hnone, if_neg (by nofun)]
    refine h.of_task_update (fun t _ => beq_iff_eq) hleft
        (fun other _ (hx : Execution.idle.task = some other) => by cases hx)
        (fun hx : Execution.idle.task = some r.id => by cases hx)
      fun t ht hid => ?_
    obtain rfl := s.queue.tasks.eq_of_key_eq ht hr hid
    have hrow := h.rows t ht
    have hcount := hrow.counted n error hx
    have hstarted := hrow.started
    rw [if_pos (by rw [hx]; rfl)] at hstarted
    have hlt := hrow.automatic (by rw [hrow.held (by rw [hx]; rfl)]; exact TaskStatus.noConfusion)
    refine ⟨?_, ?_, fun hblocked => ?_, fun hpending => ?_, by nofun, by nofun⟩
    · show n = (s.ledger t.id).failed + 1
      rw [hcount, hrow.failed]
    · show (s.ledger t.id).started = (s.ledger t.id).failed + 1 + 0
      exact hstarted
    · show n = _
      by_contra hne
      have : ¬ Tasks.maxAutomaticAttempts ≤ n := by omega
      change (if Tasks.maxAutomaticAttempts ≤ n then TaskStatus.blocked else .pending) =
        .blocked at hblocked
      rw [if_neg this] at hblocked
      cases hblocked
    · show n < _
      by_contra hle
      exact hpending (if_pos (not_lt.1 hle))
  | _ => exact h

theorem counted (h : AccountedInv s) : AccountedInv (s.step py .readAttempts) := by
  unfold AccountedQueue.step QueueState.account QueueState.step
  dsimp only
  split
  next id error hx =>
    obtain ⟨r, hr, rfl⟩ := h.present id (by rw [hx]; rfl)
    rw [Table.get?_of_mem hr]
    refine h.of_execution (by rw [hx]; rfl) (fun _ hid => by rw [hx]; exact hid)
      fun t ht n error' heq => ?_
    injection heq with hid hn
    obtain rfl := s.queue.tasks.eq_of_key_eq ht hr hid.symm
    exact hn.symm
  next => exact h

/-- An update of every row that satisfies `p`, which stores or resets its payload's account when `q`
says so. -/
theorem of_update (h : AccountedInv s) {p q : AsyncTask → Bool} {f : Assignment AsyncTask.id}
    (hf : ∀ t ∈ s.queue.tasks.rows, p t = true →
      (f t).Accounted s.queue.execution (if q t then {} else s.ledger t.id))
    (hq : ∀ t, q t = true → p t = true) :
    AccountedInv ⟨{ s.queue with tasks := s.queue.tasks.update p f },
      fun id => if (s.queue.tasks.get? id).any q then {} else s.ledger id⟩ := by
  refine ⟨fun t' ht' => ?_, fun id hid => ?_⟩
  · obtain ⟨t, ht, rfl⟩ := Table.mem_update.1 ht'
    by_cases hp : p t = true
    · rw [if_pos hp]
      show (f t).Accounted s.queue.execution
        (if (s.queue.tasks.get? (f t).id).any q then {} else s.ledger (f t).id)
      rw [f.key_apply, Table.get?_of_mem ht, Option.any_some]
      exact hf t ht hp
    · rw [if_neg hp]
      show t.Accounted s.queue.execution
        (if (s.queue.tasks.get? t.id).any q then {} else s.ledger t.id)
      rw [Table.get?_of_mem ht, Option.any_some, if_neg fun hqt => hp (hq t hqt)]
      exact h.rows t ht
  · obtain ⟨t, ht, rfl⟩ := h.present id hid
    exact ⟨_, Table.mem_update.2 ⟨t, ht, rfl⟩, by split <;> simp [f.key_apply]⟩

theorem retriedAll (h : AccountedInv s) (now : Time) :
    AccountedInv (s.step py (.retryAll now)) := by
  refine h.of_update (fun t ht hp => ?_) fun _ hq => hq
  rw [if_pos hp]
  exact h.requeued ht rfl (bne_iff_ne.1 hp) rfl rfl

theorem recovered (h : AccountedInv s) (hidle : s.queue.execution.task = none)
    (hok : ∀ t ∈ s.queue.tasks.rows, t.status = .processing → t.pendingPayload ≠ none →
      t.attempts = 0) :
    AccountedInv (s.step py .recover) := by
  have hattempting : ∀ id, s.queue.execution.attempting ≠ some id := fun id hx => by
    rw [Execution.task_of_attempting hx] at hidle
    cases hidle
  refine h.of_update (fun t ht hp => ?_) fun _ hq => (Bool.and_eq_true_iff.1 hq).1
  have hheld : ∀ id, s.queue.execution.task ≠ some id := fun id hx => by
    rw [hidle] at hx
    cases hx
  have hstatus : t.status = .processing := eq_of_beq hp
  cases hpending : t.pendingPayload with
  | some successor =>
    rw [hp]
    exact .fresh (hok t ht hstatus (by rw [hpending]; nofun)) TaskStatus.noConfusion (hattempting _)
      fun hx => absurd hx (hheld _)
  | none =>
    have hrow := h.rows t ht
    rw [hp]
    exact ⟨hrow.failed, hrow.started, fun hb => (by cases hb),
      fun _ => hrow.automatic (by rw [hstatus]; exact TaskStatus.noConfusion), fun hx =>
        absurd hx (hheld _), hrow.counted⟩

theorem step (h : AccountedInv s) {e : QueueEvent} (hsequential : s.Sequential py e)
    (hkeeps : s.KeepsCount e) :
    AccountedInv (s.step py e) := by
  cases e with
  | enqueueRead client payload => exact h.of_ledger rfl rfl fun _ _ => rfl
  | enqueueWrite client now => exact h.write hsequential
  | enqueueAbort client => exact h.of_ledger rfl rfl fun _ _ => rfl
  | select now =>
    simp only [AccountedQueue.step, QueueState.step, QueueState.account]
    split
    next hx _ =>
      exact h.of_execution (by rw [hx]; rfl) (fun _ hid => by cases hid)
        fun _ _ _ _ heq => by cases heq
    next => exact h
  | claim now => exact h.claimed now
  | readTask => exact h.began
  | superseded =>
    simp only [AccountedQueue.step, QueueState.step, QueueState.account]
    split
    next id p hx =>
      split <;>
        exact h.of_execution (by rw [hx]; rfl) (fun _ hid => by rw [hx]; exact hid)
          fun _ _ _ _ heq => by cases heq
    next => exact h
  | applied outcome =>
    simp only [AccountedQueue.step, QueueState.step, QueueState.account]
    split
    next id p _ hx =>
      exact h.of_execution (by rw [hx]; rfl) (fun _ hid => by rw [hx]; exact hid)
        fun _ _ _ _ heq => by cases heq
    next id p error hx =>
      exact h.of_execution (by rw [hx]; rfl) (fun _ hid => by rw [hx]; exact hid)
        fun _ _ _ _ heq => by cases heq
    next => exact h
  | finish now => exact h.finished now
  | readAttempts => exact h.counted
  | retain now => exact h.retained now hkeeps
  | retryAll now => exact h.retriedAll now
  | recover => exact h.recovered hsequential hkeeps
  | crash => exact h.idle hsequential

/-- A successor that a failing execution finds is left with the failures of the payload before
it. -/
theorem no_successor (h : AccountedInv s) {now : Time}
    (hown : (s.step py (.retain now)).OwnAttempts) :
    s.KeepsCount (.retain now) := by
  rintro id ⟨n, error, hx⟩ t ht
  obtain ⟨hr, rfl⟩ := Table.get?_eq_some.1 ht
  by_contra hsome
  have hstep : s.step py (.retain now) = ⟨{ s.queue with
      tasks := s.queue.tasks.retain now t.id n error, execution := .idle },
        Function.update s.ledger t.id {}⟩ := by
    unfold AccountedQueue.step QueueState.account QueueState.step
    rw [hx]
    dsimp only
    rw [Table.get?_of_mem hr, Option.any_some, if_pos (Option.isSome_iff_ne_none.2 hsome)]
  rw [hstep] at hown
  have hcount := (hown _ (Table.mem_update.2 ⟨t, hr, rfl⟩)).1
  rw [if_pos (beq_self_eq_true t.id)] at hcount
  change n = (Function.update s.ledger t.id {} t.id).failed at hcount
  rw [Function.update_self, (h.rows t hr).counted n error hx] at hcount
  cases hcount

theorem unfailed_successor (hown : (s.step py .recover).OwnAttempts) : s.KeepsCount .recover := by
  intro t ht hstatus hsome
  have hcount := (hown _ (Table.mem_update.2 ⟨t, ht, rfl⟩)).1
  rw [if_pos (by rw [hstatus]; rfl)] at hcount
  change t.attempts =
    (if (s.queue.tasks.get? t.id).any fun t => t.status == .processing && t.pendingPayload.isSome
    then {} else s.ledger t.id : Attempts).failed at hcount
  rw [Table.get?_of_mem ht, Option.any_some, hstatus, Option.isSome_iff_ne_none.2 hsome] at hcount
  exact hcount

end AccountedInv

namespace AccountedQueue

/-- In every run whose enqueues write to the row they read, whose recoveries come between
executions, that cuts no attempt off, and in which no failure finds a successor and no recovery one
of a failed payload, every stored payload has its own attempts in every state. Of the sequential
runs, these are the only ones. -/
theorem own_attempts (py : PyLib) (events : List QueueEvent) :
    (Along (step py) (fun s e => s.Sequential py e ∧ s.KeepsCount e) {} events →
        ∀ pre, pre <+: events → (run py pre).OwnAttempts) ∧
      (Along (step py) (Sequential py) {} events →
        ((∀ pre, pre <+: events → (run py pre).OwnAttempts) ↔
          Along (step py) KeepsCount {} events)) := by
  constructor
  · rintro h pre ⟨suf, rfl⟩
    have hinv : AccountedInv (run py pre) :=
      (Along.append.1 h).1.invariant
        (fun _ _ (hs : AccountedInv _) hok => hs.step hok.1 hok.2) .init
    exact hinv.own
  · refine Along.iff_property (fun _ (hs : AccountedInv _) => hs.own)
      (fun _ _ hs hsequential hkeeps => hs.step hsequential hkeeps) (fun s e hs hown => ?_) .init
    cases e with
    | retain now => exact hs.no_successor hown
    | recover => exact AccountedInv.unfailed_successor hown
    | _ => trivial

/-- One execution that fails at `now`. -/
def failure (now : Time) : List QueueEvent :=
  [.select now, .claim now, .readTask, .superseded, .applied (.error "ConnectorError"),
    .readAttempts, .retain now]

def positionOf (now : Time) : WatchUpdate := ⟨1, "10", now, some 60000, false, none⟩

/-- Eleven executions fail, a day apart, and during the twelfth a newer position arrives. -/
def twelveFailures : List QueueEvent :=
  [.enqueueRead 1 (positionOf 0), .enqueueWrite 1 0] ++
    ((List.range 11).flatMap fun day => failure (day * Time.minutes 1440)) ++
    [.select (11 * Time.minutes 1440), .claim (11 * Time.minutes 1440), .readTask, .superseded,
      .enqueueRead 2 (positionOf 1), .enqueueWrite 2 (11 * Time.minutes 1440),
      .applied (.error "ConnectorError"), .readAttempts, .retain (11 * Time.minutes 1440)]

theorem blocked_untried : ¬ ∀ events, (run .plain events).OwnAttempts := by
  intro h
  have hblocked : ∃ t ∈ (run .plain twelveFailures).queue.tasks.rows, t.payload = positionOf 1 ∧
      t.status = .blocked ∧
      ((run .plain twelveFailures).ledger t.id).started = 0 := by
    decide +kernel
  obtain ⟨t, ht, -, hstatus, hstarted⟩ := hblocked
  have htried := (h twelveFailures t ht).2.1 hstatus
  rw [hstarted] at htried
  cases htried

end AccountedQueue

end Euvieouvi
