import Euvieouvi.Jobs.Queue

/-!
# Safety of the job queue

`Consistent` holds of every reachable table (`consistent_step`): one run at a time, one active run
of a job, bounded attempts, leases exactly on the running runs. `JobRun.Step` says what a
transaction can do to a row: apart from the claim, no row begins to run, and none leaves a terminal
status. The active run of a job is the newest one, so a rotation, which keeps the newest, never
deletes it, and the ids of deleted runs are not used again.
-/

namespace Euvieouvi

namespace JobRun

structure Sound (r : JobRun) : Prop where
  bounded : r.attemptCount ≤ r.maxAttempts
  waiting : r.status = .queued → r.attemptCount < r.maxAttempts
  leased : r.status = .running ↔ r.leaseOwner.isSome = true

/-- What a transaction can do to a row. -/
structure Step (r r' : JobRun) : Prop where
  id : r'.id = r.id
  jobId : r'.jobId = r.jobId
  createdAt : r'.createdAt = r.createdAt
  active : r'.status.active = true → r.status.active = true
  terminal : r.status.active = false → r'.status = r.status
  sound : r.Sound → r'.Sound

namespace Step
variable {r r' : JobRun}

theorem refl (r : JobRun) : Step r r := ⟨rfl, rfl, rfl, fun h => h, fun _ => rfl, fun h => h⟩

/-- A running run ends, or waits for another attempt if one is left. -/
theorem of_running (hr : r.status = .running) (hid : r'.id = r.id) (hjob : r'.jobId = r.jobId)
    (hcreated : r'.createdAt = r.createdAt) (hcount : r'.attemptCount = r.attemptCount)
    (hmax : r'.maxAttempts = r.maxAttempts)
    (hqueued : r'.status = .queued → r.attemptCount < r.maxAttempts)
    (hleased : r'.status = .running ↔ r'.leaseOwner.isSome = true) : Step r r' where
  id := hid
  jobId := hjob
  createdAt := hcreated
  active _ := by rw [hr]; rfl
  terminal h := by rw [hr] at h; cases h
  sound h := ⟨by rw [hcount, hmax]; exact h.bounded, fun hq => by
    rw [hcount, hmax]; exact hqueued hq, hleased⟩

end Step

variable {r : JobRun} {now : Time} {worker : String}

theorem running_of_owned (h : r.Sound) (ho : JobRuns.ownedBy worker r = true) :
    r.status = .running := by
  refine h.leased.2 ?_
  have : r.leaseOwner = some worker := by simpa [JobRuns.ownedBy] using ho
  rw [this]; rfl

theorem step_renewed : Step r (renewed now r) :=
  ⟨rfl, rfl, rfl, fun h => h, fun _ => rfl, fun h => ⟨h.bounded, h.waiting, h.leased⟩⟩

theorem step_cancelledBeforeStart {summary : String} (hr : r.status = .running) :
    Step r (cancelledBeforeStart now summary r) :=
  .of_running hr rfl rfl rfl rfl rfl (fun h => by cases h)
    (by simp [cancelledBeforeStart, interrupt, release])

theorem step_started {reference : ExecutionReference} : Step r (started reference r) :=
  ⟨rfl, rfl, rfl, fun h => h, fun _ => rfl, fun h => ⟨h.bounded, h.waiting, h.leased⟩⟩

theorem step_closed {result : Option (Nat × Nat)} {summary : String} (hr : r.status = .running) :
    Step r (closed now result summary r) := by
  cases result <;>
    exact .of_running hr rfl rfl rfl rfl rfl (fun h => by cases h) (by simp [closed, release])

theorem step_failOrRetry {detail : String} (hr : r.status = .running) :
    Step r (failOrRetry detail now r) := by
  unfold failOrRetry
  dsimp only
  split
  · exact .of_running hr rfl rfl rfl rfl rfl (fun h => by cases h) (by simp [interrupt, release])
  · split
    next hlt => exact .of_running hr rfl rfl rfl rfl rfl (fun _ => hlt) (by simp [requeue, release])
    next =>
      exact .of_running hr rfl rfl rfl rfl rfl (fun h => by cases h) (by simp [giveUp, release])

theorem step_recover (hr : r.status = .running) : Step r (recover now r) := by
  unfold recover
  dsimp only
  split
  · exact .of_running hr rfl rfl rfl rfl rfl (fun h => by cases h) (by simp [interrupt, release])
  · split
    next =>
      exact .of_running hr rfl rfl rfl rfl rfl (fun h => by cases h) (by simp [giveUp, release])
    next hlt =>
      exact .of_running hr rfl rfl rfl rfl rfl (fun _ => by omega) (by simp [requeue, release])

theorem step_monitor {report : ExecutionReport} (hr : r.status = .running) :
    Step r (monitor worker now report r) := by
  unfold monitor
  dsimp only
  split
  next h =>
    exact .of_running hr rfl rfl rfl rfl rfl (fun h' => by simp [renewLease, h] at h')
      (by simp [renewLease, h])
  next h =>
    refine .of_running hr rfl rfl rfl rfl rfl (fun h' => ?_) ?_
    · simp only [release, renewLease] at h'
      split at h'
      · cases h'
      · rw [h'] at h; exact absurd rfl h
    · simp only [release, renewLease]
      split
      · simp
      · simp only [Option.isSome_none, Bool.false_eq_true, iff_false]
        intro h'; rw [h'] at h; exact h rfl

/-- A cancellation ends a waiting run and leaves a running one running. -/
theorem step_cancel : Step r (cancel now r) := by
  unfold cancel
  dsimp only
  split
  next hq =>
    exact ⟨rfl, rfl, rfl, fun h => (by cases h), fun h => by simp [hq] at h,
      fun h => ⟨h.bounded, fun h' => (by cases h'), by simp [interrupt, release]⟩⟩
  next => exact ⟨rfl, rfl, rfl, fun h => h, fun _ => rfl, fun h => ⟨h.bounded, h.waiting, h.leased⟩⟩

end JobRun

namespace JobRuns
variable {runs runs' : JobRuns} {r : JobRun} {parseInt : String → Option Int}

structure Consistent (runs : JobRuns) : Prop where
  sound : ∀ r ∈ runs.rows, r.Sound
  oneRunning : ∀ r ∈ runs.rows, ∀ r' ∈ runs.rows, r.status = .running → r'.status = .running →
    r.id = r'.id
  newest : ∀ r ∈ runs.rows, ∀ r' ∈ runs.rows, r.status.active = true → r'.jobId = r.jobId →
    r'.id ≤ r.id
  ordered : ∀ r ∈ runs.rows, ∀ r' ∈ runs.rows, r.id ≤ r'.id → r.createdAt ≤ r'.createdAt

/-- The rows of the new table were rows before. -/
def Moves (runs runs' : JobRuns) : Prop := ∀ r' ∈ runs'.rows, ∃ r ∈ runs.rows, r.Step r'

theorem Consistent.moves (h : Consistent runs) (hm : Moves runs runs')
    (hone : ∀ r ∈ runs'.rows, ∀ r' ∈ runs'.rows, r.status = .running → r'.status = .running →
      r.id = r'.id) :
    Consistent runs' where
  sound r' hr' := by
    obtain ⟨r, hr, hs⟩ := hm r' hr'
    exact hs.sound (h.sound r hr)
  oneRunning := hone
  newest r' hr' q' hq' ha hj := by
    obtain ⟨r, hr, hs⟩ := hm r' hr'
    obtain ⟨q, hq, hs'⟩ := hm q' hq'
    rw [hs.id, hs'.id]
    exact h.newest r hr q hq (hs.active ha) (by rw [← hs.jobId, ← hs'.jobId]; exact hj)
  ordered r' hr' q' hq' hle := by
    obtain ⟨r, hr, hs⟩ := hm r' hr'
    obtain ⟨q, hq, hs'⟩ := hm q' hq'
    rw [hs.createdAt, hs'.createdAt]
    exact h.ordered r hr q hq (by rw [← hs.id, ← hs'.id]; exact hle)

theorem moves_update {p : JobRun → Bool} {f : Assignment JobRun.id}
    (hf : ∀ r ∈ runs.rows, p r = true → r.Step (f r)) : Moves runs (runs.update p f) := by
  intro r' hr'
  obtain ⟨r, hr, rfl⟩ := Table.mem_update.1 hr'
  refine ⟨r, hr, ?_⟩
  split
  next hp => exact hf r hr hp
  next => exact .refl r

/-- What the runs of a table become later: an id that was given is not given again, and a terminal
run that is still there has the status it had. -/
def Settled (runs runs' : JobRuns) : Prop :=
  runs.nextId ≤ runs'.nextId ∧ ∀ r' ∈ runs'.rows, r'.id < runs.nextId →
    ∃ r ∈ runs.rows, r.id = r'.id ∧ (r.status.active = false → r'.status = r.status)

namespace Settled
variable {runs'' : JobRuns}

theorem refl (runs : JobRuns) : Settled runs runs :=
  ⟨le_rfl, fun r hr _ => ⟨r, hr, rfl, fun _ => rfl⟩⟩

theorem trans (h : Settled runs runs') (h' : Settled runs' runs'') : Settled runs runs'' := by
  refine ⟨h.1.trans h'.1, fun r'' hr'' hlt => ?_⟩
  obtain ⟨r', hr', hid', hst'⟩ := h'.2 r'' hr'' (hlt.trans_le h.1)
  obtain ⟨r, hr, hid, hst⟩ := h.2 r' hr' (by omega)
  refine ⟨r, hr, hid.trans hid', fun ha => ?_⟩
  have hs := hst ha
  rw [hst' (by rw [hs]; exact ha), hs]

theorem of_moves (hm : Moves runs runs') (hnext : runs.nextId ≤ runs'.nextId) :
    Settled runs runs' := by
  refine ⟨hnext, fun r' hr' _ => ?_⟩
  obtain ⟨r, hr, hs⟩ := hm r' hr'
  exact ⟨r, hr, hs.id.symm, hs.terminal⟩

end Settled

/-- One transaction: the table stays consistent and its terminal runs stay what they are. -/
structure Sane (runs runs' : JobRuns) : Prop where
  consistent : Consistent runs'
  settled : Settled runs runs'

/-- No row begins to run. -/
theorem Consistent.update (h : Consistent runs) {p : JobRun → Bool} {f : Assignment JobRun.id}
    (hf : ∀ r ∈ runs.rows, p r = true → r.Step (f r))
    (hrun : ∀ r ∈ runs.rows, p r = true → (f r).status = .running → r.status = .running) :
    Sane runs (runs.update p f) := by
  have hm := moves_update hf
  refine ⟨h.moves hm fun r hr r' hr' hrr hrr' => ?_, .of_moves hm (Table.nextId_update ..).ge⟩
  have hback : ∀ r ∈ (runs.update p f).rows, r.status = .running → ∃ q ∈ runs.rows, q.id = r.id ∧
      q.status = .running := by
    intro r hr hrr
    obtain ⟨q, hq, rfl⟩ := Table.mem_update.1 hr
    by_cases hp : p q = true
    · rw [if_pos hp] at hrr ⊢
      exact ⟨q, hq, (hf q hq hp).id.symm, hrun q hq hp hrr⟩
    · rw [if_neg hp] at hrr ⊢
      exact ⟨q, hq, rfl, hrr⟩
  obtain ⟨q, hq, hid, hqr⟩ := hback r hr hrr
  obtain ⟨q', hq', hid', hqr'⟩ := hback r' hr' hrr'
  rw [← hid, ← hid']
  exact h.oneRunning q hq q' hq' hqr hqr'

/-- A transaction on a running row. -/
theorem Consistent.onRun (h : Consistent runs) (id : Nat) {p : JobRun → Bool}
    (f : Assignment JobRun.id)
    (hp : ∀ r ∈ runs.rows, p r = true → r.status = .running)
    (hf : ∀ r ∈ runs.rows, r.status = .running → r.Step (f r)) :
    Sane runs (runs.onRun id p f) :=
  h.update (fun r hr hc => hf r hr (hp r hr (Bool.and_eq_true_iff.1 hc).2))
    fun r hr hc _ => hp r hr (Bool.and_eq_true_iff.1 hc).2

theorem Consistent.owned (h : Consistent runs) (worker : String) :
    ∀ r ∈ runs.rows, ownedBy worker r = true → r.status = .running :=
  fun r hr ho => JobRun.running_of_owned (h.sound r hr) ho

theorem sane_claimRun (h : Consistent runs) (worker : String) (now : Time) (id : Nat) :
    Sane runs (runs.claimRun worker now id) := by
  unfold claimRun
  split
  · exact ⟨h, .refl runs⟩
  next hnone =>
    have hnone : ∀ r ∈ runs.rows, r.status ≠ .running := by simpa using hnone
    have hm : Moves runs
        (runs.update (fun r => r.id == id && r.status = .queued) (JobRun.claimed worker now)) := by
      refine moves_update fun r hr hp => ?_
      have hq : r.status = .queued := by simpa using (Bool.and_eq_true_iff.1 hp).2
      refine ⟨rfl, rfl, rfl, fun _ => (by rw [hq]; rfl), fun ha => (by rw [hq] at ha; cases ha),
        fun hs => ?_⟩
      exact ⟨hs.waiting hq, fun h' => (by cases h'), by simp [JobRun.claimed]⟩
    refine ⟨h.moves hm fun r hr r' hr' hrr hrr' => ?_, .of_moves hm (Table.nextId_update ..).ge⟩
    have hid : ∀ r ∈ (runs.update (fun r => r.id == id && r.status = .queued)
        (JobRun.claimed worker now)).rows,
        r.status = .running → r.id = id := by
      intro r hr hrr
      obtain ⟨q, hq, rfl⟩ := Table.mem_update.1 hr
      by_cases hp : (q.id == id && decide (q.status = .queued)) = true
      · rw [if_pos hp]; exact beq_iff_eq.1 (Bool.and_eq_true_iff.1 hp).1
      · rw [if_neg hp] at hrr; exact absurd hrr (hnone q hq)
    rw [hid r hr hrr, hid r' hr' hrr']

theorem sane_claimNextJob (h : Consistent runs) (worker : String) (now : Time) :
    Sane runs (runs.claimNextJob worker now) := by
  unfold claimNextJob
  split
  · exact sane_claimRun h ..
  · exact ⟨h, .refl runs⟩

theorem sane_submitJob (h : Consistent runs) {setting : Option String} {now : Time} {job : JobId}
    {trigger : SyncTrigger}
    (hclock : ∀ r ∈ runs.rows, r.createdAt ≤ now) :
    Sane runs (runs.submitJob parseInt setting now job trigger) := by
  unfold submitJob
  split
  · exact ⟨h, .refl runs⟩
  next hfree =>
    have hfree : ∀ r ∈ runs.rows, r.jobId = job → r.status.active = false := by simpa using hfree
    have hlt : ∀ r ∈ runs.rows, r.id < runs.nextId := fun r hr => Table.key_lt_nextId hr
    have hmem : ∀ r, r ∈ (runs.insert
        (.submitted runs.nextId job trigger (maxAttemptsOf parseInt setting) now)).rows →
        r ∈ runs.rows ∨
          r = .submitted runs.nextId job trigger (maxAttemptsOf parseInt setting) now :=
      fun r hr => Table.mem_insert hr
    refine ⟨⟨fun r hr => ?_, fun r hr r' hr' hrr hrr' => ?_, fun r hr r' hr' ha hj => ?_,
      fun r hr r' hr' hle => ?_⟩,
      Table.nextId_le fun r hr => ⟨r, Table.mem_insert_of_mem hr, le_rfl⟩, fun r hr hl => ?_⟩
    · rcases hmem r hr with hr | rfl
      · exact h.sound r hr
      · exact ⟨Nat.zero_le _, fun _ => maxAttemptsOf_pos .., by simp [JobRun.submitted]⟩
    · rcases hmem r hr with hr | rfl <;> rcases hmem r' hr' with hr' | rfl
      · exact h.oneRunning r hr r' hr' hrr hrr'
      · cases hrr'
      · cases hrr
      · rfl
    · rcases hmem r hr with hr | rfl <;> rcases hmem r' hr' with hr' | rfl
      · exact h.newest r hr r' hr' ha hj
      · rw [hfree r hr hj.symm] at ha; cases ha
      · exact (hlt r' hr').le
      · exact le_rfl
    · rcases hmem r hr with hr | rfl <;> rcases hmem r' hr' with hr' | rfl
      · exact h.ordered r hr r' hr' hle
      · exact hclock r hr
      · exact absurd hle (by have := hlt r' hr'; simp only [JobRun.submitted]; omega)
      · exact le_rfl
    · rcases hmem r hr with hr | rfl
      · exact ⟨r, hr, rfl, fun _ => rfl⟩
      · exact absurd hl (Nat.lt_irrefl _)

/-- In a sorted list, something comes before each element that is not the first. -/
theorem exists_before_of_mem_drop {α : Type} {R : α → α → Prop} {l : List α} {x : α} {k : Nat}
    (hs : l.Pairwise R)
    (hn : l.Nodup) (hk : 0 < k) (hx : x ∈ l.drop k) : ∃ y ∈ l, y ≠ x ∧ R y x := by
  cases l with
  | nil => simp at hx
  | cons y l =>
    obtain ⟨k, rfl⟩ := Nat.exists_eq_succ_of_ne_zero hk.ne'
    rw [List.drop_succ_cons] at hx
    have hxl : x ∈ l := List.mem_of_mem_drop hx
    refine ⟨y, List.mem_cons_self, ?_, (List.pairwise_cons.1 hs).1 x hxl⟩
    rintro rfl
    exact (List.nodup_cons.1 hn).1 hxl

instance : Std.Total JobRun.newer where
  total a b := by
    rcases lt_trichotomy a.createdAt b.createdAt with h | h | h
    · exact .inr (.inl h)
    · exact (Nat.le_total b.id a.id).imp (fun hi => .inr ⟨h, hi⟩) fun hi => .inr ⟨h.symm, hi⟩
    · exact .inl (.inl h)

instance : IsTrans JobRun JobRun.newer where
  trans a b c := by
    rintro (h | ⟨h, hi⟩) (h' | ⟨h', hi'⟩)
    · exact .inl (h'.trans h)
    · exact .inl (h' ▸ h)
    · exact .inl (h ▸ h')
    · exact .inr ⟨h.trans h', hi'.trans hi⟩

/-- A rotation keeps the newest run of a job. -/
theorem mem_rotateJobRuns (h : Consistent runs) {setting : Option String} {job : JobId}
    (hr : r ∈ runs.rows)
    (hnew : ∀ r' ∈ runs.rows, r'.jobId = r.jobId → r'.id ≤ r.id) :
    r ∈ (runs.rotateJobRuns parseInt setting job).rows := by
  refine Table.mem_delete.2 ⟨hr, ?_⟩
  rw [List.any_eq_false]
  intro q hq hid
  have hid : q.id = r.id := by simpa using hid
  have hqr : q ∈ runs.rows ∧ q.jobId = job := by
    have := List.mem_of_mem_drop hq
    rw [List.mem_insertionSort, List.mem_filter] at this
    simpa using this
  obtain rfl := runs.eq_of_key_eq hqr.1 hr hid
  obtain ⟨y, hy, hne, hyq⟩ := exists_before_of_mem_drop (List.pairwise_insertionSort JobRun.newer _)
    ((List.perm_insertionSort JobRun.newer _).nodup_iff.2 (runs.nodup.of_map.filter _))
      (retentionOf_pos ..) hq
  rw [List.mem_insertionSort, List.mem_filter] at hy
  have hle : y.id ≤ q.id := hnew y hy.1 (by have := hy.2; simp at this; rw [this, hqr.2])
  have hcreated : y.createdAt ≤ q.createdAt := h.ordered y hy.1 q hr hle
  refine hne (runs.eq_of_key_eq hy.1 hr ?_)
  rcases hyq with hlt | ⟨-, hid⟩
  · exact absurd hcreated (not_le.2 hlt)
  · exact hle.antisymm hid

theorem sane_rotateJobRuns (h : Consistent runs) (setting : Option String) (job : JobId) :
    Sane runs (runs.rotateJobRuns parseInt setting job) := by
  have hsub : ∀ r ∈ (runs.rotateJobRuns parseInt setting job).rows, r ∈ runs.rows :=
    fun r hr => (Table.mem_delete.1 hr).1
  have hm : Moves runs (runs.rotateJobRuns parseInt setting job) :=
    fun r hr => ⟨r, hsub r hr, .refl r⟩
  refine ⟨h.moves hm fun r hr r' hr' => h.oneRunning r (hsub r hr) r' (hsub r' hr'),
    .of_moves hm (Table.nextId_le fun r hr => ?_)⟩
  -- the row with the largest id is the newest of its job
  obtain ⟨m, hm, hmax⟩ := exists_largest JobRun.id hr
  exact ⟨m, mem_rotateJobRuns h hm fun r' hr' _ => hmax r' hr', hmax r hr⟩

/-! ### Runs of the queue -/

theorem sane_step (h : Consistent runs) {e : JobEvent} (hclock : ClockForward runs e) :
    Sane runs (runs.step parseInt e) := by
  cases e with
  | submit setting now job trigger => exact sane_submitJob h hclock
  | claim worker now => exact sane_claimNextJob h worker now
  | cancelBeforeStart worker id now =>
    refine h.onRun id _ (fun r _ hp => ?_) fun r _ hr => JobRun.step_cancelledBeforeStart hr
    simp only [Bool.and_eq_true, decide_eq_true_eq] at hp
    exact hp.1.1
  | storeReference worker id reference =>
    refine h.onRun id _ (fun r _ hp => ?_) fun r _ _ => JobRun.step_started
    simp only [Bool.and_eq_true, decide_eq_true_eq] at hp
    exact hp.1
  | renew worker id now =>
    refine h.onRun id _ (fun r _ hp => ?_) fun r _ _ => JobRun.step_renewed
    simp only [Bool.and_eq_true, decide_eq_true_eq] at hp
    exact hp.1
  | failOrRetry worker id detail now =>
    exact h.onRun id _ (h.owned worker) fun r _ hr => JobRun.step_failOrRetry hr
  | recover force now =>
    have hrunning : ∀ r ∈ runs.rows, r.recoverable force now = true → r.status = .running := by
      intro r hr hp
      simp only [JobRun.recoverable, Bool.or_eq_true, Bool.and_eq_true, decide_eq_true_eq] at hp
      rcases hp with ⟨hs, -⟩ | ⟨-, ho⟩
      · exact hs
      · exact (h.sound r hr).leased.2 ho
    exact h.update (fun r hr hp => JobRun.step_recover (hrunning r hr hp)) fun r hr hp _ =>
      hrunning r hr hp
  | requestCancellation id now =>
    refine h.update (fun r _ _ => JobRun.step_cancel) fun r _ _ hs => ?_
    by_cases hq : r.status = .queued
    · simp [JobRun.cancel, hq, JobRun.interrupt, JobRun.release] at hs
    · simpa [JobRun.cancel, hq] using hs
  | monitor worker id now report =>
    exact h.onRun id _ (h.owned worker) fun r _ hr => JobRun.step_monitor hr
  | runDirectly worker id job now result summary =>
    have howned : ∀ r ∈ runs.rows, (ownedBy worker r && r.cancelRequestedAt.isSome) = true →
        r.status = .running :=
      fun r hr hp => h.owned worker r hr (Bool.and_eq_true_iff.1 hp).1
    have hfirst :=
        h.onRun id (JobRun.cancelledBeforeStart now job.cancelledSummary) howned fun r _ hr =>
      JobRun.step_cancelledBeforeStart hr
    have hsecond := hfirst.consistent.onRun id (JobRun.closed now result summary)
      (hfirst.consistent.owned worker) fun r _ hr => JobRun.step_closed hr
    exact ⟨hsecond.consistent, hfirst.settled.trans hsecond.settled⟩
  | rotate setting job => exact sane_rotateJobRuns h setting job

theorem consistent_empty : Consistent (.empty : JobRuns) :=
  ⟨fun _ h => (nomatch h), fun _ h => (nomatch h), fun _ h => (nomatch h), fun _ h => (nomatch h)⟩

/-- What the queue promises of a table. -/
structure Safe (runs : JobRuns) : Prop where
  oneRunning : ∀ r ∈ runs.rows, ∀ r' ∈ runs.rows, r.status = .running →
    r'.status = .running → r = r'
  oneActive : ∀ r ∈ runs.rows, ∀ r' ∈ runs.rows, r.status.active = true → r'.status.active = true →
    r.jobId = r'.jobId → r = r'
  bounded : ∀ r ∈ runs.rows, r.attemptCount ≤ r.maxAttempts
  retryLeft : ∀ r ∈ runs.rows, r.status = .queued → r.attemptCount < r.maxAttempts
  leased : ∀ r ∈ runs.rows, r.status = .running → r.leaseOwner.isSome = true
  released : ∀ r ∈ runs.rows, r.status.active = false → r.leaseOwner = none

theorem Consistent.safe (h : Consistent runs) : Safe runs where
  oneRunning r hr r' hr' hs hs' := runs.eq_of_key_eq hr hr' (h.oneRunning r hr r' hr' hs hs')
  oneActive r hr r' hr' ha ha' hj :=
    runs.eq_of_key_eq hr hr'
      ((h.newest r' hr' r hr ha' hj).antisymm (h.newest r hr r' hr' ha hj.symm))
  bounded r hr := (h.sound r hr).bounded
  retryLeft r hr := (h.sound r hr).waiting
  leased r hr := (h.sound r hr).leased.1
  released r hr ha := by
    cases ho : r.leaseOwner with
    | none => rfl
    | some worker =>
      have hs := (h.sound r hr).leased.2 (by rw [ho]; rfl)
      rw [hs] at ha; cases ha

theorem settled_run (h : Consistent runs) {es : List JobEvent}
    (hes : Along (step parseInt) ClockForward runs es) :
    Settled runs (es.foldl (step parseInt) runs) :=
  hes.relation Settled.refl (fun _ _ _ => Settled.trans)
    (fun _ _ hc hok => (sane_step hc hok).consistent)
    (fun _ _ hc hok => (sane_step hc hok).settled) h

/-- In every state of the queue, whatever the order of the transactions: the table is safe, no later
transaction changes the status of a terminal run, and no rotation deletes an active one. -/
theorem durable_queue_invariants (parseInt : String → Option Int) (es : List JobEvent)
    (hes : Along (step parseInt) ClockForward .empty es) :
    Safe (es.foldl (step parseInt) .empty) ∧
    (∀ es', Along (step parseInt) ClockForward (es.foldl (step parseInt) .empty) es' →
      ∀ r ∈ (es.foldl (step parseInt) .empty).rows, r.status.active = false →
        ∀ r' ∈ (es'.foldl (step parseInt) (es.foldl (step parseInt) .empty)).rows, r'.id = r.id →
          r'.status = r.status) ∧
    ∀ setting job, ∀ r ∈ (es.foldl (step parseInt) .empty).rows, r.status.active = true →
      r ∈ ((es.foldl (step parseInt) .empty).rotateJobRuns parseInt setting job).rows := by
  have h : Consistent (es.foldl (step parseInt) .empty) :=
    hes.invariant (fun _ _ hc hok => (sane_step hc hok).consistent) consistent_empty
  refine ⟨h.safe, fun es' hes' r hr ha r' hr' hid => ?_, fun setting job r hr ha => ?_⟩
  · obtain ⟨q, hq, hqid, hst⟩ :=
      (settled_run h hes').2 r' hr' (by rw [hid]; exact Table.key_lt_nextId hr)
    obtain rfl := Table.eq_of_key_eq _ hq hr (hqid.trans hid)
    exact hst ha
  · exact mem_rotateJobRuns h hr fun r' hr' hj => h.newest r hr r' hr' ha hj

/-- A queue in which a run is submitted, claimed, cancelled and closed. -/
theorem durable_queue_invariants_cancelled :
    let es : List JobEvent :=
  [.submit none 0 .syncPlex .manual, .claim "w" 1, .requestCancellation 1 2,
      .monitor "w" 1 3 ⟨.succeeded, 100, 1, 1, 0, ""⟩, .submit none 4 .syncPlex .scheduled]
    let runs := es.foldl (step fun _ => some 3) .empty
    runs.rows.map (·.status) = [.interrupted, .queued] ∧ Safe runs :=
  ⟨by decide +kernel, (durable_queue_invariants (fun _ => some 3) _ (by decide +kernel)).1⟩

end JobRuns

end Euvieouvi
