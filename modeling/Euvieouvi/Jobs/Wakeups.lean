import Euvieouvi.Jobs.Worker
import Euvieouvi.Jobs.Safety

/-!
# No queued run is left alone

`wake` and `_drain` of `DurableJobWorker` (`sync/job_worker.py`). A thread that has found nothing to
do leaves or sleeps only if no call came in since it looked, and whoever queues a run calls `wake`
afterwards. So as long as no exception ends the drain, a queued run has a thread that begins another
pass, which never sleeps past the moment the run becomes available by more than a second
(`queued_run_tended`). There is never a second thread in the loop (`one_drain`).
-/

namespace Euvieouvi

namespace JobRuns
variable {runs : JobRuns} {parseInt : String → Option Int} {r : JobRun} {now : Time}

/-- A queued run says when it may start. -/
def Dated (runs : JobRuns) : Prop :=
  ∀ r ∈ runs.rows, r.status = .queued → r.availableAt.isSome = true

/-- The queued runs were queued before, for the same moments. -/
def QueuedFrom (runs runs' : JobRuns) : Prop :=
  ∀ r ∈ runs'.rows, r.status = .queued → ∃ q ∈ runs.rows, q.status = .queued ∧
    q.availableAt = r.availableAt

theorem QueuedFrom.of_subset {runs' : JobRuns} (h : ∀ r ∈ runs'.rows, r ∈ runs.rows) :
    QueuedFrom runs runs' :=
  fun r hr hq => ⟨r, h r hr, hq, rfl⟩

theorem QueuedFrom.refl (runs : JobRuns) : QueuedFrom runs runs := .of_subset fun _ hr => hr

theorem QueuedFrom.trans {runs' runs'' : JobRuns} (h : QueuedFrom runs runs')
    (h' : QueuedFrom runs' runs'') :
    QueuedFrom runs runs'' := by
  intro r hr hq
  obtain ⟨r', hr', hq', heq'⟩ := h' r hr hq
  obtain ⟨r'', hr'', hq'', heq''⟩ := h r' hr' hq'
  exact ⟨r'', hr'', hq'', heq''.trans heq'⟩

theorem queuedFrom_update {p : JobRun → Bool} {f : Assignment JobRun.id}
    (h : ∀ r, (f r).status = .queued → r.status = .queued ∧ (f r).availableAt = r.availableAt) :
    QueuedFrom runs (runs.update p f) := by
  intro r hr hq
  obtain ⟨r₀, hr₀, rfl⟩ := Table.mem_update.1 hr
  refine ⟨r₀, hr₀, ?_⟩
  split at hq
  next hp =>
    rw [if_pos hp]
    exact ⟨(h r₀ hq).1, (h r₀ hq).2.symm⟩
  next hp =>
    rw [if_neg hp]
    exact ⟨hq, rfl⟩

theorem Dated.of_queuedFrom {runs' : JobRuns} (h : Dated runs) (hfrom : QueuedFrom runs runs') :
    Dated runs' := by
  intro r hr hq
  obtain ⟨q, hmem, hqueued, heq⟩ := hfrom r hr hq
  exact heq ▸ h q hmem hqueued

theorem Dated.update (h : Dated runs) {p : JobRun → Bool} {f : Assignment JobRun.id}
    (hf : ∀ r, (f r).status = .queued → (f r).availableAt.isSome = true) :
    Dated (runs.update p f) := by
  intro r hr hq
  obtain ⟨r₀, hr₀, rfl⟩ := Table.mem_update.1 hr
  split at hq
  next hp =>
    rw [if_pos hp]
    exact hf r₀ hq
  next hp =>
    rw [if_neg hp]
    exact h r₀ hr₀ hq

theorem queuedFrom_claim (worker : String) : QueuedFrom runs (runs.claimNextJob worker now) := by
  unfold claimNextJob
  split
  · unfold claimRun
    split
    · exact .refl runs
    · refine queuedFrom_update fun r hq => ?_
      cases hq
  · exact .refl runs

/-- Only a submission, a retry or a recovery queues a run. -/
theorem queuedFrom_step {e : JobEvent} (he : e.queues = false) :
    QueuedFrom runs (runs.step parseInt e) := by
  cases e with
  | submit | failOrRetry | recover => cases he
  | claim worker now => exact queuedFrom_claim worker
  | cancelBeforeStart worker id now =>
    refine queuedFrom_update fun r hq => ?_
    cases hq
  | storeReference worker id reference => exact queuedFrom_update fun r hq => ⟨hq, rfl⟩
  | renew worker id now => exact queuedFrom_update fun r hq => ⟨hq, rfl⟩
  | requestCancellation id now =>
    refine queuedFrom_update fun r hq => ?_
    unfold JobRun.cancel at hq ⊢
    dsimp only at hq ⊢
    split at hq
    next => cases hq
    next hnot => exact absurd hq hnot
  | monitor worker id now report =>
    refine queuedFrom_update fun r hq => ?_
    unfold JobRun.monitor at hq
    dsimp only at hq
    split at hq
    next => cases hq
    next hactive =>
      simp only [JobRun.release, JobRun.renewLease] at hq
      split at hq
      · cases hq
      · rw [hq] at hactive
        exact absurd rfl hactive
  | runDirectly worker id job now result summary =>
    refine .trans (queuedFrom_update fun r hq => ?_) (queuedFrom_update fun r hq => ?_)
    · cases hq
    · cases result <;> cases hq
  | rotate setting job => exact .of_subset fun r hr => (Table.mem_delete.1 hr).1

variable (parseInt) in
theorem dated_step (h : Dated runs) (e : JobEvent) : Dated (runs.step parseInt e) := by
  cases he : e.queues with
  | false => exact h.of_queuedFrom (queuedFrom_step he)
  | true =>
    cases e with
    | submit setting now job trigger =>
      show Dated (runs.submitJob parseInt setting now job trigger)
      unfold submitJob
      split
      · exact h
      · exact Table.forall_insert h fun _ => rfl
    | failOrRetry worker id detail now =>
      refine h.update fun r hq => ?_
      unfold JobRun.failOrRetry at hq ⊢
      dsimp only at hq ⊢
      split at hq
      · cases hq
      next hcancel =>
        rw [if_neg hcancel]
        split at hq
        next hlt =>
          rw [if_pos hlt]
          rfl
        next => cases hq
    | recover force now =>
      refine h.update fun r hq => ?_
      unfold JobRun.recover at hq ⊢
      dsimp only at hq ⊢
      split at hq
      · cases hq
      next hcancel =>
        rw [if_neg hcancel]
        split at hq
        · cases hq
        next hlt =>
          rw [if_neg hlt]
          rfl
    | claim | cancelBeforeStart | storeReference | renew | requestCancellation | monitor
      | runDirectly | rotate => cases he

/-- Nothing to wait for means that nothing is queued. -/
theorem no_queued_of_look (h : Dated runs) (hlook : runs.secondsUntilNextJob now = none) :
    ∀ r ∈ runs.rows, r.status ≠ .queued := by
  intro r hr hq
  unfold secondsUntilNextJob at hlook
  split at hlook
  · cases hlook
  · obtain ⟨a, ha⟩ := Option.isSome_iff_exists.1 (h r hr hq)
    have hmem : a ∈ runs.queued.filterMap (·.availableAt) :=
      List.mem_filterMap.2 ⟨r, by simp [queued, hr, hq], ha⟩
    rw [Option.map_eq_none_iff, List.min?_eq_none_iff] at hlook
    rw [hlook] at hmem
    cases hmem

theorem limit_le {now delay a : Int} (h : delay ≤ max 1000000 (a - now)) :
    now + min (30 * 1000000) (max 50000 delay) ≤ max (now + 1 * 1000000) a := by
  omega

/-- The wait is over a second after the look, or when the run becomes available. -/
theorem limit_le_of_look {delay : Int} (hlook : runs.secondsUntilNextJob now = some delay)
    {a : Time} (hr : r ∈ runs.rows) (hq : r.status = .queued) (ha : r.availableAt = some a) :
    (Rest.until now delay).limit ≤ max (now + Time.seconds 1) a := by
  refine limit_le ?_
  unfold secondsUntilNextJob at hlook
  split at hlook
  · cases hlook
    exact le_max_left _ _
  · obtain ⟨m, hm, rfl⟩ := Option.map_eq_some_iff.1 hlook
    have hle : m ≤ a :=
      (List.min?_eq_some_iff.1 hm).2 a (List.mem_filterMap.2 ⟨r, by simp [queued, hr, hq], ha⟩)
    exact max_le_max (by decide) (Int.sub_le_sub_right hle now)

end JobRuns

/-- The wait of a thread, or the one that it is about to begin. -/
def ThreadPlace.rest : ThreadPlace DrainWork Rest → Option Rest
  | .napping d | .dozing d | .sleeping d => some d
  | _ => none

namespace WorkerState
variable {parseInt : String → Option Int} {workerId : String} {s s' : WorkerState}
  {e : DrainEvent} {t u : Nat}
  {p : ThreadPlace DrainWork Rest}

variable (parseInt workerId) in
theorem dated_act (h : s.runs.Dated) (e : DrainEvent) : (s.act parseInt workerId e).runs.Dated := by
  cases e with
  | commit e | execute _ e => exact JobRuns.dated_step parseInt h e
  | recover _ now => exact JobRuns.dated_step parseInt h (.recover false now)
  | claim _ now => exact JobRuns.dated_step parseInt h (.claim workerId now)
  | wake | begin | locked | executed | look | settle | leave | resume | raise | exit => exact h

variable (parseInt workerId) in
theorem sound_act (h : s.waker.Sound) (he : s.Enabled e) :
    (s.act parseInt workerId e).waker.Sound := by
  cases e with
  | commit | execute => exact h
  | wake => exact h.act (e := .wake) trivial
  | begin t => exact h.act (e := .begin t .recovering) he
  | recover t now => exact h.act (e := .work t .claiming) ⟨_, he⟩
  | claim t now => exact h.act (e := .work t _) ⟨_, he⟩
  | locked t now =>
    rcases he with ht | ht
    · exact h.act (e := .nap t (.locked now)) ⟨_, ht⟩
    · exact h.act (e := .nap t (.locked now)) ⟨_, ht⟩
  | executed t =>
    obtain ⟨id, ht⟩ := he
    exact h.act (e := .resume t) ⟨_, ht, .inl ⟨_, rfl⟩⟩
  | look t now =>
    show (s.waker.act ((s.runs.secondsUntilNextJob now).elim (.retire t) fun delay =>
      .doze t (.until now delay))).Sound
    cases s.runs.secondsUntilNextJob now with
    | none => exact h.act (e := .retire t) ⟨_, he⟩
    | some delay => exact h.act (e := .doze t (.until now delay)) ⟨_, he⟩
  | settle t d => exact h.act (e := .settle t d) he
  | leave t => exact h.act (e := .leave t) he
  | resume t =>
    obtain ⟨d, ht | ht⟩ := he
    · exact h.act (e := .resume t) ⟨_, ht, .inr ⟨d, .inl rfl⟩⟩
    · exact h.act (e := .resume t) ⟨_, ht, .inr ⟨d, .inr rfl⟩⟩
  | raise t => exact h.act (e := .raise t) he
  | exit t => exact h.act (e := .exit t) he

theorem sound_run {es : List DrainEvent} (h : Along (act parseInt workerId) Enabled {} es) :
    (es.foldl (act parseInt workerId) {}).waker.Sound ∧
    (es.foldl (act parseInt workerId) {}).runs.Dated :=
  h.invariant (I := fun s => s.waker.Sound ∧ s.runs.Dated)
    (fun _ e hs he => ⟨sound_act _ _ hs.1 he, dated_act _ _ hs.2 e⟩)
    ⟨Waker.sound_start, fun _ hr => nomatch hr⟩

/-- Two threads of the worker are never both in the loop, whatever was raised before: it executes
one run at a time. -/
theorem one_drain (parseInt : String → Option Int) (workerId : String) (es : List DrainEvent)
    (h : Along (act parseInt workerId) Enabled {} es) (t u : Nat) (p q : ThreadPlace DrainWork Rest)
    (ht : (es.foldl (act parseInt workerId) {}).waker.place t = some p)
    (hu : (es.foldl (act parseInt workerId) {}).waker.place u = some q) (hp : p.draining = true)
    (hq : q.draining = true) :
    t = u := by
  obtain ⟨hsound, -⟩ := sound_run h
  exact Option.some.inj ((hsound.only t p ht hp).symm.trans (hsound.only u q hu hq))

/-- The first thread dies of an exception, and the next call starts another. -/
def restarted : List DrainEvent := [.wake, .begin 0, .raise 0, .exit 0, .wake, .begin 1]

theorem one_drain_restarted :
    (restarted.foldl (act (fun _ => none) "worker") {}).waker.registered = some 1 ∧
      ∀ u q, (restarted.foldl (act (fun _ => none) "worker") {}).waker.place u = some q →
      q.draining = true → u = 1 :=
  ⟨rfl, fun u q hu hq => one_drain (fun _ => none) "worker" restarted
    ⟨trivial, rfl, ⟨_, rfl, rfl⟩, .inr rfl, trivial, rfl, trivial⟩ u 1 q _ hu rfl hq rfl⟩

/-! ### Runs without exceptions -/

structure Tended (s : WorkerState) : Prop where
  dated : s.runs.Dated
  sound : s.waker.Sound
  calm : ∀ t, s.waker.registered = some t → s.waker.place t ≠ some .raised
  answered : s.waker.Answered
  attended : ∀ r ∈ s.runs.rows, r.status = .queued → s.owed = true ∨ s.waker.Attended
  leaving : ∀ t, s.waker.place t = some .leaving → ∀ r ∈ s.runs.rows, r.status = .queued →
    s.owed = true ∨ s.waker.pending = true
  resting : ∀ t p d, s.waker.place t = some p → p.rest = some d → ∀ r ∈ s.runs.rows,
    r.status = .queued →
    s.owed = true ∨ s.waker.pending = true ∨ ∀ a, r.availableAt = some a →
      d.limit ≤ max (d.since + Time.seconds 1) a

theorem draining_of_rest {d : Rest} (h : p.rest = some d) : p.draining = true := by
  cases p <;> first | rfl | cases h

/-- The state after a step of the thread that drains: only its own place matters. -/
theorem Tended.of_thread (hdated : s.runs.Dated) (hsound : s.waker.Sound)
    (hreg : s.waker.registered = some t)
    (hplace : s.waker.place t = some p) (hp : p.draining = true)
    (hleaving : p = .leaving → ∀ r ∈ s.runs.rows, r.status = .queued → s.owed = true ∨
      s.waker.pending = true)
    (hresting : ∀ d, p.rest = some d → ∀ r ∈ s.runs.rows, r.status = .queued →
      s.owed = true ∨ s.waker.pending = true ∨ ∀ a, r.availableAt = some a →
        d.limit ≤ max (d.since + Time.seconds 1) a) :
    Tended s := by
  have hattended : s.waker.Attended := ⟨t, p, hreg, hplace, hp⟩
  have hone : ∀ u q, s.waker.place u = some q → q.draining = true → q = p := by
    intro u q hu hq
    obtain rfl := Option.some.inj ((hsound.only u q hu hq).symm.trans hreg)
    exact Option.some.inj (hu.symm.trans hplace)
  refine ⟨hdated, hsound, fun u hu hraised => ?_, fun _ => hattended, fun _ _ _ => .inr hattended,
    fun u hu => ?_,
    fun u q d hu hd => ?_⟩
  · obtain rfl := Option.some.inj (hu.symm.trans hreg)
    obtain rfl := Option.some.inj (hraised.symm.trans hplace)
    cases hp
  · exact hleaving (hone u .leaving hu rfl).symm
  · obtain rfl := hone u q hu (draining_of_rest hd)
    exact hresting d hd

/-- A step of the thread after which it neither waits nor leaves. -/
theorem Tended.goes_on (hdated : s.runs.Dated) (hsound : s.waker.Sound)
    (hreg : s.waker.registered = some t)
    (hplace : s.waker.place t = some p) (hp : p = .top ∨ ∃ w, p = .working w) : Tended s := by
  rcases hp with rfl | ⟨w, rfl⟩
  · exact .of_thread hdated hsound hreg hplace rfl nofun nofun
  · exact .of_thread hdated hsound hreg hplace rfl nofun nofun

theorem tended_wake (hdated : s.runs.Dated) (hsound : s.waker.Sound)
    (hquiet : ∀ t, s.waker.registered = some t → s.waker.place t ≠ some .raised) :
    Tended (s.act parseInt workerId .wake) := by
  have hattended := Waker.attended_wake hsound hquiet
  have hpending : s.waker.wake.pending = true := by
    unfold Waker.wake
    dsimp only
    split <;> rfl
  refine ⟨hdated, hsound.wake, fun t ht hraised => ?_, fun _ => hattended, fun _ _ _ =>
    .inr hattended,
    fun _ _ _ _ _ => .inr hpending, fun _ _ _ _ _ _ _ _ => .inr (.inl hpending)⟩
  obtain ⟨u, p, hu, hp, hdraining⟩ := hattended
  obtain rfl := Option.some.inj (hu.symm.trans ht)
  obtain rfl := Option.some.inj (hp.symm.trans hraised)
  cases hdraining

theorem Tended.commit (h : Tended s) {e : JobEvent} :
    Tended (s.act parseInt workerId (.commit e)) := by
  have hdated := dated_act parseInt workerId h.dated (.commit e)
  cases he : e.queues with
  | true =>
    have howed : (s.act parseInt workerId (.commit e)).owed = true := by simp [act, he]
    exact ⟨hdated, h.sound, h.calm, h.answered, fun _ _ _ => .inl howed,
      fun _ _ _ _ _ => .inl howed,
      fun _ _ _ _ _ _ _ _ => .inl howed⟩
  | false =>
    have hfrom := @JobRuns.queuedFrom_step s.runs parseInt _ he
    have howed : s.owed = true → (s.act parseInt workerId (.commit e)).owed = true :=
      fun h => by simp [act, h]
    refine ⟨hdated, h.sound, h.calm, h.answered, fun r hr hq => ?_, fun t ht r hr hq => ?_,
      fun t p d ht hd r hr hq => ?_⟩
    all_goals obtain ⟨r₀, hr₀, hq₀, havailable⟩ := hfrom r hr hq
    · exact (h.attended r₀ hr₀ hq₀).imp_left howed
    · exact (h.leaving t ht r₀ hr₀ hq₀).imp_left howed
    · exact havailable ▸ (h.resting t p d ht hd r₀ hr₀ hq₀).imp_left howed

theorem Tended.leave (h : Tended s) (ht : s.waker.place t = some .leaving) :
    Tended (s.act parseInt workerId (.leave t)) := by
  have hsound := sound_act parseInt workerId (e := .leave t) h.sound ht
  have hreg := h.sound.only t _ ht rfl
  by_cases hpending : s.waker.pending = true
  · have hact : (s.act parseInt workerId (.leave t)).waker = s.waker.goto t .top := if_pos hpending
    exact .goes_on (t := t) (p := .top) h.dated hsound (hact ▸ hreg)
      (hact ▸ Waker.place_goto_self) (.inl rfl)
  · have hact : (s.act parseInt workerId (.leave t)).waker =
        { s.waker.goto t .left with registered := none } :=
      if_neg hpending
    have hnone : ∀ u p, (s.act parseInt workerId (.leave t)).waker.place u = some p →
        p.draining = false := by
      intro u p hu
      by_contra hp
      have := hsound.only u p hu (Bool.of_not_eq_false hp)
      rw [hact] at this
      cases this
    refine ⟨h.dated, hsound, fun u hu => ?_, fun hp => ?_, fun r hr hq => .inl ?_, fun u hu => ?_,
      fun u p d hu hd => ?_⟩
    · rw [hact] at hu
      cases hu
    · rw [hact] at hp
      exact absurd hp hpending
    · exact (h.leaving t ht r hr hq).resolve_right hpending
    · cases hnone u _ hu
    · exact absurd (draining_of_rest hd) (by rw [hnone u p hu]; exact Bool.false_ne_true)

theorem Tended.exit (h : Tended s)
    (ht : s.waker.place t = some .left ∨ s.waker.place t = some .raised) :
    Tended (s.act parseInt workerId (.exit t)) := by
  have hsound := sound_act parseInt workerId (e := .exit t) h.sound ht
  have hne : s.waker.registered ≠ some t := by
    intro hreg
    obtain ⟨p, hp, hleft⟩ := h.sound.alive t hreg
    rcases ht with ht | ht
    · exact hleft (Option.some.inj (hp.symm.trans ht))
    · exact h.calm t hreg ht
  have hact : (s.act parseInt workerId (.exit t)).waker =
      { s.waker with place := Function.update s.waker.place t none } := by
    show s.waker.act (.exit t) = _
    simp [Waker.act, hne]
  have hback : ∀ u p, (s.act parseInt workerId (.exit t)).waker.place u = some p →
      s.waker.place u = some p := by
    intro u p hu
    rw [hact] at hu
    by_cases hut : u = t
    · rw [hut] at hu
      simp at hu
    · exact (Function.update_of_ne hut ..).symm.trans hu
  have hattended : s.waker.Attended →
      (s.act parseInt workerId (.exit t)).waker.Attended := fun ha =>
    Waker.Attended.act (e := .exit t) ha h.sound ht (fun _ heq => by cases heq)
      fun _ heq => by cases heq
  refine ⟨h.dated, hsound, fun u hu hraised => ?_, fun hp => hattended (h.answered ?_),
    fun r hr hq => ?_, fun u hu => ?_,
    fun u p d hu hd => ?_⟩
  · rw [hact] at hu
    exact h.calm u hu (hback u _ hraised)
  · rw [hact] at hp
    exact hp
  · exact (h.attended r hr hq).imp_right hattended
  · rw [hact]
    exact h.leaving u (hback u _ hu)
  · rw [hact]
    exact h.resting u p d (hback u p hu) hd

theorem Tended.act (h : Tended s) (he : s.Calm e) : Tended (s.act parseInt workerId e) := by
  obtain ⟨he, hraise⟩ := he
  have hdated := dated_act parseInt workerId h.dated e
  have hsound := sound_act parseInt workerId h.sound he
  cases e with
  | commit e => exact h.commit
  | wake => exact tended_wake h.dated h.sound h.calm
  | begin t =>
    exact .goes_on hdated hsound (h.sound.only t _ he rfl) Waker.place_goto_self (.inr ⟨_, rfl⟩)
  | recover t now =>
    exact .goes_on hdated hsound (h.sound.only t _ he rfl) Waker.place_goto_self (.inr ⟨_, rfl⟩)
  | claim t now =>
    exact .goes_on hdated hsound (h.sound.only t _ he rfl) Waker.place_goto_self (.inr ⟨_, rfl⟩)
  | locked t now =>
    have hreg : s.waker.registered = some t := he.elim (fun ht => h.sound.only t _ ht rfl) fun ht =>
      h.sound.only t _ ht rfl
    refine .of_thread hdated hsound hreg Waker.place_goto_self rfl (fun heq => by cases heq)
      fun d hd r _ _ => .inr (.inr fun a _ => ?_)
    obtain rfl := Option.some.inj hd
    exact le_max_left _ _
  | execute t e =>
    obtain ⟨id, ht⟩ := he
    exact .goes_on hdated hsound (h.sound.only t _ ht rfl) ht (.inr ⟨_, rfl⟩)
  | executed t =>
    obtain ⟨id, ht⟩ := he
    exact .goes_on hdated hsound (h.sound.only t _ ht rfl) Waker.place_goto_self (.inl rfl)
  | look t now =>
    have hreg := h.sound.only t _ he rfl
    cases hlook : s.runs.secondsUntilNextJob now with
    | none =>
      have hact : s.act parseInt workerId (.look t now) = s.drive (.retire t) := by
        simp [WorkerState.act, hlook]
      rw [hact] at hdated hsound ⊢
      exact .of_thread hdated hsound hreg Waker.place_goto_self rfl
        (fun _ r hr hq => absurd hq (JobRuns.no_queued_of_look h.dated hlook r hr))
          fun _ hd => by cases hd
    | some delay =>
      have hact : s.act parseInt workerId (.look t now) = s.drive (.doze t (.until now delay)) := by
        simp [WorkerState.act, hlook]
      rw [hact] at hdated hsound ⊢
      refine .of_thread hdated hsound hreg Waker.place_goto_self rfl (fun heq => by cases heq)
        fun d hd r hr hq => .inr (.inr fun a ha => ?_)
      obtain rfl := Option.some.inj hd
      exact JobRuns.limit_le_of_look hlook hr hq ha
  | settle t d =>
    have hreg := h.sound.only t _ he rfl
    by_cases hpending : s.waker.pending = true
    · have hact : (s.act parseInt workerId (.settle t d)).waker = s.waker.goto t .top :=
        if_pos hpending
      exact .goes_on hdated hsound (hact ▸ hreg) (hact ▸ Waker.place_goto_self) (.inl rfl)
    · have hact : s.act parseInt workerId (.settle t d) =
          { s with waker := { s.waker.goto t (.sleeping d) with event := false } } := by
        simp [WorkerState.act, drive, Waker.act, hpending]
      rw [hact] at hdated hsound ⊢
      refine .of_thread hdated hsound hreg Waker.place_goto_self rfl (fun heq => by cases heq)
        fun d' hd' => ?_
      obtain rfl := Option.some.inj hd'
      exact h.resting t _ d he rfl
  | leave t => exact h.leave he
  | resume t =>
    obtain ⟨d, ht⟩ := he
    have hreg : s.waker.registered = some t := ht.elim (fun ht => h.sound.only t _ ht rfl) fun ht =>
      h.sound.only t _ ht rfl
    exact .goes_on hdated hsound hreg Waker.place_goto_self (.inl rfl)
  | raise t => exact absurd rfl (hraise t)
  | exit t => exact h.exit he

/-- Someone looks after a queued run: a caller who still has to call `wake`, or the thread in the
loop. That thread does not leave without another pass, and a wait of it is cut short by a call or
ends by the moment the run becomes available, or a second after the thread looked. -/
def LooksAfter (s : WorkerState) (r : JobRun) : Prop :=
  s.owed = true ∨ ∃ t p, s.waker.registered = some t ∧ s.waker.place t = some p ∧
    p.draining = true ∧
    (p = .leaving → s.waker.pending = true) ∧
    ∀ d, p.rest = some d → s.waker.pending = true ∧ s.waker.event = true ∨
      ∀ a, r.availableAt = some a → d.limit ≤ max (d.since + Time.seconds 1) a

theorem Tended.looksAfter (h : Tended s) {r : JobRun} (hr : r ∈ s.runs.rows)
    (hq : r.status = .queued) : LooksAfter s r := by
  by_cases howed : s.owed = true
  · exact .inl howed
  obtain ⟨t, p, hreg, hplace, hp⟩ := (h.attended r hr hq).resolve_left howed
  refine .inr ⟨t, p, hreg, hplace, hp, ?_, fun d hd => ?_⟩
  · rintro rfl
    exact (h.leaving t hplace r hr hq).resolve_left howed
  · exact ((h.resting t p d hplace hd r hr hq).resolve_left howed).imp_left fun hpending =>
      ⟨hpending, h.sound.alarm hpending⟩

/-- After any run, with exceptions or without, a call of `wake` that does not meet a thread about to
die of an exception makes the worker look after every queued run, for as long as no exception ends
the drain. -/
theorem queued_run_tended (parseInt : String → Option Int) (workerId : String)
    (es es' : List DrainEvent) (hes : Along (act parseInt workerId) Enabled {} es)
    (hquiet : ∀ t, (es.foldl (act parseInt workerId) {}).waker.registered = some t →
      (es.foldl (act parseInt workerId) {}).waker.place t ≠ some .raised)
    (hes' : Along (act parseInt workerId) Calm
      (act parseInt workerId (es.foldl (act parseInt workerId) {}) .wake) es') :
    ∀ r ∈ ((es ++ DrainEvent.wake :: es').foldl (act parseInt workerId) {}).runs.rows,
      r.status = .queued →
      LooksAfter ((es ++ DrainEvent.wake :: es').foldl (act parseInt workerId) {}) r := by
  obtain ⟨hsound, hdated⟩ := sound_run hes
  rw [List.foldl_append, List.foldl_cons]
  have htended :=
    hes'.invariant (I := Tended) (fun _ _ hs he => hs.act he) (tended_wake hdated hsound hquiet)
  exact fun r hr hq => htended.looksAfter hr hq

def submitted : List DrainEvent := [.commit (.submit none (Time.seconds 10) .maintenance .manual)]

/-- The thread finds a run that is not available yet, and sleeps. -/
def asleep : List DrainEvent :=
  [.begin 0, .recover 0 0, .claim 0 0, .look 0 0, .settle 0 (.until 0 (Time.seconds 10))]

theorem queued_run_tended_asleep :
    ((submitted ++ DrainEvent.wake :: asleep).foldl (act (fun _ => none) "worker") {}).runs.rows.map
      (·.status) = [.queued] ∧
      ∀ r ∈ ((submitted ++ DrainEvent.wake :: asleep).foldl
        (act (fun _ => none) "worker") {}).runs.rows,
        r.status = .queued → LooksAfter
          ((submitted ++ DrainEvent.wake :: asleep).foldl (act (fun _ => none) "worker") {}) r :=
  ⟨by
    decide, queued_run_tended (fun _ => none) "worker" submitted asleep ⟨rfl, trivial⟩
      (fun _ h => nomatch h)
    ⟨⟨rfl, nofun⟩, ⟨rfl, nofun⟩, ⟨rfl, nofun⟩, ⟨rfl, nofun⟩, ⟨rfl, nofun⟩, trivial⟩⟩

end WorkerState

end Euvieouvi
