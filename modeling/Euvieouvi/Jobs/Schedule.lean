import Euvieouvi.Jobs.Queue
import Mathlib.Logic.Function.Basic

/-!
# Daily schedules

`_run_jobs_if_due` as the transactions of one poll after the other: for each job it looks for an
active run, looks again inside `submit_job`, inserts the run, and stores the date. Between two of
them the transactions of the other threads (`JobEvent`) happen in any order. `fired` are the runs
that the schedule has inserted, with the local time of the poll, `seen` the jobs that a poll has
found active, and `polls` the polls that have ended.
-/

namespace Euvieouvi

/-- A local date, as its ordinal, and a time of day. -/
structure LocalTime where
  date : Int
  hour : Nat
  minute : Nat
deriving DecidableEq, Repr

namespace LocalTime

/-- `(now.hour, now.minute) < (hour, minute)`. -/
def before (now : LocalTime) (hour minute : Int) : Bool :=
  now.hour < hour || now.hour == hour && now.minute < minute

/-- `t` is not after `now`. -/
def upTo (t now : LocalTime) : Prop :=
  t.date < now.date ∨ t.date = now.date ∧ now.before t.hour t.minute = false

instance (t now : LocalTime) : Decidable (t.upTo now) := by unfold upTo; infer_instance

theorem date_le_of_upTo {t now : LocalTime} (h : t.upTo now) : t.date ≤ now.date := by
  rcases h with h | ⟨h, -⟩ <;> omega

end LocalTime

/-- `JOBS`, in its order. -/
def JobId.jobs : List JobId :=
  [.syncPlex, .watchedPlexToJellyfin, .watchedJellyfinToPlex, .syncJellyfin, .metadata,
    .catalogImages, .catalogReconcile,
    .asyncTasks, .maintenance]

theorem JobId.nodup_jobs : JobId.jobs.Nodup := by decide

theorem JobId.mem_jobs (job : JobId) : job ∈ JobId.jobs := by cases job <;> decide

def JobId.defaultTime : JobId → String
  | .syncPlex => "03:00"
  | .watchedPlexToJellyfin => "03:15"
  | .watchedJellyfinToPlex => "03:30"
  | .syncJellyfin => "03:45"
  | .metadata => "04:00"
  | .catalogImages => "04:30"
  | .catalogReconcile => "04:45"
  | .asyncTasks => "00:30"
  | .maintenance => "05:00"

/-- The settings `jobs.<id>.enabled` and `jobs.<id>.time`. -/
structure JobSettings where
  enabled : JobId → Option String
  time : JobId → Option String

namespace JobSettings

/-- Hour and minute of the configured time; a text that is not two numbers has none. -/
def timeOfDay (parseInt : String → Option Int) (settings : JobSettings) (job : JobId) :
    Option (Int × Int) :=
  match ((settings.time job).getD job.defaultTime).toList.splitOn ':' with
  | [hour, minute] => do return (← parseInt (.ofList hour), ← parseInt (.ofList minute))
  | _ => none

/-- The job is enabled and its time of day has come. -/
def due (parseInt : String → Option Int) (settings : JobSettings) (job : JobId)
    (now : LocalTime) : Bool :=
  (settings.enabled job).getD "false" == "true" &&
    (settings.timeOfDay parseInt job).any fun (hour, minute) => !now.before hour minute

end JobSettings

/-- What the poll does next for its current job. -/
inductive PollPhase | check | submit | insert | recheck | raced | mark
deriving DecidableEq, Repr

structure SchedulePoll where
  now : LocalTime
  /-- `values.get(last_key)`, as read when the poll began. -/
  lastDates : JobId → Option Int
  /-- The jobs left to evaluate, the current one first. -/
  jobs : List JobId
  phase : PollPhase := .check

structure ScheduleState where
  runs : JobRuns := .empty
  lastDate : JobId → Option Int := fun _ => none
  poll : Option SchedulePoll := none
  lastPoll : Option LocalTime := none
  fired : List (JobRun × LocalTime) := []
  seen : List (JobId × Int) := []
  polls : List LocalTime := []

inductive ScheduleEvent
  | job (e : JobEvent)
  | beginPoll (now : LocalTime)
  | advance (attempts : Option String) (utcNow : Time)

namespace ScheduleState

def hasActive (s : ScheduleState) (job : JobId) : Bool :=
  s.runs.rows.any fun r => decide (r.jobId = job) && r.status.active

def see (s : ScheduleState) (job : JobId) (date : Int) : ScheduleState :=
  { s with seen := (job, date) :: s.seen }

def go (s : ScheduleState) (p : SchedulePoll) (phase : PollPhase) : ScheduleState :=
  { s with poll := some { p with phase := phase } }

/-- `continue`. -/
def next (s : ScheduleState) (p : SchedulePoll) (rest : List JobId) : ScheduleState :=
  { s with poll := some { p with jobs := rest, phase := .check } }

def endPoll (s : ScheduleState) (p : SchedulePoll) : ScheduleState :=
  { s with poll := none, polls := p.now :: s.polls }

/-- The insert of `submit_job`. -/
def fire (parseInt : String → Option Int) (attempts : Option String) (utcNow : Time)
    (s : ScheduleState) (job : JobId) (now : LocalTime) : ScheduleState :=
  { s with
    runs := s.runs.submitJob parseInt attempts utcNow job .scheduled
    fired := (.submitted s.runs.nextId job .scheduled (maxAttemptsOf parseInt attempts) utcNow,
      now) :: s.fired }

/-- `_mark_job_schedule_handled`. -/
def markHandled (s : ScheduleState) (job : JobId) (date : Int) : ScheduleState :=
  { s with lastDate := Function.update s.lastDate job (some date) }

variable (parseInt : String → Option Int) (settings : JobSettings)

/-- The next transaction of the poll for its current job. -/
def evaluate (attempts : Option String) (utcNow : Time) (s : ScheduleState) (p : SchedulePoll)
    (job : JobId) (rest : List JobId) : ScheduleState :=
  match p.phase with
  | .check =>
    if settings.due parseInt job p.now && decide (p.lastDates job ≠ some p.now.date) then
      if s.hasActive job then (s.see job p.now.date).go p .mark else s.go p .submit
    else s.next p rest
  | .submit => if s.hasActive job then (s.see job p.now.date).go p .raced else s.go p .insert
  | .insert =>
    -- the unique index on the active run of a job rejects the row
    if s.hasActive job then (s.see job p.now.date).go p .recheck
    else (s.fire parseInt attempts utcNow job p.now).go p .mark
  -- `submit_job` raises the error again when the run is no longer active, and the poll ends there
  | .recheck => if s.hasActive job then s.go p .raced else s.endPoll p
  | .raced => if s.hasActive job then s.go p .mark else s.next p rest
  | .mark => (s.markHandled job p.now.date).next p rest

def step (s : ScheduleState) : ScheduleEvent → ScheduleState
  | .job e => { s with runs := s.runs.step parseInt e }
  | .beginPoll now =>
    if s.poll.isSome then s
    else { s with
      poll := some { now := now, lastDates := s.lastDate, jobs := JobId.jobs },
      lastPoll := some now }
  | .advance attempts utcNow =>
    match s.poll with
    | none => s
    | some p =>
      match p.jobs with
      | [] => s.endPoll p
      | job :: rest => s.evaluate parseInt settings attempts utcNow p job rest

/-- Polls begin at times that do not go back, and nothing but a poll submits a scheduled run. -/
def Allowed (s : ScheduleState) : ScheduleEvent → Prop
  | .job (.submit _ _ _ trigger) => trigger ≠ .scheduled
  | .beginPoll now => ∀ t ∈ s.lastPoll, t.upTo now
  | _ => True

instance (s : ScheduleState) (e : ScheduleEvent) : Decidable (s.Allowed e) := by
  unfold Allowed; split <;> infer_instance

/-- The schedule has queued the job on that date, or a poll has found it active. -/
def Handled (s : ScheduleState) (job : JobId) (date : Int) : Prop :=
  (∃ f ∈ s.fired, f.1.jobId = job ∧ f.2.date = date) ∨ (job, date) ∈ s.seen

instance (s : ScheduleState) (job : JobId) (date : Int) : Decidable (s.Handled job date) := by
  unfold Handled; infer_instance

/-- No poll is broken off by the error of `submit_job` while a job after the current one is due and
not handled. -/
def Unbroken (s : ScheduleState) : ScheduleEvent → Prop
  | .advance _ _ =>
    match s.poll with
    | some ⟨now, _, job :: rest, .recheck⟩ =>
      s.hasActive job = true ∨ ∀ other ∈ rest, settings.due parseInt other now = true →
        s.Handled other now.date
    | _ => True
  | _ => True

instance (s : ScheduleState) (e : ScheduleEvent) : Decidable (s.Unbroken parseInt settings e) := by
  unfold Unbroken; split
  · split <;> infer_instance
  · infer_instance

structure FiresOnce (s : ScheduleState) : Prop where
  once : (s.fired.map fun f => (f.1.jobId, f.2.date)).Nodup
  due : ∀ f ∈ s.fired, settings.due parseInt f.1.jobId f.2 = true
  handled : ∀ now ∈ s.polls, ∀ job, settings.due parseInt job now = true → s.Handled job now.date

/-! ### What holds between two transactions -/

variable {parseInt settings} {s s' : ScheduleState} {p : SchedulePoll} {job : JobId}
  {rest : List JobId} {date : Int}

theorem Handled.mono (h : s.Handled job date) (hfired : s.fired ⊆ s'.fired)
    (hseen : s.seen ⊆ s'.seen) :
    s'.Handled job date := by
  rcases h with ⟨f, hf, hfj⟩ | h
  · exact .inl ⟨f, hfired hf, hfj⟩
  · exact .inr (hseen h)

theorem handled_see : (s.see job date).Handled job date := .inr List.mem_cons_self

/-- The run has been inserted and the date is about to be stored. -/
def Pending (s : ScheduleState) (f : JobRun × LocalTime) : Prop :=
  ∃ p rest, s.poll = some p ∧ p.jobs = f.1.jobId :: rest ∧ p.phase = .mark ∧ f.2.date = p.now.date

variable (parseInt settings) in
/-- What holds of the current job of a poll. -/
structure AtJob (s : ScheduleState) (p : SchedulePoll) (job : JobId) : Prop where
  due : p.phase ≠ .check → settings.due parseInt job p.now = true
  fresh : p.phase ≠ .check → s.lastDate job ≠ some p.now.date
  found : p.phase ∈ [.recheck, .raced, .mark] → s.Handled job p.now.date

variable (parseInt settings) in
structure Polling (s : ScheduleState) (p : SchedulePoll) : Prop where
  last : s.lastPoll = some p.now
  nodup : p.jobs.Nodup
  snapshot : ∀ job ∈ p.jobs, p.lastDates job = s.lastDate job
  evaluated : ∀ job, job ∉ p.jobs → settings.due parseInt job p.now = true →
    s.Handled job p.now.date
  current : ∀ job rest, p.jobs = job :: rest → s.AtJob parseInt settings p job

variable (parseInt settings) in
structure Inv (s : ScheduleState) : Prop extends s.FiresOnce parseInt settings where
  marked : ∀ job date, s.lastDate job = some date → s.Handled job date
  reached : ∀ job date, s.lastDate job = some date → ∃ t, s.lastPoll = some t ∧ date ≤ t.date
  recorded : ∀ f ∈ s.fired,
    (∃ date, s.lastDate f.1.jobId = some date ∧ f.2.date ≤ date) ∨ s.Pending f
  polling : ∀ p, s.poll = some p → s.Polling parseInt settings p

theorem inv_start : ({} : ScheduleState).Inv parseInt settings where
  once := by simp
  due := by simp
  handled := by simp
  marked := by simp
  reached := by simp
  recorded := by simp
  polling := by simp

namespace Inv

theorem setRuns (h : s.Inv parseInt settings) (runs : JobRuns) :
    ({ s with runs := runs } : ScheduleState).Inv parseInt settings :=
  ⟨⟨h.once, h.due, h.handled⟩, h.marked, h.reached, h.recorded, fun p hp =>
    have hpoll := h.polling p hp
    ⟨hpoll.last, hpoll.nodup, hpoll.snapshot, hpoll.evaluated, fun job rest hjobs =>
      have hcur := hpoll.current job rest hjobs
      ⟨hcur.due, hcur.fresh, hcur.found⟩⟩⟩

theorem see (h : s.Inv parseInt settings) (job : JobId) (date : Int) :
    (s.see job date).Inv parseInt settings := by
  have hmono : ∀ {other d}, s.Handled other d → (s.see job date).Handled other d :=
    fun h => h.mono (List.Subset.refl _) (List.subset_cons_self ..)
  refine ⟨⟨h.once, h.due, fun now hnow j hj => hmono (h.handled now hnow j hj)⟩, fun j d hd =>
    hmono (h.marked j d hd),
    h.reached, h.recorded, fun p hp => ?_⟩
  have hpoll := h.polling p hp
  refine ⟨hpoll.last, hpoll.nodup, hpoll.snapshot, fun j hj hdue =>
    hmono (hpoll.evaluated j hj hdue), fun j rest hjobs => ?_⟩
  have hcur := hpoll.current j rest hjobs
  exact ⟨hcur.due, hcur.fresh, fun hphase => hmono (hcur.found hphase)⟩

/-- Outside of the last phase every run of the schedule has its date stored. -/
theorem stored (h : s.Inv parseInt settings) (hp : s.poll = some p) (hphase : p.phase ≠ .mark)
    {f : JobRun × LocalTime}
    (hf : f ∈ s.fired) : ∃ date, s.lastDate f.1.jobId = some date ∧ f.2.date ≤ date := by
  rcases h.recorded f hf with h | ⟨p', rest, hp', -, hmark, -⟩
  · exact h
  · rw [hp] at hp'
    cases hp'
    exact absurd hmark hphase

theorem go (h : s.Inv parseInt settings) (hp : s.poll = some p) (hjobs : p.jobs = job :: rest)
    (hmark : p.phase ≠ .mark)
    {phase : PollPhase} (hdue : settings.due parseInt job p.now = true)
    (hfresh : s.lastDate job ≠ some p.now.date)
    (hfound : phase ∈ [.recheck, .raced, .mark] → s.Handled job p.now.date) :
    (s.go p phase).Inv parseInt settings := by
  refine ⟨⟨h.once, h.due, h.handled⟩, h.marked, h.reached, fun f hf => .inl (h.stored hp hmark hf),
    fun p' hp' => ?_⟩
  cases hp'
  have hpoll := h.polling p hp
  refine ⟨hpoll.last, hpoll.nodup, hpoll.snapshot, hpoll.evaluated, fun j rest' hj => ?_⟩
  obtain ⟨rfl, -⟩ := List.cons.inj (hjobs.symm.trans hj)
  exact ⟨fun _ => hdue, fun _ => hfresh, hfound⟩

theorem next (h : s.Inv parseInt settings) (hp : s.poll = some p) (hjobs : p.jobs = job :: rest)
    (hmark : p.phase ≠ .mark)
    (hdone : settings.due parseInt job p.now = true → s.Handled job p.now.date) :
    (s.next p rest).Inv parseInt settings := by
  refine ⟨⟨h.once, h.due, h.handled⟩, h.marked, h.reached, fun f hf => .inl (h.stored hp hmark hf),
    fun p' hp' => ?_⟩
  cases hp'
  have hpoll := h.polling p hp
  have hnodup := hpoll.nodup
  have hsnap := hpoll.snapshot
  have heval := hpoll.evaluated
  rw [hjobs] at hnodup hsnap heval
  refine ⟨hpoll.last, (List.nodup_cons.1 hnodup).2, fun j hj => hsnap j (List.mem_cons_of_mem _ hj),
    fun j hj hdue => ?_,
    fun _ _ _ => ⟨fun hc => absurd rfl hc, fun hc => absurd rfl hc, fun hc => by simp at hc⟩⟩
  by_cases hjob : j = job
  · subst hjob; exact hdone hdue
  · exact heval j (by simp [hjob, hj]) hdue

theorem endPoll (h : s.Inv parseInt settings) (hp : s.poll = some p)
    (hmark : p.phase ≠ .mark ∨ p.jobs = [])
    (hdone : ∀ job ∈ p.jobs, settings.due parseInt job p.now = true → s.Handled job p.now.date) :
    (s.endPoll p).Inv parseInt settings := by
  refine ⟨⟨h.once, h.due, fun now hnow j hdue => ?_⟩, h.marked, h.reached, fun f hf => .inl ?_,
    fun p' hp' => by cases hp'⟩
  · rcases List.mem_cons.1 hnow with rfl | hnow
    · by_cases hj : j ∈ p.jobs
      · exact hdone j hj hdue
      · exact (h.polling p hp).evaluated j hj hdue
    · exact h.handled now hnow j hdue
  · rcases h.recorded f hf with h | ⟨p', rest, hp', hjobs, hphase, -⟩
    · exact h
    · rw [hp] at hp'
      cases hp'
      rcases hmark with hmark | hmark
      · exact absurd hphase hmark
      · rw [hmark] at hjobs; cases hjobs

/-- No earlier run of the schedule for the job is of the date of the poll. -/
theorem not_fired (h : s.Inv parseInt settings) (hp : s.poll = some p) (hmark : p.phase ≠ .mark)
    (hfresh : s.lastDate job ≠ some p.now.date) {f : JobRun × LocalTime} (hf : f ∈ s.fired)
    (hjob : f.1.jobId = job) :
    f.2.date ≠ p.now.date := by
  intro hdate
  obtain ⟨d, hd, hle⟩ := h.stored hp hmark hf
  obtain ⟨t, ht, hdt⟩ := h.reached _ d hd
  rw [(h.polling p hp).last] at ht
  obtain rfl := Option.some.inj ht
  have heq : d = p.now.date := by omega
  exact hfresh (by rw [← hjob, hd, heq])

theorem fire (h : s.Inv parseInt settings) (hp : s.poll = some p) (hjobs : p.jobs = job :: rest)
    (hmark : p.phase ≠ .mark)
    (hdue : settings.due parseInt job p.now = true) (hfresh : s.lastDate job ≠ some p.now.date)
    (attempts : Option String) (utcNow : Time) :
    ((s.fire parseInt attempts utcNow job p.now).go p .mark).Inv parseInt settings := by
  have hmono : ∀ {other d}, s.Handled other d →
      ((s.fire parseInt attempts utcNow job p.now).go p .mark).Handled other d :=
    fun h => h.mono (List.subset_cons_self ..) (List.Subset.refl _)
  refine ⟨⟨?_, ?_, fun now hnow j hj => hmono (h.handled now hnow j hj)⟩, fun j d hd =>
    hmono (h.marked j d hd), h.reached,
    ?_, ?_⟩
  · refine List.nodup_cons.2 ⟨fun hmem => ?_, h.once⟩
    obtain ⟨f, hf, heq⟩ := List.mem_map.1 hmem
    obtain ⟨hjob, hdate⟩ := Prod.mk.inj heq
    exact h.not_fired hp hmark hfresh hf hjob hdate
  · intro f hf
    rcases List.mem_cons.1 hf with rfl | hf
    · exact hdue
    · exact h.due f hf
  · intro f hf
    rcases List.mem_cons.1 hf with rfl | hf
    · exact .inr ⟨_, rest, rfl, hjobs, rfl, rfl⟩
    · exact .inl (h.stored hp hmark hf)
  · rintro p' hp'
    cases hp'
    have hpoll := h.polling p hp
    refine ⟨hpoll.last, hpoll.nodup, hpoll.snapshot, fun j hj hd => hmono (hpoll.evaluated j hj hd),
      fun j rest' hj => ?_⟩
    obtain ⟨rfl, -⟩ := List.cons.inj (hjobs.symm.trans hj)
    exact ⟨fun _ => hdue, fun _ => hfresh, fun _ => .inl ⟨_, List.mem_cons_self, rfl, rfl⟩⟩

theorem markHandled (h : s.Inv parseInt settings) (hp : s.poll = some p)
    (hjobs : p.jobs = job :: rest)
    (hfound : s.Handled job p.now.date) :
    ((s.markHandled job p.now.date).next p rest).Inv parseInt settings := by
  have hpoll := h.polling p hp
  have hlast : ∀ {j d}, Function.update s.lastDate job (some p.now.date) j = some d →
      (j = job ∧ d = p.now.date) ∨ s.lastDate j = some d := by
    intro j d hd
    by_cases hj : j = job
    · subst hj
      rw [Function.update_self] at hd
      exact .inl ⟨rfl, (Option.some.inj hd).symm⟩
    · rw [Function.update_of_ne hj] at hd
      exact .inr hd
  refine ⟨⟨h.once, h.due, h.handled⟩, fun j d hd => ?_, fun j d hd => ?_, fun f hf => .inl ?_,
    fun p' hp' => ?_⟩
  · rcases hlast hd with ⟨rfl, rfl⟩ | hd
    · exact hfound
    · exact h.marked j d hd
  · rcases hlast hd with ⟨rfl, rfl⟩ | hd
    · exact ⟨p.now, hpoll.last, le_rfl⟩
    · exact h.reached j d hd
  · show ∃ d, Function.update s.lastDate job (some p.now.date) f.1.jobId = some d ∧ f.2.date ≤ d
    by_cases hj : f.1.jobId = job
    · refine ⟨p.now.date, by rw [hj, Function.update_self], ?_⟩
      rcases h.recorded f hf with ⟨d, hd, hle⟩ | ⟨p', rest', hp', -, -, hdate⟩
      · obtain ⟨t, ht, hdt⟩ := h.reached _ d hd
        rw [hpoll.last] at ht
        obtain rfl := Option.some.inj ht
        omega
      · rw [hp] at hp'
        cases hp'
        omega
    · rw [Function.update_of_ne hj]
      rcases h.recorded f hf with hd | ⟨p', rest', hp', hjobs', -, -⟩
      · exact hd
      · rw [hp] at hp'
        cases hp'
        obtain ⟨hjob, -⟩ := List.cons.inj (hjobs.symm.trans hjobs')
        exact absurd hjob.symm hj
  · cases hp'
    have hnodup := hpoll.nodup
    have hsnap := hpoll.snapshot
    have heval := hpoll.evaluated
    rw [hjobs] at hnodup hsnap heval
    refine ⟨hpoll.last, (List.nodup_cons.1 hnodup).2, fun j hj => ?_, fun j hj hdue => ?_,
      fun _ _ _ => ⟨fun hc => absurd rfl hc, fun hc => absurd rfl hc, fun hc => by simp at hc⟩⟩
    · have hne : j ≠ job := by
        rintro rfl
        exact (List.nodup_cons.1 hnodup).1 hj
      show p.lastDates j = Function.update s.lastDate job (some p.now.date) j
      rw [Function.update_of_ne hne]
      exact hsnap j (List.mem_cons_of_mem _ hj)
    · by_cases hjob : j = job
      · subst hjob; exact hfound
      · exact heval j (by simp [hjob, hj]) hdue

theorem beginPoll (h : s.Inv parseInt settings) (hp : s.poll = none) {now : LocalTime}
    (hnow : ∀ t ∈ s.lastPoll, t.upTo now) :
    ({ s with
      poll := some { now := now, lastDates := s.lastDate, jobs := JobId.jobs }
      lastPoll := some now } : ScheduleState).Inv parseInt settings := by
  refine ⟨⟨h.once, h.due, h.handled⟩, h.marked, fun j d hd => ?_, fun f hf => .inl ?_,
    fun p' hp' => ?_⟩
  · obtain ⟨t, ht, hle⟩ := h.reached j d hd
    exact ⟨now, rfl, hle.trans (LocalTime.date_le_of_upTo (hnow t ht))⟩
  · rcases h.recorded f hf with hd | ⟨p', -, hp', -⟩
    · exact hd
    · rw [hp] at hp'; cases hp'
  · cases hp'
    exact ⟨rfl, JobId.nodup_jobs, fun _ _ => rfl, fun j hj => absurd (JobId.mem_jobs j) hj,
      fun _ _ _ => ⟨fun hc => absurd rfl hc, fun hc => absurd rfl hc, fun hc => by simp at hc⟩⟩

/-- Each transaction of a poll keeps the invariant, the broken end of a poll if nothing was left to
do. -/
theorem evaluate (h : s.Inv parseInt settings) (hp : s.poll = some p) (hjobs : p.jobs = job :: rest)
    (hend : p.phase = .recheck → s.hasActive job = false →
      ∀ other ∈ rest, settings.due parseInt other p.now = true → s.Handled other p.now.date)
    (attempts : Option String) (utcNow : Time) :
    (s.evaluate parseInt settings attempts utcNow p job rest).Inv parseInt settings := by
  have hcur := (h.polling p hp).current job rest hjobs
  have hsnap := (h.polling p hp).snapshot job (by simp [hjobs])
  have hsee := h.see job p.now.date
  unfold ScheduleState.evaluate
  split
  next hphase =>
    have hmark : p.phase ≠ .mark := by rw [hphase]; decide
    split
    next hdue =>
      simp only [Bool.and_eq_true, decide_eq_true_eq, hsnap] at hdue
      split
      · exact hsee.go hp hjobs hmark hdue.1 hdue.2 fun _ => handled_see
      · exact h.go hp hjobs hmark hdue.1 hdue.2 fun hc => by simp at hc
    next hdue =>
      refine h.next hp hjobs hmark fun hd => ?_
      simp only [hd, Bool.true_and, decide_eq_true_eq, not_not, hsnap] at hdue
      exact h.marked job _ hdue
  next hphase =>
    have hmark : p.phase ≠ .mark := by rw [hphase]; decide
    have hdue := hcur.due (by rw [hphase]; decide)
    have hfresh := hcur.fresh (by rw [hphase]; decide)
    split
    · exact hsee.go hp hjobs hmark hdue hfresh fun _ => handled_see
    · exact h.go hp hjobs hmark hdue hfresh fun hc => by simp at hc
  next hphase =>
    have hmark : p.phase ≠ .mark := by rw [hphase]; decide
    have hdue := hcur.due (by rw [hphase]; decide)
    have hfresh := hcur.fresh (by rw [hphase]; decide)
    split
    · exact hsee.go hp hjobs hmark hdue hfresh fun _ => handled_see
    · exact h.fire hp hjobs hmark hdue hfresh attempts utcNow
  next hphase =>
    have hmark : p.phase ≠ .mark := by rw [hphase]; decide
    have hfound := hcur.found (by rw [hphase]; decide)
    split
    · exact h.go hp hjobs hmark (hcur.due (by rw [hphase]; decide))
        (hcur.fresh (by rw [hphase]; decide)) fun _ => hfound
    next hactive =>
      refine h.endPoll hp (.inl hmark) fun other hother hdue => ?_
      rw [hjobs] at hother
      rcases List.mem_cons.1 hother with rfl | hother
      · exact hfound
      · exact hend hphase (by simpa using hactive) other hother hdue
  next hphase =>
    have hmark : p.phase ≠ .mark := by rw [hphase]; decide
    have hfound := hcur.found (by rw [hphase]; decide)
    split
    · exact h.go hp hjobs hmark (hcur.due (by rw [hphase]; decide))
        (hcur.fresh (by rw [hphase]; decide)) fun _ => hfound
    · exact h.next hp hjobs hmark fun _ => hfound
  next hphase => exact h.markHandled hp hjobs (hcur.found (by rw [hphase]; decide))

theorem step (h : s.Inv parseInt settings) {e : ScheduleEvent} (he : s.Allowed e)
    (hunbroken : s.Unbroken parseInt settings e) :
    (s.step parseInt settings e).Inv parseInt settings := by
  cases e with
  | job e => exact h.setRuns _
  | beginPoll now =>
    show (if s.poll.isSome then s else _ : ScheduleState).Inv parseInt settings
    split
    · exact h
    next hnone => exact h.beginPoll (by simpa using hnone) he
  | advance attempts utcNow =>
    dsimp only [ScheduleState.step]
    split
    · exact h
    next p hp =>
      split
      next hjobs =>
        refine h.endPoll hp (.inr hjobs) fun job hjob => ?_
        rw [hjobs] at hjob
        cases hjob
      next job rest hjobs =>
        refine h.evaluate hp hjobs (fun hphase hactive => ?_) attempts utcNow
        obtain ⟨now, lastDates, jobs, phase⟩ := p
        subst hjobs hphase
        simp only [Unbroken, hp, hactive, Bool.false_eq_true, false_or] at hunbroken
        exact hunbroken

end Inv

/-- A poll that is broken off leaves out the jobs after the current one. -/
theorem unbroken_of_firesOnce {e : ScheduleEvent}
    (hstep : (s.step parseInt settings e).FiresOnce parseInt settings) :
    s.Unbroken parseInt settings e := by
  cases e with
  | advance attempts utcNow =>
    simp only [Unbroken]
    split
    next now lastDates job rest hp =>
      by_cases hactive : s.hasActive job = true
      · exact .inl hactive
      · refine .inr fun other hother hdue => ?_
        have hend : s.step parseInt settings (.advance attempts utcNow) =
            s.endPoll ⟨now, lastDates, job :: rest, .recheck⟩ := by
          simp only [ScheduleState.step, hp, ScheduleState.evaluate]
          exact if_neg hactive
        rw [hend] at hstep
        exact hstep.handled now List.mem_cons_self other hdue
    · trivial
  | _ => trivial

/-- From an empty queue, whatever the other threads do: in every state the schedule has queued each
job at most once on a date and not before its time, and the polls that have ended have left no due
job out, exactly when no poll was broken off with a due job still to evaluate. -/
theorem fires_once_iff (parseInt : String → Option Int) (settings : JobSettings)
    (es : List ScheduleEvent) (hes : Along (step parseInt settings) Allowed {} es) :
    (∀ pre, pre <+: es → (pre.foldl (step parseInt settings) {}).FiresOnce parseInt settings) ↔
      Along (step parseInt settings) (Unbroken parseInt settings) {} es :=
  hes.iff_property (fun _ h => h.toFiresOnce) (fun _ _ h he hok => h.step he hok)
    (fun _ _ _ hstep => unbroken_of_firesOnce hstep) inv_start

/-- A synchronization that another thread submits while the poll submits it, and that ends before
the poll looks again; the next poll belongs to the next day. -/
def racedPoll : List ScheduleEvent :=
  [.beginPoll ⟨0, 23, 59⟩, .advance none 0, .advance none 0,
    .job (.submit none 0 .syncPlex .manual), .job (.claim "w" 0),
    .advance none 0, .job (.monitor "w" 1 0 ⟨.succeeded, 100, 0, 0, 0, ""⟩), .advance none 0,
      .beginPoll ⟨1, 0, 0⟩]

def plainInt (text : String) : Option Int :=
  if text = "00" then some 0 else if text = "3" then some 3 else none

def bothAtMidnight : JobSettings where
  enabled job := if job ∈ [JobId.syncPlex, .watchedPlexToJellyfin] then some "true" else none
  time _ := some "00:00"

theorem fires_once_iff_quiet_poll :
    let es : List ScheduleEvent := .beginPoll ⟨0, 23, 59⟩ :: List.replicate 16 (.advance none 0)
    Along (step plainInt bothAtMidnight) (Unbroken plainInt bothAtMidnight) {} es ∧
      ∀ pre, pre <+: es →
        (pre.foldl (step plainInt bothAtMidnight) {}).FiresOnce plainInt bothAtMidnight :=
  have hok := by decide +kernel
  ⟨hok, (fires_once_iff plainInt bothAtMidnight _ (by decide +kernel)).2 hok⟩

/-- The poll ends with the error, and the propagation that was due is never queued for the first
day. -/
theorem raced_submit_skips_the_other_jobs :
    Along (step plainInt bothAtMidnight) Allowed {} racedPoll ∧
      ¬(racedPoll.foldl (step plainInt bothAtMidnight) {}).FiresOnce plainInt bothAtMidnight := by
  refine ⟨by decide +kernel, fun h => ?_⟩
  have hdue : bothAtMidnight.due plainInt .watchedPlexToJellyfin ⟨0, 23, 59⟩ = true := by
    decide +kernel
  have hpoll : (⟨0, 23, 59⟩ : LocalTime) ∈
      (racedPoll.foldl (step plainInt bothAtMidnight) {}).polls := by decide +kernel
  exact absurd (h.handled _ hpoll _ hdue) (by decide +kernel)

end ScheduleState

end Euvieouvi
