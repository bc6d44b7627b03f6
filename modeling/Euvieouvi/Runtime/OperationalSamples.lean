import Euvieouvi.Database
import Mathlib.Algebra.Order.Ring.Rat
import Mathlib.Algebra.Field.Rat

/-!
# Operational samples

`record_operational_sample` and `_operational_alerts` (`observability.py`), which the scheduler
calls in every poll. A sample is taken when the latest one is five minutes old, and each one that is
taken removes those older than thirty days. What `operational_snapshot` reads of the queues, the
sources and the files is an input of a call, as is the clock.
-/

namespace Euvieouvi

inductive AlertLevel | ok | warning | critical
deriving DecidableEq, Repr

structure OperationalAlert where
  level : AlertLevel
  code : String
  message : String
deriving DecidableEq, Repr

/-- An entry of `sources`. -/
structure SourceHealth where
  name : String
  circuit : String
  consecutiveFailures : Nat
  averageLatencyMs : Option Rat
deriving DecidableEq, Repr

/-- What is looked at of `operational_snapshot`. -/
structure OperationalSnapshot where
  sqliteRuntime : String
  sqliteRuntimeSafe : Bool
  queuedJobs : Nat
  pendingTasks : Nat
  oldestQueuedSeconds : Option Nat
  oldestPendingSeconds : Option Nat
  /-- Of the running job. -/
  heartbeatAgeSeconds : Option Nat
  sources : List SourceHealth
  slowOperations : Nat
  databaseBytes : Nat
  walBytes : Nat

structure OperationalSample where
  capturedAt : Time
  queuedJobs : Nat
  pendingTasks : Nat
  heartbeatAgeSeconds : Option Nat
  openCircuits : Nat
  connectorFailures : Nat
  averageConnectorLatencyMs : Option Rat
  slowOperations : Nat
  databaseBytes : Nat
  walBytes : Nat
  alertLevel : AlertLevel
  alertCount : Nat
  alertSummary : Option String
deriving DecidableEq

namespace SourceHealth

/-- The alert of a source: an open circuit is told before its failures. -/
def alert (source : SourceHealth) : Option OperationalAlert :=
  if source.circuit =
    "open" then some ⟨.critical, "open_circuit", s!"Circuito aberto para {source.name}."⟩
  else if 3 ≤ source.consecutiveFailures then
    some ⟨.warning, "connector_failures",
      s!"{source.name} tem {source.consecutiveFailures} falhas consecutivas."⟩
  else none

end SourceHealth

namespace OperationalSnapshot
variable (snapshot : OperationalSnapshot)

/-- The alert of the running job. -/
def heartbeatAlert : Option OperationalAlert :=
  snapshot.heartbeatAgeSeconds.bind fun heartbeat =>
    if 90 < heartbeat then some
      ⟨.critical, "stale_heartbeat", s!"Heartbeat do job está atrasado em {heartbeat} segundos."⟩
    else if 45 < heartbeat then some
      ⟨.warning, "late_heartbeat", s!"Heartbeat do job está atrasado em {heartbeat} segundos."⟩
    else none

/-- The alert of a queue whose oldest entry waits for more than five minutes. -/
def queueAlert (code : String) (message : Nat → String) (age : Option Nat) :
    Option OperationalAlert :=
  (age.filter (300 < ·)).map fun age => ⟨.warning, code, message age⟩

/-- `_operational_alerts`. -/
def operationalAlerts : List OperationalAlert :=
  (if snapshot.sqliteRuntimeSafe then []
    else [⟨.critical, "unsafe_sqlite",
      s!"SQLite {snapshot.sqliteRuntime} requer atualização para uma versão WAL segura."⟩]) ++
  snapshot.heartbeatAlert.toList ++
  (queueAlert "old_job_queue" (fun age => s!"Job aguarda na fila há {age} segundos.")
    snapshot.oldestQueuedSeconds).toList ++
  (queueAlert "old_async_queue" (fun age => s!"Atualização instantânea aguarda há {age} segundos.")
    snapshot.oldestPendingSeconds).toList ++
  snapshot.sources.filterMap (·.alert)

/-- `level`. -/
def level : AlertLevel :=
  if snapshot.operationalAlerts.any (·.level = .critical) then .critical
  else if snapshot.operationalAlerts = [] then .ok
  else .warning

/-- The row of a sample. -/
def sampled (capturedAt : Time) : OperationalSample where
  capturedAt := capturedAt
  queuedJobs := snapshot.queuedJobs
  pendingTasks := snapshot.pendingTasks
  heartbeatAgeSeconds := snapshot.heartbeatAgeSeconds
  openCircuits := snapshot.sources.countP (·.circuit = "open")
  connectorFailures :=
    snapshot.sources.foldl (fun failures source => failures + source.consecutiveFailures) 0
  averageConnectorLatencyMs :=
    let latencies := snapshot.sources.filterMap (·.averageLatencyMs)
    if latencies = [] then none else some (latencies.foldl (· + ·) 0 / latencies.length)
  slowOperations := snapshot.slowOperations
  databaseBytes := snapshot.databaseBytes
  walBytes := snapshot.walBytes
  alertLevel := snapshot.level
  alertCount := snapshot.operationalAlerts.length
  alertSummary :=
    some (" | ".intercalate (snapshot.operationalAlerts.map (·.message))) |>.filter (· ≠ "")

end OperationalSnapshot

/-- A call, with the moment that it reads. -/
structure SampleCall where
  capturedAt : Time
  force : Bool := false
  snapshot : OperationalSnapshot

abbrev samplePeriod : Time := Time.minutes 5

/-- Thirty days. -/
abbrev sampleRetention : Time := Time.minutes (30 * 24 * 60)

namespace SampleCall

/-- `latest`: the moment of the latest sample. -/
def latest (samples : List OperationalSample) : Option Time := (samples.map (·.capturedAt)).max?

/-- What `record_operational_sample` returns: a sample is taken. -/
def due (samples : List OperationalSample) (call : SampleCall) : Bool :=
  call.force || (latest samples).all (samplePeriod ≤ call.capturedAt - ·)

/-- `record_operational_sample`. -/
def record (samples : List OperationalSample) (call : SampleCall) : List OperationalSample :=
  if due samples call then
    (samples ++ [call.snapshot.sampled call.capturedAt]).filter
      (call.capturedAt - sampleRetention ≤ ·.capturedAt)
  else samples

section
variable {samples : List OperationalSample} {call : SampleCall} {s : OperationalSample}

theorem latest_eq_some {moment : Time} (h : latest samples = some moment) :
    (∃ s ∈ samples, s.capturedAt = moment) ∧ ∀ s ∈ samples, s.capturedAt ≤ moment := by
  obtain ⟨hmem, hle⟩ := List.max?_eq_some_iff.1 h
  exact ⟨List.mem_map.1 hmem, fun s hs => hle _ (List.mem_map_of_mem hs)⟩

theorem latest_eq_none (h : latest samples = none) : samples = [] :=
  List.map_eq_nil_iff.1 (List.max?_eq_none_iff.1 h)

/-- A call leaves the samples as they are when one of them is not five minutes old; otherwise it
adds its own, which is five minutes later than all others where it is not forced. -/
theorem record_cases (samples : List OperationalSample) (call : SampleCall) :
    (record samples call = samples ∧ ∃ s ∈ samples, call.capturedAt - samplePeriod < s.capturedAt) ∨
    record samples call = (samples ++ [call.snapshot.sampled call.capturedAt]).filter
      (call.capturedAt - sampleRetention ≤ ·.capturedAt) ∧
      (call.force = false → ∀ s ∈ samples, s.capturedAt + samplePeriod ≤ call.capturedAt) := by
  unfold record due
  split
  next hdue =>
    refine .inr ⟨rfl, fun hforce s hs => ?_⟩
    rw [hforce, Bool.false_or] at hdue
    cases hlatest : latest samples with
    | none =>
      rw [latest_eq_none hlatest] at hs
      cases hs
    | some moment =>
      rw [hlatest] at hdue
      have hold : samplePeriod ≤ call.capturedAt - moment := of_decide_eq_true hdue
      calc s.capturedAt + samplePeriod ≤ moment + samplePeriod :=
        add_le_add_left ((latest_eq_some hlatest).2 s hs) _
        _ ≤ call.capturedAt := le_sub_iff_add_le'.1 hold
  next hrecent =>
    rw [Bool.or_eq_true, not_or] at hrecent
    obtain ⟨-, hlatest⟩ := hrecent
    cases hmoment : latest samples with
    | none =>
      rw [hmoment] at hlatest
      exact absurd rfl hlatest
    | some moment =>
      rw [hmoment] at hlatest
      obtain ⟨⟨s, hs, rfl⟩, -⟩ := latest_eq_some hmoment
      have hlt : call.capturedAt - s.capturedAt < samplePeriod :=
        not_le.1 fun hle => hlatest (decide_eq_true hle)
      exact .inl ⟨rfl, s, hs, sub_lt_comm.1 hlt⟩

theorem mem_record (h : s ∈ record samples call) :
    s ∈ samples ∨ s.capturedAt = call.capturedAt := by
  rcases record_cases samples call with ⟨heq, -⟩ | ⟨heq, -⟩
  · exact .inl (heq ▸ h)
  · rw [heq] at h
    rcases List.mem_append.1 (List.mem_of_mem_filter h) with h | h
    · exact .inl h
    · rw [List.mem_singleton.1 h]
      exact .inr rfl

theorem record_keeps (hs : s ∈ samples)
    (hretained : call.capturedAt - sampleRetention ≤ s.capturedAt) : s ∈ record samples call := by
  rcases record_cases samples call with ⟨heq, -⟩ | ⟨heq, -⟩
  · rw [heq]
    exact hs
  · rw [heq]
    exact List.mem_filter.2 ⟨List.mem_append_left _ hs, decide_eq_true hretained⟩

/-- After a call there is a sample of the last five minutes. -/
theorem record_covers (samples : List OperationalSample) (call : SampleCall) :
    ∃ s ∈ record samples call, call.capturedAt - samplePeriod < s.capturedAt := by
  rcases record_cases samples call with ⟨heq, s, hs, hlt⟩ | ⟨heq, -⟩
  · rw [heq]
    exact ⟨s, hs, hlt⟩
  · rw [heq]
    refine ⟨call.snapshot.sampled call.capturedAt,
      List.mem_filter.2 ⟨List.mem_append_right _ (List.mem_singleton_self _), ?_⟩, ?_⟩
    · exact decide_eq_true (sub_le_self _ (by decide))
    · exact sub_lt_self _ (by decide)

end

/-! ### Runs -/

/-- Moments that lie at least `d` apart fill a window of `hi - lo` so far. -/
theorem length_spaced {α : Type*} {key : α → Int} {l : List α} {d lo hi : Int}
    (hspaced : l.Pairwise fun a b => key a + d ≤ key b)
    (hlo : ∀ a ∈ l, lo ≤ key a) (hhi : ∀ a ∈ l, key a ≤ hi) (hwindow : lo ≤ hi + d) :
    l.length * d ≤ hi - lo + d := by
  induction l generalizing lo with
  | nil =>
    rw [List.length_nil, Nat.cast_zero, zero_mul]
    omega
  | cons a l ih =>
    obtain ⟨hfirst, hrest⟩ := List.pairwise_cons.1 hspaced
    have ha := hlo a List.mem_cons_self
    have hahi := hhi a List.mem_cons_self
    have hmore : l.length * d ≤ hi - (lo + d) + d :=
      ih hrest (fun b hb => le_trans (by omega) (hfirst b hb))
        (fun b hb => hhi b (List.mem_cons_of_mem _ hb)) (by omega)
    rw [List.length_cons, Nat.cast_succ, add_mul, one_mul]
    omega

/-- The samples lie five minutes apart, in the thirty days before the latest. -/
structure Spaced (samples : List OperationalSample) : Prop where
  apart : samples.Pairwise fun a b => a.capturedAt + samplePeriod ≤ b.capturedAt
  window : ∀ a ∈ samples, ∀ b ∈ samples, b.capturedAt - sampleRetention ≤ a.capturedAt

variable {samples : List OperationalSample} {call : SampleCall}

theorem Spaced.record (h : Spaced samples) (hforce : call.force = false) :
    Spaced (call.record samples) := by
  rcases record_cases samples call with ⟨heq, -⟩ | ⟨heq, hapart⟩
  · rw [heq]
    exact h
  rw [heq]
  have hlater := hapart hforce
  refine ⟨List.Pairwise.filter _ ?_, fun a ha b hb => ?_⟩
  · refine List.pairwise_append.2 ⟨h.apart, List.pairwise_singleton _ _, fun a ha b hb => ?_⟩
    rw [List.mem_singleton.1 hb]
    exact hlater a ha
  · obtain ⟨-, hretained⟩ := List.mem_filter.1 ha
    have hretained : call.capturedAt - sampleRetention ≤ a.capturedAt := of_decide_eq_true hretained
    refine le_trans (sub_le_sub_right ?_ _) hretained
    rcases List.mem_append.1 (List.mem_of_mem_filter hb) with hb | hb
    · exact le_trans (le_add_of_nonneg_right (by decide)) (hlater b hb)
    · rw [List.mem_singleton.1 hb]
      exact le_refl call.capturedAt

theorem spaced_run (h : Spaced samples) (calls : List SampleCall)
    (hforce : ∀ call ∈ calls, call.force = false) :
    Spaced (calls.foldl record samples) := by
  induction calls generalizing samples with
  | nil => exact h
  | cons call calls ih =>
    exact ih (h.record (hforce call List.mem_cons_self)) fun call hcall =>
      hforce call (List.mem_cons_of_mem _ hcall)

/-- A sample of a run was taken by one of its calls. -/
theorem mem_run {calls : List SampleCall} {s : OperationalSample}
    (h : s ∈ calls.foldl record samples) :
    s ∈ samples ∨ ∃ call ∈ calls, s.capturedAt = call.capturedAt := by
  induction calls generalizing samples with
  | nil => exact .inl h
  | cons call calls ih =>
    rcases ih h with h | ⟨call', hcall', heq⟩
    · exact (mem_record h).imp_right fun heq => ⟨call, List.mem_cons_self, heq⟩
    · exact .inr ⟨call', List.mem_cons_of_mem _ hcall', heq⟩

theorem run_keeps {s : OperationalSample} (hs : s ∈ samples) (calls : List SampleCall)
    (hretained : ∀ call ∈ calls, call.capturedAt - sampleRetention ≤ s.capturedAt) :
    s ∈ calls.foldl record samples := by
  induction calls generalizing samples with
  | nil => exact hs
  | cons call calls ih =>
    exact ih (record_keeps hs (hretained call List.mem_cons_self)) fun call hcall =>
      hretained call (List.mem_cons_of_mem _ hcall)

/-- Whatever the clock does, the samples that the scheduler takes lie five minutes apart, within
thirty days: there are no more than 8641 of them, however long it runs. -/
theorem samples_bounded (calls : List SampleCall) (hforce : ∀ call ∈ calls, call.force = false) :
    ((calls.foldl record []).Pairwise fun a b => a.capturedAt + samplePeriod ≤ b.capturedAt) ∧
      (calls.foldl record []).length ≤ 8641 := by
  have hspaced : Spaced (calls.foldl record []) :=
    spaced_run ⟨List.Pairwise.nil, fun a ha => absurd ha List.not_mem_nil⟩ calls hforce
  refine ⟨hspaced.apart, ?_⟩
  rcases List.eq_nil_or_concat (calls.foldl record []) with hnil | ⟨before, last, hlast⟩
  · rw [hnil]
    exact Nat.zero_le _
  have hlastmem : last ∈ calls.foldl record [] := by
    rw [hlast, List.concat_eq_append]
    exact List.mem_append_right _ (List.mem_singleton_self _)
  have hend : ∀ a ∈ calls.foldl record [], a.capturedAt ≤ last.capturedAt := by
    intro a ha
    have hpairs := hspaced.apart
    rw [hlast, List.concat_eq_append] at ha hpairs
    rcases List.mem_append.1 ha with ha | ha
    · exact le_trans (le_add_of_nonneg_right (by decide))
        ((List.pairwise_append.1 hpairs).2.2 a ha last (List.mem_singleton_self _))
    · rw [List.mem_singleton.1 ha]
  have hlength := length_spaced hspaced.apart (fun a ha => hspaced.window a ha last hlastmem) hend
    (le_trans (sub_le_self _ (by decide)) (le_add_of_nonneg_right (by decide)))
  have hwindow : last.capturedAt - (last.capturedAt - sampleRetention) + samplePeriod =
      8641 * samplePeriod := by
    rw [sub_sub_cancel]
    decide
  rw [hwindow] at hlength
  exact Int.ofNat_le.1 (Int.le_of_mul_le_mul_right hlength (by decide))

/-- While the clock does not go back, every call of the last thirty days has a sample from the five
minutes before it. -/
theorem samples_cover {calls : List SampleCall}
    (hclock : calls.Pairwise fun a b => a.capturedAt ≤ b.capturedAt) {call : SampleCall}
    (hcall : call ∈ calls) (hretained : ∀ later ∈ calls,
      later.capturedAt - sampleRetention ≤ call.capturedAt - samplePeriod) :
    ∃ s ∈ calls.foldl record [], call.capturedAt - samplePeriod < s.capturedAt ∧
    s.capturedAt ≤ call.capturedAt := by
  obtain ⟨before, after, rfl⟩ := List.append_of_mem hcall
  obtain ⟨s, hs, hlate⟩ := record_covers (before.foldl record []) call
  have hmoment : s.capturedAt ≤ call.capturedAt := by
    rcases mem_record hs with hs | heq
    · obtain ⟨earlier, hearlier, heq⟩ := (mem_run hs).resolve_left List.not_mem_nil
      rw [heq]
      exact (List.pairwise_append.1 hclock).2.2 earlier hearlier call List.mem_cons_self
    · exact le_of_eq heq
  rw [List.foldl_append, List.foldl_cons]
  refine ⟨s, run_keeps hs after fun later hlater => ?_, hlate, hmoment⟩
  exact le_trans (hretained later (List.mem_append_right _ (List.mem_cons_of_mem _ hlater)))
    (le_of_lt hlate)

/-- Nothing waits and nothing fails. -/
def quietSnapshot : OperationalSnapshot where
  sqliteRuntime := "3.51.3"
  sqliteRuntimeSafe := true
  queuedJobs := 0
  pendingTasks := 0
  oldestQueuedSeconds := none
  oldestPendingSeconds := none
  heartbeatAgeSeconds := none
  sources := []
  slowOperations := 0
  databaseBytes := 4096
  walBytes := 0

/-- Polls after no time, after two minutes and after six. -/
def threePolls : List SampleCall :=
  [{ capturedAt := 0, snapshot := quietSnapshot },
    { capturedAt := Time.minutes 2, snapshot := quietSnapshot },
    { capturedAt := Time.minutes 6, snapshot := quietSnapshot }]

theorem samples_bounded_threePolls :
    ((threePolls.foldl record []).Pairwise fun a b => a.capturedAt + samplePeriod ≤ b.capturedAt) ∧
      (threePolls.foldl record []).length ≤ 8641 :=
  samples_bounded threePolls (by decide)

theorem samples_cover_threePolls :
    ∃ s ∈ threePolls.foldl record [], Time.minutes 2 - samplePeriod < s.capturedAt ∧
    s.capturedAt ≤ Time.minutes 2 := by
  have hcall : { capturedAt := Time.minutes 2, snapshot := quietSnapshot } ∈ threePolls :=
    List.mem_cons_of_mem _ List.mem_cons_self
  exact samples_cover (by decide) hcall (by decide)

end SampleCall

end Euvieouvi
