import Euvieouvi.Lib.Runs
import Mathlib.Algebra.Order.Ring.Rat
import Mathlib.Data.List.Perm.Basic

/-!
# The circuit breaker

`CircuitBreakerRegistry.observe`, `_record_success` and `_record_failure` (`observability.py`) of
one key, which all worker threads share. A call reads the clock, waits for the lock, is turned away
or goes to the server, and ends under the lock; the calls interleave in any way. Times are seconds
of the monotonic clock. The latency is taken in the step that records it; `last_call_at` and
`opened_until`, texts of another clock, are left out.
-/

namespace Euvieouvi

structure ConnectorMetric where
  calls : Nat := 0
  successes : Nat := 0
  failures : Nat := 0
  rejected : Nat := 0
  consecutiveFailures : Nat := 0
  totalLatencyMs : Rat := 0
  maxLatencyMs : Rat := 0
  lastLatencyMs : Option Rat := none
  lastError : Option String := none
  /-- `opened_until_monotonic`. -/
  openedUntil : Option Rat := none
deriving DecidableEq, Repr

structure CircuitBreakerRegistry where
  failureThreshold : Nat := 5
  cooldownSeconds : Rat := 60
  cooldown_nonneg : 0 ≤ cooldownSeconds := by decide

/-- The exceptions of `connectors/errors.py`, as far as the breaker tells them apart. -/
inductive ConnectorError
  /-- `ConnectorConnectionError` and the timeout below it. -/
  | connection
  | rateLimit (retryAfterSeconds : Option Rat)
  | notFound
  | other
deriving DecidableEq, Repr

/-- How the body of `observe` ends. The text is that of the error, redacted and cut. -/
inductive CallEnd
  | returned
  | connectorError (error : ConnectorError) (text : String)
  | exception (text : String)
  /-- A `BaseException` that is no `Exception`. -/
  | interrupted
deriving DecidableEq, Repr

/-- What `observe` records about the end of a call. -/
inductive CallRecord
  | success
  | failure (text : String) (tripsCircuit : Bool) (retryAfter : Option Rat)
  | nothing
deriving DecidableEq, Repr

def CallEnd.record : CallEnd → CallRecord
  | .returned => .success
  | .connectorError .notFound _ => .success
  | .connectorError .connection text => .failure text true none
  | .connectorError (.rateLimit retryAfter) text => .failure text true retryAfter
  | .connectorError .other text => .failure text false none
  | .exception text => .failure text false none
  | .interrupted => .nothing

/-- `_record_latency`. -/
def ConnectorMetric.recordLatency (metric : ConnectorMetric) (durationMs : Rat) : ConnectorMetric :=
  { metric with
    totalLatencyMs := metric.totalLatencyMs + durationMs
    maxLatencyMs := max metric.maxLatencyMs durationMs
    lastLatencyMs := some durationMs }

/-- The circuit is open for a call that started then. -/
def ConnectorMetric.rejects (metric : ConnectorMetric) (started : Rat) : Bool :=
  metric.openedUntil.any (started < ·)

/-- The locked part of `observe` before the call, and whether the call goes to the server. -/
def ConnectorMetric.enter (metric : ConnectorMetric) (started : Rat) : ConnectorMetric × Bool :=
  if metric.rejects started then ({ metric with rejected := metric.rejected + 1 }, false)
  else ({ metric with openedUntil := none, calls := metric.calls + 1 }, true)

/-- `_record_success`. -/
def ConnectorMetric.recordSuccess (metric : ConnectorMetric) (durationMs : Rat) : ConnectorMetric :=
  { metric with
    successes := metric.successes + 1
    consecutiveFailures := 0
    lastError := none
    openedUntil := none }.recordLatency durationMs

namespace CircuitBreakerRegistry
variable (registry : CircuitBreakerRegistry)

def cooldown (retryAfter : Option Rat) : Rat := max registry.cooldownSeconds (retryAfter.getD 0)

/-- `_record_failure`. -/
def recordFailure (metric : ConnectorMetric) (now durationMs : Rat) (text : String)
    (tripsCircuit : Bool) (retryAfter : Option Rat) : ConnectorMetric :=
  let counted := { metric with
    failures := metric.failures + 1
    consecutiveFailures := if tripsCircuit then metric.consecutiveFailures + 1 else 0
    lastError := some text }.recordLatency durationMs
  if tripsCircuit && registry.failureThreshold ≤ counted.consecutiveFailures then
    { counted with openedUntil := some (now + registry.cooldown retryAfter) }
  else counted

/-- The locked part of `observe` after the call. -/
def leave (metric : ConnectorMetric) (now started : Rat) (ended : CallEnd) : ConnectorMetric :=
  match ended.record with
  | .success => metric.recordSuccess ((now - started) * 1000)
  | .failure text tripsCircuit retryAfter =>
    registry.recordFailure metric now ((now - started) * 1000) text tripsCircuit retryAfter
  | .nothing => metric

end CircuitBreakerRegistry

structure Call where
  thread : Nat
  started : Rat
deriving DecidableEq, Repr

/-- The record of the key, and the calls that have read the clock or are with the server. -/
structure Observed where
  now : Rat
  metric : ConnectorMetric := {}
  waiting : List Call := []
  inFlight : List Call := []

inductive ObserveEvent
  /-- The clock, which never goes back. -/
  | tick (moment : Rat)
  | start (thread : Nat)
  | enter (call : Call)
  | finish (call : Call) (ended : CallEnd)

namespace CircuitBreakerRegistry
variable (registry : CircuitBreakerRegistry)

def step (s : Observed) : ObserveEvent → Observed
  | .tick moment => { s with now := max s.now moment }
  | .start thread => { s with waiting := ⟨thread, s.now⟩ :: s.waiting }
  | .enter call =>
    if call ∈ s.waiting then
      let (metric, admitted) := s.metric.enter call.started
      { s with
        metric := metric
        waiting := s.waiting.erase call
        inFlight := if admitted then call :: s.inFlight else s.inFlight }
    else s
  | .finish call ended =>
    if call ∈ s.inFlight then
      { s with
        metric := registry.leave s.metric s.now call.started ended,
        inFlight := s.inFlight.erase call }
    else s

/-- A tripping failure that finds the consecutive ones at the threshold, itself included: the
circuit is to stay open until then. -/
def opening? (s : Observed) : ObserveEvent → Option Rat
  | .finish call ended =>
    match ended.record with
    | .failure _ true retryAfter =>
      if call ∈ s.inFlight ∧ registry.failureThreshold ≤ s.metric.consecutiveFailures + 1 then
        some (s.now + registry.cooldown retryAfter)
      else none
    | _ => none
  | _ => none

end CircuitBreakerRegistry

/-- The calls, and the ends of all openings so far. -/
structure Watched extends Observed where
  openings : List Rat := []

namespace Watched

/-- A call with this start may still come for the lock. -/
def MayStart (g : Watched) (started : Rat) : Prop :=
  g.now ≤ started ∨ ∃ call ∈ g.waiting, call.started = started

/-- As things stand, every call that started before the end of an opening, or will, is turned
away. -/
def TurnsAway (g : Watched) : Prop :=
  ∀ last ∈ g.openings, ∀ started, g.MayStart started → started < last →
    (g.metric.enter started).2 = false

end Watched

/-- All openings are over, also for the calls that wait. -/
def Elapsed (openings : List Rat) (now : Rat) (waiting : List Call) : Prop :=
  ∀ last ∈ openings, last ≤ now ∧ ∀ call ∈ waiting, last ≤ call.started

namespace CircuitBreakerRegistry
variable (registry : CircuitBreakerRegistry)

def watch (g : Watched) (e : ObserveEvent) : Watched :=
  ⟨registry.step g.toObserved e, (registry.opening? g.toObserved e).toList ++ g.openings⟩

/-- Every call is accounted for, the threshold opens the circuit, and an open circuit stays so. -/
structure Protects (g : Watched) : Prop where
  counted : g.metric.calls = g.metric.successes + g.metric.failures + g.inFlight.length
  opens : ∀ e next, registry.opening? g.toObserved e = some next →
    (registry.step g.toObserved e).metric.openedUntil = some next
  turnsAway : g.TurnsAway

/-- The call does not disturb an opening: it is not interrupted; its success does not come during
one; its failure does not set an earlier end; and it does not get through after one while another
call still waits that began before the end. -/
def Harmless (g : Watched) : ObserveEvent → Prop
  | .finish call ended => call ∈ g.inFlight →
    match ended.record with
    | .success => Elapsed g.openings g.now g.waiting
    | .failure _ _ _ => ∀ next, registry.opening? g.toObserved (.finish call ended) = some next →
      ∀ last ∈ g.openings, last ≤ next
    | .nothing => False
  | .enter call => call ∈ g.waiting → g.metric.openedUntil.any (· ≤ call.started) = true →
    Elapsed g.openings g.now (g.waiting.erase call)
  | _ => True

end CircuitBreakerRegistry

/-! ### What an end of a call writes -/

section Records
variable {registry : CircuitBreakerRegistry} {metric : ConnectorMetric} {s : Observed} {call : Call}
  {ended : CallEnd}
  {text : String} {trips : Bool} {retryAfter : Option Rat} {now started : Rat}

theorem rejects_iff : metric.rejects started = true ↔ ∃ last, metric.openedUntil = some last ∧
    started < last := by
  simp [ConnectorMetric.rejects, Option.any_eq_true]

theorem enter_rejected_iff : (metric.enter started).2 = false ↔ metric.rejects started = true := by
  unfold ConnectorMetric.enter
  split
  next h => simp [h]
  next h => simp [h]

namespace CircuitBreakerRegistry

theorem opening?_failure (h : ended.record = .failure text trips retryAfter)
    (hcall : call ∈ s.inFlight) :
    registry.opening? s (.finish call ended) =
      if trips && registry.failureThreshold ≤ s.metric.consecutiveFailures +
        1 then some (s.now + registry.cooldown retryAfter)
      else none := by
  unfold opening?
  dsimp only
  rw [h]
  cases trips
  · rfl
  · simp [hcall]

/-- A failure leaves the opening it must make, or else the one that was there. -/
theorem openedUntil_failure (registry : CircuitBreakerRegistry)
    (h : ended.record = .failure text trips retryAfter) (hcall : call ∈ s.inFlight) :
    (registry.step s (.finish call ended)).metric.openedUntil =
      (registry.opening? s (.finish call ended)).or s.metric.openedUntil := by
  rw [opening?_failure h hcall]
  unfold step
  dsimp only
  rw [if_pos hcall]
  unfold leave
  dsimp only
  rw [h]
  dsimp only
  unfold recordFailure
  cases trips
  · rfl
  · simp only [ConnectorMetric.recordLatency, if_true, Bool.true_and]
    split
    next => rfl
    next => rfl

theorem opening?_of_not_mem (hcall : call ∉ s.inFlight) :
    registry.opening? s (.finish call ended) = none := by
  unfold opening?
  dsimp only
  split
  · rw [if_neg fun h => hcall h.1]
  · rfl

theorem opening?_not_failure
    (h : ∀ text trips retryAfter, ended.record ≠ .failure text trips retryAfter) :
    registry.opening? s (.finish call ended) = none := by
  unfold opening?
  dsimp only
  split
  next hrecord => exact absurd hrecord (h _ _ _)
  next => rfl

/-- A failure that brings the consecutive tripping ones to the threshold opens the circuit. -/
theorem opens (s : Observed) (e : ObserveEvent) {next : Rat}
    (h : registry.opening? s e = some next) :
    (registry.step s e).metric.openedUntil = some next := by
  cases e with
  | tick => cases h
  | start => cases h
  | enter => cases h
  | finish call ended =>
    have hcall : call ∈ s.inFlight := by
      by_contra hcall
      rw [opening?_of_not_mem hcall] at h
      cases h
    rcases hrecord : ended.record with _ | ⟨text, trips, retryAfter⟩ | _
    · rw [opening?_not_failure (by simp [hrecord])] at h
      cases h
    · rw [openedUntil_failure _ hrecord hcall, h]
      rfl
    · rw [opening?_not_failure (by simp [hrecord])] at h
      cases h

theorem le_opening {next : Rat} (h : ended.record = .failure text trips retryAfter)
    (hcall : call ∈ s.inFlight)
    (hopening : registry.opening? s (.finish call ended) = some next) : s.now ≤ next := by
  rw [opening?_failure h hcall] at hopening
  split at hopening
  · cases hopening
    exact le_add_of_nonneg_right (le_max_of_le_left registry.cooldown_nonneg)
  · cases hopening

theorem step_now_finish : (registry.step s (.finish call ended)).now = s.now := by
  unfold step
  dsimp only
  split
  · rfl
  · rfl

theorem recordFailure_counts (registry : CircuitBreakerRegistry) (metric : ConnectorMetric)
    (now durationMs : Rat) (text : String) (trips : Bool) (retryAfter : Option Rat) :
    (registry.recordFailure metric now durationMs text trips retryAfter).calls = metric.calls ∧
      (registry.recordFailure metric now durationMs text trips retryAfter).successes =
        metric.successes ∧
      (registry.recordFailure metric now durationMs text trips retryAfter).failures =
        metric.failures + 1 := by
  unfold recordFailure
  dsimp only
  generalize (trips && decide (registry.failureThreshold ≤ _)) = opens
  cases opens
  · exact ⟨rfl, rfl, rfl⟩
  · exact ⟨rfl, rfl, rfl⟩

theorem leave_counts (registry : CircuitBreakerRegistry) (metric : ConnectorMetric)
    (now started : Rat) (ended : CallEnd) :
    (registry.leave metric now started ended).calls = metric.calls ∧
    (registry.leave metric now started ended).successes +
      (registry.leave metric now started ended).failures +
      (if ended.record = .nothing then 1 else 0) = metric.successes + metric.failures + 1 := by
  unfold leave
  rcases ended.record with _ | ⟨text, trips, retryAfter⟩ | _
  · refine ⟨rfl, ?_⟩
    show metric.successes + 1 + metric.failures + 0 = metric.successes + metric.failures + 1
    omega
  · obtain ⟨hcalls, hsuccesses, hfailures⟩ :=
      recordFailure_counts registry metric now ((now - started) * 1000) text trips
      retryAfter
    refine ⟨hcalls, ?_⟩
    dsimp only
    rw [hsuccesses, hfailures, if_neg CallRecord.noConfusion]
    rfl
  · exact ⟨rfl, by rw [if_pos rfl]⟩

end CircuitBreakerRegistry

end Records

/-! ### One step -/

section Steps
variable {registry : CircuitBreakerRegistry} {g g' : Watched}

/-- Nothing about the openings changes, and no earlier start may come. -/
theorem Watched.TurnsAway.congr (h : g.TurnsAway)
    (hopened : g'.metric.openedUntil = g.metric.openedUntil)
    (hopenings : g'.openings = g.openings)
    (hstart : ∀ started, g'.MayStart started → g.MayStart started) : g'.TurnsAway := by
  intro last hlast started hmay hlt
  rw [hopenings] at hlast
  have hrejected := enter_rejected_iff.1 (h last hlast started (hstart started hmay) hlt)
  rw [enter_rejected_iff, rejects_iff, hopened]
  exact rejects_iff.1 hrejected

/-- A closed circuit turns nobody away. -/
theorem turnsAway_closed (h : g.metric.openedUntil = none) :
    g.TurnsAway ↔ Elapsed g.openings g.now g.waiting := by
  have hadmits : ∀ started, (g.metric.enter started).2 ≠ false := by
    intro started hrejected
    obtain ⟨last, hlast, -⟩ := rejects_iff.1 (enter_rejected_iff.1 hrejected)
    rw [h] at hlast
    cases hlast
  constructor
  · intro haway last hlast
    refine ⟨?_, fun call hcall => ?_⟩
    · by_contra hlt
      exact hadmits _ (haway last hlast g.now (.inl le_rfl) (not_le.1 hlt))
    · by_contra hlt
      exact hadmits _ (haway last hlast call.started (.inr ⟨call, hcall, rfl⟩) (not_le.1 hlt))
  · rintro helapsed last hlast started (hstarted | ⟨call, hcall, rfl⟩) hlt
    · exact absurd (((helapsed last hlast).1.trans hstarted).trans_lt hlt) (lt_irrefl _)
    · exact absurd (((helapsed last hlast).2 call hcall).trans_lt hlt) (lt_irrefl _)

/-- A new opening keeps the earlier ones if it ends after them. -/
theorem turnsAway_opened {next : Rat} {openings : List Rat} (h : g.metric.openedUntil = some next)
    (hnow : g.now ≤ next)
    (hopenings : g.openings = next :: openings) : g.TurnsAway ↔ ∀ last ∈ openings, last ≤ next := by
  have hrejects : ∀ started, (g.metric.enter started).2 = false ↔ started < next := by
    intro started
    rw [enter_rejected_iff, rejects_iff, h]
    simp
  unfold Watched.TurnsAway
  simp only [hrejects, hopenings, List.mem_cons]
  constructor
  · intro haway last hlast
    by_contra hlt
    exact lt_irrefl _ (haway last (.inr hlast) next (.inl hnow) (not_le.1 hlt))
  · rintro hle last (rfl | hlast) started - hlt
    · exact hlt
    · exact hlt.trans_le (hle last hlast)

namespace CircuitBreakerRegistry

theorem length_inFlight {call : Call} (hcall : call ∈ g.inFlight) :
    (g.inFlight.erase call).length + 1 = g.inFlight.length := by
  rw [List.length_erase_of_mem hcall]
  have := List.length_pos_of_mem hcall
  omega

theorem mayStart_erase {call : Call} {started : Rat}
    (h : g.now ≤ started ∨ ∃ other ∈ g.waiting.erase call, other.started = started) :
    g.MayStart started :=
  h.imp_right fun ⟨other, hother, hstarted⟩ => ⟨other, List.mem_of_mem_erase hother, hstarted⟩

theorem protects_tick (h : registry.Protects g) (moment : Rat) :
    registry.Protects (registry.watch g (.tick moment)) where
  counted := h.counted
  opens := registry.opens _
  turnsAway :=
    h.turnsAway.congr rfl rfl fun _ hmay => hmay.imp_left (le_max_left g.now moment).trans

theorem protects_start (h : registry.Protects g) (thread : Nat) :
    registry.Protects (registry.watch g (.start thread)) where
  counted := h.counted
  opens := registry.opens _
  turnsAway := by
    refine h.turnsAway.congr rfl rfl ?_
    rintro started (hnow | ⟨call, hcall, rfl⟩)
    · exact .inl hnow
    · rcases List.mem_cons.1 hcall with rfl | hcall
      · exact .inl le_rfl
      · exact .inr ⟨call, hcall, rfl⟩

theorem watch_enter {call : Call} (hcall : call ∈ g.waiting) : registry.watch g (.enter call) =
    ⟨{ g with
      metric := (g.metric.enter call.started).1
      waiting := g.waiting.erase call
      inFlight := if (g.metric.enter call.started).2 then call :: g.inFlight else g.inFlight },
      g.openings⟩ := by
  unfold watch step
  dsimp only
  rw [if_pos hcall]
  rfl

/-- A call that is turned away. -/
theorem protects_rejected (h : registry.Protects g) {call : Call} (hcall : call ∈ g.waiting)
    (hrejects : g.metric.rejects call.started = true) :
    registry.Protects (registry.watch g (.enter call)) := by
  have henter : g.metric.enter call.started =
      ({ g.metric with rejected := g.metric.rejected + 1 }, false) := if_pos hrejects
  rw [watch_enter hcall, henter]
  exact ⟨h.counted, registry.opens _, h.turnsAway.congr rfl rfl fun _ hmay => mayStart_erase hmay⟩

/-- A call that goes to the server leaves the circuit closed. -/
theorem protects_admitted (h : registry.Protects g) {call : Call} (hcall : call ∈ g.waiting)
    (hadmits : ¬ g.metric.rejects call.started = true) :
    registry.Protects (registry.watch g (.enter call)) ↔
    Elapsed g.openings g.now (g.waiting.erase call) := by
  have henter : g.metric.enter call.started =
      ({ g.metric with openedUntil := none, calls := g.metric.calls + 1 }, true) :=
    if_neg hadmits
  rw [watch_enter hcall, henter]
  have hcounted : g.metric.calls + 1 =
      g.metric.successes + g.metric.failures + (call :: g.inFlight).length := by
    have := h.counted
    rw [List.length_cons]
    omega
  constructor
  · intro hprotects
    exact (turnsAway_closed rfl).1 hprotects.turnsAway
  · intro helapsed
    exact ⟨hcounted, registry.opens _, (turnsAway_closed rfl).2 helapsed⟩

/-- A call that comes for the lock. -/
theorem protects_enter (h : registry.Protects g) (call : Call) :
    registry.Protects (registry.watch g (.enter call)) ↔ registry.Harmless g (.enter call) := by
  by_cases hcall : call ∈ g.waiting
  · by_cases hrejects : g.metric.rejects call.started = true
    · refine iff_of_true (protects_rejected h hcall hrejects) fun _ hpast => ?_
      obtain ⟨last, hopened, hlt⟩ := rejects_iff.1 hrejects
      rw [hopened, Option.any_some, decide_eq_true_eq] at hpast
      exact absurd hlt (not_lt.2 hpast)
    · rw [protects_admitted h hcall hrejects]
      constructor
      · exact fun helapsed _ _ => helapsed
      · intro hharmless
        rcases hopened : g.metric.openedUntil with _ | last
        · -- the circuit was closed before
          intro last hlast
          have hbefore := (turnsAway_closed hopened).1 h.turnsAway last hlast
          exact ⟨hbefore.1, fun other hother => hbefore.2 other (List.mem_of_mem_erase hother)⟩
        · refine hharmless hcall ?_
          rw [rejects_iff] at hrejects
          rw [hopened, Option.any_some, decide_eq_true_eq]
          exact not_lt.1 fun hlt => hrejects ⟨last, hopened, hlt⟩
  · have hwatch : registry.watch g (.enter call) = g := by
      unfold watch step
      dsimp only
      rw [if_neg hcall]
      rfl
    rw [hwatch]
    exact iff_of_true h fun hmem => absurd hmem hcall

theorem watch_finish {call : Call} (hcall : call ∈ g.inFlight) (ended : CallEnd) :
    registry.watch g (.finish call ended) =
    ⟨{ g with
      metric := registry.leave g.metric g.now call.started ended
      inFlight := g.inFlight.erase call },
        (registry.opening? g.toObserved (.finish call ended)).toList ++ g.openings⟩ := by
  unfold watch step
  dsimp only
  rw [if_pos hcall]

/-- The account balances unless the end of the call is recorded nowhere. -/
theorem counted_finish (h : registry.Protects g) {call : Call} (hcall : call ∈ g.inFlight)
    (ended : CallEnd) :
    (registry.leave g.metric g.now call.started ended).calls =
      (registry.leave g.metric g.now call.started ended).successes +
        (registry.leave g.metric g.now call.started ended).failures +
          (g.inFlight.erase call).length ↔
      ended.record ≠ .nothing := by
  obtain ⟨hcalls, hcounts⟩ := leave_counts registry g.metric g.now call.started ended
  have hlength := length_inFlight hcall
  have := h.counted
  by_cases hnothing : ended.record = .nothing
  · rw [if_pos hnothing] at hcounts
    refine iff_of_false (fun heq => ?_) (fun hne => hne hnothing)
    omega
  · rw [if_neg hnothing] at hcounts
    refine iff_of_true ?_ hnothing
    omega

/-- A call that ends. -/
theorem protects_finish (h : registry.Protects g) (call : Call) (ended : CallEnd) :
    registry.Protects (registry.watch g (.finish call ended)) ↔
    registry.Harmless g (.finish call ended) := by
  by_cases hcall : call ∈ g.inFlight
  · have hcounted := counted_finish h hcall ended
    have hprotects : registry.Protects (registry.watch g (.finish call ended)) ↔
        ended.record ≠ .nothing ∧ (registry.watch g (.finish call ended)).TurnsAway := by
      rw [← hcounted]
      constructor
      · intro hafter
        have hbalance := hafter.counted
        have haway := hafter.turnsAway
        rw [watch_finish hcall] at hbalance
        exact ⟨hbalance, haway⟩
      · rintro ⟨hbalance, haway⟩
        refine ⟨?_, registry.opens _, haway⟩
        rw [watch_finish hcall]
        exact hbalance
    rw [hprotects]
    unfold Harmless
    dsimp only
    rw [forall_prop_of_true hcall]
    rcases hrecord : ended.record with _ | ⟨text, trips, retryAfter⟩ | _
    · have hclosed : (registry.watch g (.finish call ended)).metric.openedUntil = none := by
        rw [watch_finish hcall]
        unfold leave
        rw [hrecord]
        rfl
      rw [turnsAway_closed hclosed, watch_finish hcall, opening?_not_failure (by simp [hrecord])]
      exact ⟨fun helapsed => helapsed.2, fun hharmless => ⟨CallRecord.noConfusion, hharmless⟩⟩
    · have hopened := openedUntil_failure registry hrecord hcall
      rcases hopening : registry.opening? g.toObserved (.finish call ended) with _ | next
      · rw [hopening, Option.none_or] at hopened
        refine iff_of_true ⟨CallRecord.noConfusion, ?_⟩ fun _ hnone => by cases hnone
        refine h.turnsAway.congr hopened ?_ fun started hmay => ?_
        · unfold watch
          rw [hopening]
          rfl
        · rw [watch_finish hcall] at hmay
          exact hmay
      · rw [hopening, Option.some_or] at hopened
        have hafter : registry.watch g (.finish call ended) =
            ⟨registry.step g.toObserved (.finish call ended),
            next :: g.openings⟩ := by
          unfold watch
          rw [hopening]
          rfl
        have hnow : (registry.step g.toObserved (.finish call ended)).now ≤ next := by
          rw [step_now_finish]
          exact le_opening hrecord hcall hopening
        rw [hafter, turnsAway_opened hopened hnow rfl]
        constructor
        · rintro ⟨-, hle⟩ next' hnext'
          cases hnext'
          exact hle
        · intro hharmless
          exact ⟨CallRecord.noConfusion, hharmless next rfl⟩
    · exact iff_of_false (fun hand => hand.1 rfl) id
  · have hwatch : registry.watch g (.finish call ended) = g := by
      unfold watch step
      rw [opening?_of_not_mem hcall]
      dsimp only
      rw [if_neg hcall]
      rfl
    rw [hwatch]
    exact iff_of_true h fun hmem => absurd hmem hcall

theorem protects_watch (h : registry.Protects g) (e : ObserveEvent) :
    registry.Protects (registry.watch g e) ↔ registry.Harmless g e := by
  cases e with
  | tick moment => exact iff_of_true (protects_tick h moment) trivial
  | start thread => exact iff_of_true (protects_start h thread) trivial
  | enter call => exact protects_enter h call
  | finish call ended => exact protects_finish h call ended

end CircuitBreakerRegistry

end Steps

namespace CircuitBreakerRegistry

/-- A key that has not been used. -/
def untouched (now : Rat) : Watched := { now := now }

theorem protects_untouched (registry : CircuitBreakerRegistry) (now : Rat) :
    registry.Protects (untouched now) where
  counted := rfl
  opens := registry.opens _
  turnsAway _ hlast := by cases hlast

/-- Whatever calls overlap and however they end: the breaker protects the server in every state of
the run exactly when no step of it disturbs an opening. -/
theorem protects_iff_harmless (registry : CircuitBreakerRegistry) (now : Rat)
    (es : List ObserveEvent) :
    (∀ pre, pre <+: es → registry.Protects (pre.foldl registry.watch (untouched now))) ↔
      Along registry.watch registry.Harmless (untouched now) es :=
  Along.iff_invariant (fun _ e h => protects_watch h e) (registry.protects_untouched now)

end CircuitBreakerRegistry

section Example

/-- A slow call starts at 0; five others fail at 1 and open the circuit for a minute; the slow one
succeeds at 2, and another call starts at 3. -/
def slowSuccess : List ObserveEvent :=
  [.start 1, .enter ⟨1, 0⟩, .tick 1] ++
    (List.replicate 5
      [.start 2, .enter ⟨2, 1⟩, .finish ⟨2, 1⟩ (.connectorError .connection "a")]).flatten ++
    [.tick 2, .finish ⟨1, 0⟩ .returned, .tick 3, .start 2, .enter ⟨2, 3⟩]

/-- The circuit that was to stay open until 61 lets the call of 3 through. -/
theorem slow_success_closes_circuit :
    let registry : CircuitBreakerRegistry := {}
    let g := slowSuccess.foldl registry.watch (CircuitBreakerRegistry.untouched 0)
    g.openings = [61] ∧ ⟨2, 3⟩ ∈ g.inFlight ∧
      ¬ ∀ pre, pre <+: slowSuccess →
        registry.Protects (pre.foldl registry.watch (CircuitBreakerRegistry.untouched 0)) := by
  intro registry g
  have hopenings : g.openings = [61] := by decide +kernel
  have hnow : g.now = 3 := by decide +kernel
  have hadmits : (g.metric.enter 3).2 = true := by decide +kernel
  refine ⟨hopenings, by decide +kernel, fun hall => ?_⟩
  have haway :=
    (hall slowSuccess (List.prefix_refl _)).turnsAway 61 (hopenings ▸ List.mem_singleton_self _) 3
    (.inl hnow.le) (by decide)
  exact Bool.false_ne_true (haway.symm.trans hadmits)

end Example

end Euvieouvi
