import Euvieouvi.Sync.ActiveRuns

/-!
# The background executor

`execute` of `LocalSyncExecutor.submit` (`api/runtime.py`) with `run_queued` and `_execute` of the
orchestrator (`sync/orchestrator.py`) and `enrich_catalog` (`enrichment/service.py`), as what they
do to the row of the run. Each check of the cancellation token, each call of a connector and each
step of the enrichment is an input: what the token said, or whether the call raised. The database
calls do not raise here.
-/

namespace Euvieouvi

/-- What a connector, a factory or the enrichment may raise. -/
inductive Fault | connector | other
deriving DecidableEq, Repr

/-- The exceptions that the handlers tell apart; only a check of the token raises
`SyncCancelledError`. -/
inductive Raised | cancelled | fault (f : Fault)
deriving DecidableEq, Repr

/-- A round of a loop of `_sync_library`: the check of the token and the page. -/
structure PageCall where
  cancelled : Bool
  page : Except Fault Unit

structure LibraryCalls where
  cancelled : Bool
  media : List PageCall
  history : List PageCall

def runPages : List PageCall → Except Raised Unit
  | [] => .ok ()
  | c :: calls =>
    if c.cancelled then .error .cancelled
    else match c.page with
      | .ok () => runPages calls
      | .error f => .error (.fault f)

/-- The loop of `_execute`. -/
def runLibraries : List LibraryCalls → Except Raised Unit
  | [] => .ok ()
  | l :: libraries =>
    if l.cancelled then .error .cancelled
    else do
      runPages l.media
      runPages l.history
      runLibraries libraries

structure EnrichmentCounters where
  processed : Nat := 0
  updated : Nat := 0
  failed : Nat := 0
deriving DecidableEq, Repr

/-- What `enrich_catalog` does with one identifier. -/
inductive EnrichmentResult
  | skipped
  | succeeded (changed : Bool)
  | failed
  | raised (f : Fault)
deriving DecidableEq, Repr

/-- One identifier, and what the token says before it and in the report after it. -/
structure EnrichmentCall where
  cancelledBefore : Bool
  result : EnrichmentResult
  cancelledAfter : Bool

structure EnrichmentCalls where
  setup : Except Fault Unit
  eligible : Bool
  cancelledFirst : Bool
  items : List EnrichmentCall

/-- What `_update_progress` assigns. -/
def SyncRun.progressed (summary : String) (now : Time) : Assignment SyncRun.id where
  apply r := { r with summary := some summary, heartbeatAt := some now }

namespace EnrichmentCounters

def looked (counters : EnrichmentCounters) (changed : Bool) : EnrichmentCounters :=
  { counters with processed := counters.processed + 1, updated := counters.updated + changed.toNat }

def lookedInVain (counters : EnrichmentCounters) : EnrichmentCounters :=
  { counters with processed := counters.processed + 1, failed := counters.failed + 1 }

/-- `min(100, counters["processed"] * 100 // total)`. -/
def percent (counters : EnrichmentCounters) (total : Nat) : Nat :=
  min 100 (counters.processed * 100 / total)

end EnrichmentCounters

/-- `report`, for a token that is not cancelled. -/
def report (counters : EnrichmentCounters) (total percent : Nat) (now : Time)
    (run : SyncRun) : SyncRun :=
  if counters.processed % 5 ≠ 0 ∧ percent ≠ 100 then run
  else SyncRun.progressed (s!"Enriquecendo metadados externos · {percent}% · " ++
    s!"{counters.processed} de {total} processados, " ++
    s!"{counters.updated} atualizados e {counters.failed} falhas.") now run

/-- The loop of `enrich_catalog`. -/
def enrichItems (total : Nat) (now : Time) :
    List EnrichmentCall → EnrichmentCounters → SyncRun → Except Raised EnrichmentCounters × SyncRun
  | [], counters, run => (.ok counters, run)
  | c :: calls, counters, run =>
    if c.cancelledBefore then (.ok counters, run)
    else match c.result with
      | .skipped => enrichItems total now calls counters run
      | .raised f => (.error (.fault f), run)
      | .succeeded changed =>
        let counters := counters.looked changed
        if c.cancelledAfter then (.error .cancelled, run)
        else enrichItems total now calls counters
          (report counters total (counters.percent total) now run)
      | .failed =>
        let counters := counters.lookedInVain
        if c.cancelledAfter then (.error .cancelled, run)
        else enrichItems total now calls counters
          (report counters total (counters.percent total) now run)

namespace EnrichmentCalls

/-- `enrich_catalog`. -/
def enrich (calls : EnrichmentCalls) (now : Time) (run : SyncRun) :
    Except Raised EnrichmentCounters × SyncRun :=
  match calls.setup with
  | .error f => (.error (.fault f), run)
  | .ok () =>
    if calls.cancelledFirst then (.error .cancelled, run)
    else if calls.eligible then
      let total := calls.items.length
      enrichItems total now calls.items {} (report {} total (if total = 0 then 100 else 0) now run)
    else (.ok {}, report {} 0 100 now run)

/-- The token is found cancelled while the identifiers are enriched. -/
def itemsSeeCancellation : List EnrichmentCall → Bool
  | [] => false
  | c :: calls => c.cancelledBefore || match c.result with
    | .skipped => itemsSeeCancellation calls
    | .raised _ => false
    | .succeeded _ | .failed => c.cancelledAfter || itemsSeeCancellation calls

/-- The token is found cancelled in the enrichment. -/
def seesCancellation (calls : EnrichmentCalls) : Bool :=
  calls.setup.isOk && (calls.cancelledFirst || (calls.eligible && itemsSeeCancellation calls.items))

end EnrichmentCalls

structure ExecuteCalls where
  /-- The row of the source is still there. -/
  sourceFound : Bool
  enrichAfterSync : Bool
  factory : Except Fault Unit
  libraries : List LibraryCalls
  enrichment : EnrichmentCalls
  now : Time

namespace ExecuteCalls
variable (calls : ExecuteCalls)

/-- `_execute` of the orchestrator. -/
def executeRun (run : SyncRun) : Except Raised SyncStatus × SyncRun :=
  match runLibraries calls.libraries with
  | .error .cancelled =>
    (.ok .interrupted,
      SyncRun.finished ⟨.interrupted, rfl⟩ "Synchronization was cancelled." calls.now run)
  | .error (.fault .connector) =>
    (.ok .failed, SyncRun.finished ⟨.failed, rfl⟩ "Synchronization failed safely." calls.now run)
  | .error (.fault .other) =>
    (.error (.fault .other),
      SyncRun.finished ⟨.failed, rfl⟩ "Synchronization failed safely." calls.now run)
  | .ok () =>
    (.ok .succeeded, if calls.enrichAfterSync then run
      else SyncRun.finished ⟨.succeeded, rfl⟩ "Synchronization completed." calls.now run)

def runQueued (run : SyncRun) : Except Raised SyncStatus × SyncRun :=
  if run.status =
    .queued then calls.executeRun (SyncRun.claimed calls.now run) else (.error (.fault .other), run)

/-- The enrichment after a synchronization, and `finish_success`. -/
def enrichAfter (run : SyncRun) : Except Raised Unit × SyncRun :=
  match calls.enrichment.enrich calls.now
      (SyncRun.progressed "Enriquecendo metadados externos · preparando lote." calls.now run) with
  | (.error e, run) => (.error e, run)
  | (.ok counters, run) =>
    (.ok (), SyncRun.finished ⟨.succeeded, rfl⟩ ("Sincronização e enriquecimento concluídos · " ++
      s!"{counters.processed} metadados processados, {counters.updated} atualizados e " ++
      s!"{counters.failed} falhas seguras.")
      calls.now run)

/-- The `try` block of `execute`, after the factory. -/
def attempt (run : SyncRun) : Except Raised Unit × SyncRun :=
  match calls.runQueued run with
  | (.error e, run) => (.error e, run)
  | (.ok status, run) =>
    if status = .succeeded ∧
      calls.enrichAfterSync = true then calls.enrichAfter run else (.ok (), run)

/-- `finish_failure` of the handler. -/
def handle (run : SyncRun) : SyncRun :=
  if run.status.active then
    SyncRun.finished ⟨.failed, rfl⟩ "Sincronização ou enriquecimento falhou com segurança."
      calls.now run
  else run

/-- The row of the run after `execute`: with no orchestrator the handler leaves it as it is. -/
def execute (run : SyncRun) : SyncRun :=
  if calls.sourceFound then
    match calls.factory with
    | .error _ => run
    | .ok () => match calls.attempt run with
      | (.ok (), run) => run
      | (.error _, run) => calls.handle run
  else run

/-- A check of the token ended the synchronization or its enrichment. -/
def endedByToken (run : SyncRun) : Prop :=
  calls.sourceFound = true ∧ calls.factory.isOk = true ∧ run.status = .queued ∧
    (runLibraries calls.libraries = .error .cancelled ∨
      runLibraries calls.libraries = .ok () ∧ calls.enrichAfterSync = true ∧
        calls.enrichment.seesCancellation = true)

/-- The run was closed, as interrupted if the token ended it. -/
structure Closes (run : SyncRun) : Prop where
  ended : (calls.execute run).status.active = false
  interrupted : calls.endedByToken run → (calls.execute run).status = .interrupted

end ExecuteCalls

/-! ### What the enrichment leaves -/

section Enrichment
variable {now : Time} {run run' : SyncRun}

theorem status_report (counters : EnrichmentCounters) (total percent : Nat) :
    (report counters total percent now run).status = run.status := by
  unfold report
  split <;> rfl

theorem status_enrichItems (total : Nat) (calls : List EnrichmentCall)
    (counters : EnrichmentCounters) (run : SyncRun) :
    (enrichItems total now calls counters run).2.status = run.status := by
  induction calls generalizing counters run with
  | nil => rfl
  | cons c calls ih =>
    unfold enrichItems
    split
    · rfl
    · split
      · exact ih _ _
      · rfl
      · dsimp only
        split
        exacts [rfl, (ih _ _).trans (status_report _ _ _)]
      · dsimp only
        split
        exacts [rfl, (ih _ _).trans (status_report _ _ _)]

theorem EnrichmentCalls.status_enrich (calls : EnrichmentCalls) :
    (calls.enrich now run).2.status = run.status := by
  unfold enrich
  split
  · rfl
  · split_ifs
    exacts [rfl, (status_enrichItems _ _ _ _).trans (status_report _ _ _), status_report _ _ _]

end Enrichment

namespace ExecuteCalls
variable (calls : ExecuteCalls) {run : SyncRun}

theorem status_handle (run : SyncRun) : (calls.handle run).status.active = false := by
  unfold handle
  split
  next => rfl
  next h => exact Bool.eq_false_iff.2 h

/-- The row after the `try` block and its handler. -/
def settled (run : SyncRun) : SyncRun :=
  match calls.attempt run with
  | (.ok (), run) => run
  | (.error _, run) => calls.handle run

theorem settled_of_not_queued (h : run.status ≠ .queued) :
    calls.settled run = calls.handle run := by
  unfold settled attempt runQueued
  rw [if_neg h]

/-- The enrichment ends in success or in failure, whatever the token says. -/
theorem status_settled_of_enriched (hq : run.status = .queued)
    (hsync : runLibraries calls.libraries = .ok ()) (henrich : calls.enrichAfterSync = true) :
    (calls.settled run).status = .succeeded ∨ (calls.settled run).status = .failed := by
  have hkept : ∀ run', (calls.enrichment.enrich calls.now run').2.status = run'.status :=
    fun _ => calls.enrichment.status_enrich
  have hstatus := hkept
    (SyncRun.progressed "Enriquecendo metadados externos · preparando lote." calls.now
      (SyncRun.claimed calls.now run))
  unfold settled attempt runQueued executeRun
  rw [if_pos hq, hsync]
  dsimp only
  rw [if_pos henrich, if_pos ⟨rfl, henrich⟩]
  unfold enrichAfter
  generalize calls.enrichment.enrich calls.now _ = result at hstatus ⊢
  obtain ⟨e | counters, run'⟩ := result
  · refine .inr ?_
    have hactive : run'.status.active = true := by
      rw [show run'.status = .running from hstatus]
      rfl
    show (calls.handle run').status = .failed
    unfold handle
    rw [if_pos hactive]
    rfl
  · exact .inl rfl

theorem status_settled_of_cancelled (hq : run.status = .queued)
    (hsync : runLibraries calls.libraries = .error .cancelled) :
    (calls.settled run).status = .interrupted := by
  unfold settled attempt runQueued executeRun
  rw [if_pos hq, hsync]
  rfl

theorem status_settled_of_fault (hq : run.status = .queued) {f : Fault}
    (hsync : runLibraries calls.libraries = .error (.fault f)) :
    (calls.settled run).status = .failed := by
  unfold settled attempt runQueued executeRun
  rw [if_pos hq, hsync]
  cases f <;> rfl

theorem status_settled_of_plain (hq : run.status = .queued)
    (hsync : runLibraries calls.libraries = .ok ())
    (henrich : calls.enrichAfterSync = false) : (calls.settled run).status = .succeeded := by
  unfold settled attempt runQueued executeRun
  rw [if_pos hq, hsync]
  dsimp only
  rw [henrich]
  rfl

/-- Once there is an orchestrator, the run is closed. -/
theorem settled_ended (run : SyncRun) : (calls.settled run).status.active = false := by
  by_cases hq : run.status = .queued
  · rcases hsync : runLibraries calls.libraries with e | u
    · rcases e with _ | f
      · rw [calls.status_settled_of_cancelled hq hsync]; rfl
      · rw [calls.status_settled_of_fault hq hsync]; rfl
    · cases henrich : calls.enrichAfterSync
      · rw [calls.status_settled_of_plain hq hsync henrich]; rfl
      · rcases calls.status_settled_of_enriched hq hsync henrich with h | h <;> rw [h] <;> rfl
  · rw [calls.settled_of_not_queued hq]
    exact calls.status_handle run

theorem execute_of_orchestrator (hsource : calls.sourceFound = true)
    (hfactory : calls.factory.isOk = true) :
    calls.execute run = calls.settled run := by
  unfold execute settled
  rw [if_pos hsource]
  rcases h : calls.factory with f | u
  · rw [h] at hfactory; cases hfactory
  · rfl

theorem execute_of_no_orchestrator (h : ¬ (calls.sourceFound = true ∧ calls.factory.isOk = true)) :
    calls.execute run = run := by
  unfold execute
  split
  next hsource =>
    rcases hf : calls.factory with f | u
    · rfl
    · exact absurd ⟨hsource, by rw [hf]; rfl⟩ h
  next => rfl

/-- `execute` closes an active run, as interrupted when the token ended it, exactly when the source
is there, the factory returns, and the token is not found cancelled by the enrichment after a
synchronization that succeeded. -/
theorem closes_iff (run : SyncRun) :
    calls.Closes run ↔
    (run.status.active = true → calls.sourceFound = true ∧ calls.factory.isOk = true) ∧
      (calls.sourceFound = true → calls.factory.isOk = true → run.status = .queued →
        runLibraries calls.libraries = .ok () →
        calls.enrichAfterSync = true → calls.enrichment.seesCancellation = false) := by
  constructor
  · intro h
    refine ⟨fun hactive => ?_, fun hsource hfactory hq hsync henrich => ?_⟩
    · by_contra hno
      have hended := h.ended
      rw [calls.execute_of_no_orchestrator hno, hactive] at hended
      cases hended
    · refine Bool.eq_false_iff.2 fun hsees => ?_
      have hinterrupted := h.interrupted ⟨hsource, hfactory, hq, .inr ⟨hsync, henrich, hsees⟩⟩
      rw [calls.execute_of_orchestrator hsource hfactory] at hinterrupted
      rcases calls.status_settled_of_enriched hq hsync henrich with h | h <;>
        rw [h] at hinterrupted <;> cases hinterrupted
  · rintro ⟨horchestrator, hunseen⟩
    refine ⟨?_, ?_⟩
    · by_cases ho : calls.sourceFound = true ∧ calls.factory.isOk = true
      · rw [calls.execute_of_orchestrator ho.1 ho.2]
        exact calls.settled_ended run
      · rw [calls.execute_of_no_orchestrator ho]
        exact Bool.eq_false_iff.2 fun hactive => ho (horchestrator hactive)
    · rintro ⟨hsource, hfactory, hq, hsync | ⟨hsync, henrich, hsees⟩⟩
      · rw [calls.execute_of_orchestrator hsource hfactory]
        exact calls.status_settled_of_cancelled hq hsync
      · rw [hunseen hsource hfactory hq hsync henrich] at hsees
        cases hsees

section Example

/-- The factory raises in the thread. -/
def factoryRaises : ExecuteCalls where
  sourceFound := true
  enrichAfterSync := false
  factory := .error .other
  libraries := []
  enrichment := ⟨.ok (), false, false, []⟩
  now := 0

theorem factory_leaves_the_run_queued :
    ¬ factoryRaises.Closes (SyncRun.acquired 1 1 .manual true 0) := by
  intro h
  have hended := h.ended
  cases hended

/-- Cancelled while it enriches, a run ends as if it had succeeded. -/
example : (ExecuteCalls.execute { factoryRaises with
    factory := .ok ()
    enrichAfterSync := true
    enrichment := ⟨.ok (), true, false, [⟨true, .skipped, true⟩]⟩ }
      (SyncRun.acquired 1 1 .manual true 0)).status =
      .succeeded := rfl

end Example

end ExecuteCalls

end Euvieouvi
