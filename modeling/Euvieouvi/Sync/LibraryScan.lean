import Euvieouvi.Database
import Euvieouvi.Lib.Runs

/-!
# Scanning a library

`SyncOrchestrator._sync_library` (`sync/orchestrator.py`) as a sequence of committed steps against a
server whose listing changes meanwhile. An attempt begins by reading the checkpoint of the library
and the clock; each page of the catalog is persisted together with the checkpoint, the sweep of
missing items and the end of the attempt are transactions of their own, and after any of them the
attempt may be gone. The cursor is the decoded JSON object of the column.

The server lists the items changed after `updated_since` in a fixed order and every listed item is
persisted. `stored` (each version of an item that a page brought) and `facts` (the committed steps)
are no part of the program.
-/

namespace Euvieouvi

inductive ScanStage | media | history
deriving DecidableEq, Repr

structure ScanCursor where
  stage : ScanStage
  start : Nat
deriving DecidableEq, Repr

structure SyncCheckpoint where
  strategy : String := "incremental_v2"
  cursor : Option ScanCursor := none
  watermarkAt : Option Time := none
  lastFullScanAt : Option Time := none
  lastExternalId : Option String := none
  lastSuccessfulRunId : Option Nat := none
  updatedAt : Time := 0
deriving DecidableEq, Repr

/-- `_FULL_SCAN_INTERVAL`. -/
def fullScanInterval : Time := Time.minutes (7 * 24 * 60)

/-- `_WATERMARK_OVERLAP`. -/
def watermarkOverlap : Time := Time.minutes 2

/-- `_resume_position`. -/
def resumePosition (checkpoint : Option SyncCheckpoint) : ScanCursor :=
  match checkpoint with
  | some c =>
    if c.strategy = "full_scan_v1" ∨
      c.strategy = "incremental_v2" then c.cursor.getD ⟨.media, 0⟩ else ⟨.media, 0⟩
  | none => ⟨.media, 0⟩

structure ServerItem where
  externalId : String
  updatedAt : Time
deriving DecidableEq, Repr

def changedAfter (updatedSince : Option Time) (x : ServerItem) : Bool :=
  updatedSince.all (· < x.updatedAt)

/-- The items changed after `updated_since`. -/
def listing (updatedSince : Option Time) (server : List ServerItem) : List ServerItem :=
  server.filter (changedAfter updatedSince)

/-- A page of the listing, and where the next one begins. -/
def mediaPage (updatedSince : Option Time) (start size : Nat) (server : List ServerItem) :
    List ServerItem × Option Nat :=
  let items := ((listing updatedSince server).drop start).take size
  (items, if start + items.length < (listing updatedSince server).length then some
    (start + items.length) else none)

/-- Where an attempt stands between two of its transactions. -/
inductive AttemptStage
  | media (start : Nat)
  | mediaDone
  | history (start : Nat)
  | historyDone
deriving DecidableEq, Repr

/-- The local variables of `_sync_library`. -/
structure Attempt where
  runId : Nat
  pageSize : Nat
  resumed : ScanCursor
  scanStartedAt : Time
  previousWatermark : Option Time
  periodicFullScan : Bool
  stage : AttemptStage
  /-- The scan that this attempt resumes had been swept. -/
  sweptBefore : Bool
deriving DecidableEq, Repr

namespace Attempt

def fullCatalogScan (a : Attempt) : Bool := a.periodicFullScan && decide (a.resumed = ⟨.media, 0⟩)

def updatedSince (a : Attempt) : Option Time :=
  if a.periodicFullScan then none else a.previousWatermark

/-- The watermark that the attempt stores if it completes. -/
def watermark (a : Attempt) : Time := a.scanStartedAt - watermarkOverlap

end Attempt

inductive ScanFact
  | page (updatedSince : Option Time) (start : Nat) (next : Option Nat)
  | swept
  | historyPage
  | completed (fullScan : Bool)
deriving DecidableEq, Repr

/-- The last page was followed by a sweep. -/
def sweptLast (facts : List ScanFact) : Bool :=
  facts.foldl (fun swept fact => match fact with
    | .page .. => false
    | .swept => true
    | _ => swept) false

structure LibraryState where
  clock : Time
  server : List ServerItem
  checkpoint : Option SyncCheckpoint := none
  attempt : Option Attempt := none
  stored : List ServerItem := []
  facts : List ScanFact := []
deriving DecidableEq

inductive LibraryEvent
  | edit (externalId : String) (updatedAt : Time)
  | add (position : Nat) (externalId : String) (updatedAt : Time)
  | remove (externalId : String)
  | begin (runId pageSize : Nat)
  | persistMediaPage
  | sweep
  | persistHistoryPage (next : Option Nat)
  | complete
  | interrupt
deriving DecidableEq, Repr

namespace LibraryState

/-- Before the first attempt. -/
def unscanned (clock : Time) (server : List ServerItem) : LibraryState where
  clock := clock
  server := server

/-- `_set_checkpoint`; `none` is the stage `complete`. -/
def setCheckpoint (runId : Nat) (cursor : Option ScanCursor) (s : LibraryState) : LibraryState :=
  let c := s.checkpoint.getD {}
  { s with checkpoint := some { c with
      strategy := "incremental_v2"
      cursor := cursor
      lastSuccessfulRunId := if cursor.isNone then some runId else c.lastSuccessfulRunId
      updatedAt := s.clock } }

/-- `_complete_checkpoint`. -/
def completeCheckpoint (runId : Nat) (watermarkAt : Time) (fullScan : Bool) (s : LibraryState) :
    LibraryState :=
  let c := s.checkpoint.getD {}
  { s with checkpoint := some { c with
      strategy := "incremental_v2"
      cursor := none
      watermarkAt := some watermarkAt
      lastFullScanAt := if fullScan then some watermarkAt else c.lastFullScanAt
      lastSuccessfulRunId := some runId
      updatedAt := s.clock } }

/-- The start of `_sync_library`. -/
def newAttempt (runId pageSize : Nat) (s : LibraryState) : Attempt :=
  let previousWatermark := s.checkpoint.bind (·.watermarkAt)
  let lastFullScanAt := s.checkpoint.bind (·.lastFullScanAt)
  let resumed := resumePosition s.checkpoint
  { runId := runId
    pageSize := pageSize
    resumed := resumed
    scanStartedAt := s.clock
    previousWatermark := previousWatermark
    periodicFullScan := previousWatermark.isNone || lastFullScanAt.all fun t =>
      fullScanInterval ≤ s.clock - t
    stage := match resumed.stage with
      | .media => .media resumed.start
      | .history => .history resumed.start
    sweptBefore := sweptLast s.facts }

/-- One pass of the loop over the catalog. -/
def persistMediaPage (a : Attempt) (start : Nat) (s : LibraryState) : LibraryState :=
  let (items, next) := mediaPage a.updatedSince start a.pageSize s.server
  let s := { s with
    stored := s.stored ++ items, facts := s.facts ++ [ScanFact.page a.updatedSince start next] }
  match next with
  | some n =>
    { s.setCheckpoint a.runId (some ⟨.media, n⟩) with attempt := some { a with stage := .media n } }
  | none =>
    { s.setCheckpoint a.runId (some ⟨.history, 0⟩) with
    attempt := some { a with stage := .mediaDone } }

/-- After the last page of the catalog. -/
def sweep (a : Attempt) (s : LibraryState) : LibraryState :=
  { s with
    attempt := some { a with stage := .history 0 }
    facts := if a.fullCatalogScan then s.facts ++ [.swept] else s.facts }

/-- One pass of the loop over the history. -/
def persistHistoryPage (a : Attempt) (next : Option Nat) (s : LibraryState) : LibraryState :=
  let s := { s with facts := s.facts ++ [ScanFact.historyPage] }
  match next with
  | some n =>
    { s.setCheckpoint a.runId (some ⟨.history, n⟩) with
    attempt := some { a with stage := .history n } }
  | none => { s.setCheckpoint a.runId none with attempt := some { a with stage := .historyDone } }

def complete (a : Attempt) (s : LibraryState) : LibraryState :=
  { s.completeCheckpoint a.runId a.watermark a.periodicFullScan with
    attempt := none
    facts := s.facts ++ [.completed a.periodicFullScan] }

def act (s : LibraryState) : LibraryEvent → LibraryState
  | .edit id updatedAt =>
    { s with server := s.server.map fun x => if x.externalId = id then ⟨id, updatedAt⟩ else x }
  | .add position id updatedAt => { s with server := s.server.insertIdx position ⟨id, updatedAt⟩ }
  | .remove id => { s with server := s.server.filter fun x => x.externalId ≠ id }
  | .begin runId pageSize =>
    match s.attempt with
    | none => { s with attempt := some (s.newAttempt runId pageSize) }
    | some _ => s
  | .persistMediaPage =>
    match s.attempt with
    | some a =>
      match a.stage with
      | .media start => s.persistMediaPage a start
      | _ => s
    | none => s
  | .sweep =>
    match s.attempt with
    | some a => if a.stage = .mediaDone then s.sweep a else s
    | none => s
  | .persistHistoryPage next =>
    match s.attempt with
    | some a =>
      match a.stage with
      | .history _ => s.persistHistoryPage a next
      | _ => s
    | none => s
  | .complete =>
    match s.attempt with
    | some a => if a.stage = .historyDone then s.complete a else s
    | none => s
  | .interrupt => { s with attempt := none }

/-- What an event does, if it does anything. -/
inductive Acts (s : LibraryState) : LibraryEvent → LibraryState → Prop
  | idle (event : LibraryEvent) : Acts s event s
  | edit (id : String) (updatedAt : Time) :
      Acts s (.edit id updatedAt) { s with
        server := s.server.map fun x => if x.externalId = id then ⟨id, updatedAt⟩ else x }
  | add (position : Nat) (id : String) (updatedAt : Time) :
      Acts s (.add position id updatedAt) { s with
        server := s.server.insertIdx position ⟨id, updatedAt⟩ }
  | remove (id : String) :
    Acts s (.remove id) { s with server := s.server.filter fun x => x.externalId ≠ id }
  | begin (runId pageSize : Nat) : s.attempt = none →
      Acts s (.begin runId pageSize) { s with attempt := some (s.newAttempt runId pageSize) }
  | mediaPage {a : Attempt} {start : Nat} : s.attempt = some a → a.stage = .media start →
      Acts s .persistMediaPage (s.persistMediaPage a start)
  | sweep {a : Attempt} : s.attempt = some a → a.stage = .mediaDone → Acts s .sweep (s.sweep a)
  | historyPage {a : Attempt} {start : Nat} (next : Option Nat) : s.attempt = some a →
    a.stage = .history start →
      Acts s (.persistHistoryPage next) (s.persistHistoryPage a next)
  | complete {a : Attempt} : s.attempt = some a → a.stage = .historyDone →
    Acts s .complete (s.complete a)
  | interrupt : Acts s .interrupt { s with attempt := none }

theorem acts (s : LibraryState) (event : LibraryEvent) : s.Acts event (s.act event) := by
  cases event with
  | edit id updatedAt => exact .edit id updatedAt
  | add position id updatedAt => exact .add position id updatedAt
  | remove id => exact .remove id
  | begin runId pageSize =>
    simp only [act]
    split
    next hnone => exact .begin runId pageSize hnone
    next => exact .idle _
  | persistMediaPage =>
    simp only [act]
    split
    next a ha =>
      split
      next start hstage => exact .mediaPage ha hstage
      next => exact .idle _
    next => exact .idle _
  | sweep =>
    simp only [act]
    split
    next a ha =>
      split
      next hstage => exact .sweep ha hstage
      next => exact .idle _
    next => exact .idle _
  | persistHistoryPage next =>
    simp only [act]
    split
    next a ha =>
      split
      next start hstage => exact .historyPage next ha hstage
      next => exact .idle _
    next => exact .idle _
  | complete =>
    simp only [act]
    split
    next a ha =>
      split
      next hstage => exact .complete ha hstage
      next => exact .idle _
    next => exact .idle _
  | interrupt => exact .interrupt

/-- An event at a moment. -/
def step (s : LibraryState) (e : Time × LibraryEvent) : LibraryState :=
  { s with clock := e.1 }.act e.2

end LibraryState

end Euvieouvi
