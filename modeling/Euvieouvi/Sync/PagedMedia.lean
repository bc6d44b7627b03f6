import Euvieouvi.Connectors.Pages
import Euvieouvi.Lib.Runs
import Euvieouvi.Sync.LibraryScan

/-!
# The pages of the media stage

The loop over the catalog in `_sync_library` (`sync/orchestrator.py`) against a server whose listing
stays the same, in attempts that may be interrupted between any two writes of a page. A page is
written in a session, issue by issue and item by item, then the checkpoint, and one commit stores
both. A new attempt begins at the stored position (`_resume_position`), with a new connector or with
the one before.
-/

namespace Euvieouvi

/-- What `_persist_media_page` has written of a page. -/
structure StoredPage where
  issues : List PageIssue := []
  items : List ExternalMediaItem := []

/-- The page has an item or an issue of the row. -/
def StoredPage.processes (page : StoredPage) (row : ListedRow) : Bool :=
  page.items.any (fun item => item.externalId == row.externalId) || page.issues.any fun issue =>
    issue.externalId == some row.externalId

/-- The open session of a page: the checkpoint is the one that is stored until it is set. -/
structure PageSession where
  written : StoredPage := {}
  checkpoint : Option SyncCheckpoint

/-- Where an attempt stands in the loop. -/
inductive StagePosition
  | requesting (start : Nat)
  | writing (page : Page) (issues : List PageIssue) (items : List ExternalMediaItem)
    (session : PageSession)
  | committing (page : Page) (session : PageSession)
  | left

structure PagedStage where
  pages : List StoredPage := []
  checkpoint : Option SyncCheckpoint := none
  position : Option StagePosition := none
  /-- The memory of the connector. -/
  last : PlexConnector.LastPage := none

/-- The clock and the connector at a step. -/
structure StageInput where
  now : Time
  reader : RowReader

inductive StageEvent
  | begin (newConnector : Bool)
  | advance (input : StageInput)
  | interrupt

namespace PagedStage

/-- Before the first attempt of a scan, whatever the checkpoint knows of earlier ones. -/
def unstarted (checkpoint : Option SyncCheckpoint) : PagedStage where
  checkpoint := checkpoint.map fun c => { c with cursor := none }

/-- `_set_checkpoint` of the session. -/
def markCheckpoint (now : Time) (cursor : ScanCursor) (checkpoint : Option SyncCheckpoint) :
    Option SyncCheckpoint :=
  some { checkpoint.getD {} with
    strategy := "incremental_v2", cursor := some cursor, updatedAt := now }

/-- The cursor of a page: `next_stage` and `next_start`. -/
def cursorAfter (page : Page) : ScanCursor :=
  ⟨if page.hasMore then .media else .history, page.nextStart.getD 0⟩

/-- The next step of the attempt. -/
def advance (server : MediaServer) (size : PageSize) (input : StageInput) (s : PagedStage) :
    PagedStage :=
  match s.position with
  | none | some .left => s
  | some (.requesting start) =>
    match server.getMediaPage input.reader ⟨start, size⟩ s.last with
    | .error _ => { s with position := none }
    | .ok (page, last) =>
      { s with
        position := some (.writing page page.issues page.items { checkpoint := s.checkpoint }),
        last := last }
  | some (.writing page (issue :: issues) items session) =>
    let written := { session.written with issues := session.written.issues ++ [issue] }
    { s with position := some (.writing page issues items { session with written := written }) }
  | some (.writing page [] (item :: items) session) =>
    let written := { session.written with items := session.written.items ++ [item] }
    { s with position := some (.writing page [] items { session with written := written }) }
  | some (.writing page [] [] session) =>
    let checkpoint := markCheckpoint input.now (cursorAfter page) session.checkpoint
    { s with position := some (.committing page { session with checkpoint := checkpoint }) }
  | some (.committing page session) =>
    { s with
      pages := s.pages ++ [session.written]
      checkpoint := session.checkpoint
      position := some (if page.hasMore then .requesting (page.nextStart.getD 0) else .left) }

/-- The start of `_sync_library`. -/
def begin (newConnector : Bool) (s : PagedStage) : PagedStage :=
  let resumed := resumePosition s.checkpoint
  { s with
    position := some (match resumed.stage with
      | .media => .requesting resumed.start
      | .history => .left)
    last := if newConnector then none else s.last }

def step (server : MediaServer) (size : PageSize) (s : PagedStage) : StageEvent → PagedStage
  | .begin newConnector => if s.position.isNone then s.begin newConnector else s
  | .advance input => s.advance server size input
  | .interrupt => { s with position := none }

end PagedStage

namespace MediaServer
variable (server : MediaServer) (reader : RowReader)

/-- What is stored of some rows. -/
def contents (rows : List ListedRow) : StoredPage where
  items := rows.filterMap reader.item?
  issues := match server.connector with
    | .plex => rows.filterMap reader.mappingIssue?
    | .jellyfin =>
      rows.flatMap fun row => (reader.lookupIssue? row).toList ++ (reader.mappingIssue? row).toList

variable {server reader} {size : PageSize} {k : Nat} {last : PlexConnector.LastPage}
  {rows : List ListedRow} {row : ListedRow}

theorem item?_externalId {item : ExternalMediaItem} (h : reader.item? row = some item) :
    item.externalId = row.externalId := by
  unfold RowReader.item? at h
  split at h
  next item' hitem =>
    cases h
    exact item'.2
  next => cases h

theorem mappingIssue?_externalId {issue : PageIssue} (h : reader.mappingIssue? row = some issue) :
    issue.externalId = some row.externalId := by
  unfold RowReader.mappingIssue? at h
  split at h
  next => cases h
  next => cases h; rfl

theorem lookupIssue?_externalId {issue : PageIssue} (h : reader.lookupIssue? row = some issue) :
    issue.externalId = some row.externalId := by
  obtain ⟨error, -, rfl⟩ := Option.map_eq_some_iff.1 h
  rfl

/-- A row is an item or an issue. -/
theorem item?_or_mappingIssue? (reader : RowReader) (row : ListedRow) :
    (∃ item, reader.item? row = some item) ∨ ∃ issue, reader.mappingIssue? row = some issue := by
  unfold RowReader.item? RowReader.mappingIssue?
  cases reader.mapRow row with
  | ok item => exact .inl ⟨_, rfl⟩
  | error e => exact .inr ⟨_, rfl⟩

theorem mem_issues_contents {issue : PageIssue} (h : issue ∈ (server.contents reader rows).issues) :
    ∃ r ∈ rows, issue.externalId = some r.externalId := by
  unfold contents at h
  dsimp only at h
  split at h
  · obtain ⟨r, hr, hissue⟩ := List.mem_filterMap.1 h
    exact ⟨r, hr, mappingIssue?_externalId hissue⟩
  · obtain ⟨r, hr, hissue⟩ := List.mem_flatMap.1 h
    refine ⟨r, hr, ?_⟩
    rcases List.mem_append.1 hissue with hissue | hissue
    · exact lookupIssue?_externalId (Option.mem_toList.1 hissue)
    · exact mappingIssue?_externalId (Option.mem_toList.1 hissue)

theorem mappingIssue_mem_contents {issue : PageIssue} (hrow : row ∈ rows)
    (h : reader.mappingIssue? row = some issue) :
    issue ∈ (server.contents reader rows).issues := by
  unfold contents
  dsimp only
  split
  · exact List.mem_filterMap.2 ⟨row, hrow, h⟩
  · exact List.mem_flatMap.2 ⟨row, hrow, List.mem_append_right _ (Option.mem_toList.2 h)⟩

/-- The stored page of some rows processes just these. -/
theorem processes_contents : (server.contents reader rows).processes row = true ↔
    row.externalId ∈ rows.map (·.externalId) := by
  unfold StoredPage.processes
  rw [Bool.or_eq_true, List.any_eq_true, List.any_eq_true, List.mem_map]
  constructor
  · rintro (⟨item, hitem, hid⟩ | ⟨issue, hissue, hid⟩)
    · obtain ⟨r, hr, hmapped⟩ := List.mem_filterMap.1 hitem
      exact ⟨r, hr, (item?_externalId hmapped).symm.trans (by simpa using hid)⟩
    · obtain ⟨r, hr, hissueId⟩ := mem_issues_contents hissue
      rw [hissueId] at hid
      exact ⟨r, hr, by simpa using hid⟩
  · rintro ⟨r, hr, hid⟩
    rcases item?_or_mappingIssue? reader r with ⟨item, hitem⟩ | ⟨issue, hissue⟩
    · refine .inl ⟨item, List.mem_filterMap.2 ⟨r, hr, hitem⟩, ?_⟩
      rw [item?_externalId hitem, hid]
      exact beq_self_eq_true _
    · refine .inr ⟨issue, mappingIssue_mem_contents hr hissue, ?_⟩
      rw [mappingIssue?_externalId hissue, hid]
      exact beq_self_eq_true _

end MediaServer

end Euvieouvi
