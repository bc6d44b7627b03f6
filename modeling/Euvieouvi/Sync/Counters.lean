import Euvieouvi.Connectors.Pages
import Euvieouvi.Lib.Runs
import Euvieouvi.Playback.Recorded
import Euvieouvi.Sync.Availability
import Mathlib.Algebra.GroupWithZero.Nat

/-!
# The counters of a run

`_persist_media_page` and `_persist_history_page` (`sync/orchestrator.py`) count what happens to the
entries of a page in two rows: that of the run and that of the library in the run. A history event
that cannot be persisted is counted in the first only (`counters_apart`), and `counters_agree_iff`
says that nothing else sets them apart.
-/

namespace Euvieouvi

/-- The counters of `sync_runs`. -/
structure RunCounters where
  itemsRead : Nat := 0
  itemsInserted : Nat := 0
  itemsUpdated : Nat := 0
  itemsUnchanged : Nat := 0
  itemsFailed : Nat := 0
  eventsInserted : Nat := 0
deriving DecidableEq, Repr

/-- The row of a library in a run. -/
structure SyncRunLibrary where
  libraryId : Nat
  itemsRead : Nat := 0
  itemsInserted : Nat := 0
  itemsUpdated : Nat := 0
  itemsFailed : Nat := 0
  itemsScanned : Nat := 0
  itemsTotal : Option Nat := none
deriving DecidableEq, Repr

structure SyncError where
  libraryId : Nat
  mediaExternalId : Option String
  category : String
  message : String
deriving DecidableEq, Repr

/-- `(context + issue.message)[:1000]`. -/
def PageIssue.errorMessage (issue : PageIssue) : String :=
  let context := match issue.title.filter (· ≠ "") with
    | some title => s!"título={title} · "
    | none => ""
  String.ofList ((context ++ issue.message).toList.take 1000)

/-- The rows of a run, and the session that its pages are persisted in. `failedMedia` is no part of
the program: it counts the entries of media pages that failed. -/
structure SyncExecution where
  run : RunCounters := {}
  details : Table SyncRunLibrary.libraryId
  errors : List SyncError := []
  session : PersistSession
  failedMedia : Nat := 0

namespace SyncExecution
variable (library : Nat)

/-- The assignments to the row of the library. -/
def countDetail (f : Assignment SyncRunLibrary.libraryId) (s : SyncExecution) : SyncExecution :=
  { s with details := s.details.update (·.libraryId == library) f }

def addError (mediaExternalId : Option String) (category message : String) (s : SyncExecution) :
    SyncExecution :=
  { s with errors := s.errors ++ [⟨library, mediaExternalId, category, message⟩] }

/-- An issue of a media page. -/
def countMediaIssue (s : SyncExecution) (issue : PageIssue) : SyncExecution :=
  let counted := { s with
    run := { s.run with itemsRead := s.run.itemsRead + 1, itemsFailed := s.run.itemsFailed + 1 }
    failedMedia := s.failedMedia + 1 }
  (counted.countDetail library
    ⟨fun d => { d with itemsRead := d.itemsRead + 1, itemsFailed := d.itemsFailed + 1 }, fun _ =>
      rfl⟩).addError library
      issue.externalId issue.category issue.errorMessage

def countRead (s : SyncExecution) : SyncExecution :=
  { s with run := { s.run with itemsRead := s.run.itemsRead + 1 } }.countDetail library
    ⟨fun d => { d with itemsRead := d.itemsRead + 1 }, fun _ => rfl⟩

def countLost (s : SyncExecution) : SyncExecution :=
  let counted := { s with
    run := { s.run with itemsFailed := s.run.itemsFailed + 1 }
    failedMedia := s.failedMedia + 1 }
  counted.countDetail library ⟨fun d => { d with itemsFailed := d.itemsFailed + 1 }, fun _ => rfl⟩

def countClassification (classification : ItemClassification) (s : SyncExecution) : SyncExecution :=
  match classification with
  | .inserted =>
    { s with run := { s.run with itemsInserted := s.run.itemsInserted + 1 } }.countDetail library
      ⟨fun d => { d with itemsInserted := d.itemsInserted + 1 }, fun _ => rfl⟩
  | .updated =>
    { s with run := { s.run with itemsUpdated := s.run.itemsUpdated + 1 } }.countDetail library
      ⟨fun d => { d with itemsUpdated := d.itemsUpdated + 1 }, fun _ => rfl⟩
  | .unchanged => { s with run := { s.run with itemsUnchanged := s.run.itemsUnchanged + 1 } }

def countEvent (s : SyncExecution) : SyncExecution :=
  { s with run := { s.run with eventsInserted := s.run.eventsInserted + 1 } }

variable (safeErrorMessage : PersistError → String)

/-- What follows the persistence of an item of a media page. -/
def countOutcome (externalId : String) (outcome : PageOutcome) (s : SyncExecution) :
    SyncExecution :=
  match outcome.result with
  | none =>
    let message := (outcome.error.map safeErrorMessage).getD ""
    (s.countLost library).addError library (some externalId) "item_persistence" message
  | some result =>
    let repaired := if outcome.repaired = 0 then s else
      s.addError library (some externalId) "catalog_auto_reconciled"
        s!"Catalog repaired automatically before retry; {outcome.repaired} item(s) merged."
    let classified := repaired.countClassification library result.classification
    let counted := if result.eventInserted then classified.countEvent else classified
    if result.viewCountRegression then
      counted.addError library (some externalId) "view_count_regression"
        "A lower external view count was preserved for reconciliation."
    else counted

/-- An item of a media page. An exception that leaves `_persist_media_with_repair` would end the
page; none does. -/
def persistItem (service : MediaPersistenceService) (s : SyncExecution) (x : PagedItem) :
    SyncExecution :=
  let (result, session) := (service.persistMediaWithRepair x).run s.session
  let read := { s.countRead library with session := session }
  match result with
  | .ok outcome => read.countOutcome library safeErrorMessage x.item.externalId outcome
  | .error _ => read

/-- An event of a history page, in its savepoint. -/
def persistEvent (service : MediaPersistenceService) (s : SyncExecution)
    (event : ExternalWatchEvent) : SyncExecution :=
  let (result, session) :=
    (Program.attempt (service.persistEvent event .synchronization)).run s.session
  let persisted := { s with session := session }
  match result with
  | .ok (.ok true) => persisted.countEvent
  | .ok (.error error) =>
    { persisted with
      run := { persisted.run with itemsFailed := persisted.run.itemsFailed + 1 } }.addError library
      (some event.mediaExternalId) "item_persistence" (safeErrorMessage error)
  | _ => persisted

/-- An issue of a history page. -/
def countHistoryIssue (s : SyncExecution) (issue : PageIssue) : SyncExecution :=
  ({ s with run := { s.run with itemsFailed := s.run.itemsFailed + 1 } }.countDetail library
    ⟨fun d => { d with itemsFailed := d.itemsFailed + 1 }, fun _ => rfl⟩).addError library
      issue.externalId issue.category issue.errorMessage

/-- A page of a library, and for a page of its catalog how far that goes. -/
inductive Step
  | mediaPage (library : Nat) (page : ScanPage PagedItem) (issues : List PageIssue)
    (itemsScanned : Nat) (itemsTotal : Option Nat)
  | historyPage (library : Nat) (page : ScanPage ExternalWatchEvent) (issues : List PageIssue)
  /-- What is written to the catalog between two pages. -/
  | elsewhere (session : PersistSession)

/-- The service of a page, and the session it begins with. -/
def pageService {α : Type} (service : MediaPersistenceService) (page : ScanPage α) :
    MediaPersistenceService :=
  { service with libraryId := library, pathRoots := page.pathRoots, now := page.now }

def openPage (s : SyncExecution) : SyncExecution := { s with session := freshService s.session }

/-- `_persist_media_page`. -/
def persistMediaPage (service : MediaPersistenceService) (page : ScanPage PagedItem)
    (issues : List PageIssue)
    (itemsScanned : Nat) (itemsTotal : Option Nat) (s : SyncExecution) : SyncExecution :=
  let reported := issues.foldl (countMediaIssue library) s.openPage
  let persisted := page.entries.foldl
    (persistItem library safeErrorMessage (pageService library service page)) reported
  persisted.countDetail library
    ⟨fun d => { d with itemsScanned := itemsScanned, itemsTotal := itemsTotal }, fun _ => rfl⟩

/-- `_persist_history_page`. -/
def persistHistoryPage (service : MediaPersistenceService) (page : ScanPage ExternalWatchEvent)
    (issues : List PageIssue) (s : SyncExecution) : SyncExecution :=
  let reported := issues.foldl (countHistoryIssue library) s.openPage
  page.entries.foldl
    (persistEvent library safeErrorMessage (pageService library service page)) reported

/-- A page of a library that the run has no row for raises at its start. -/
def step (safeErrorMessage : PersistError → String) (service : MediaPersistenceService)
    (s : SyncExecution) :
    Step → SyncExecution
  | .mediaPage library page issues itemsScanned itemsTotal =>
    if s.details.contains library then
      s.persistMediaPage library safeErrorMessage service page issues itemsScanned itemsTotal
    else s
  | .historyPage library page issues =>
    if s.details.contains library then s.persistHistoryPage library safeErrorMessage service page
      issues else s
  | .elsewhere session => { s with session := session }

/-- `_acquire`: the rows of a new run over these libraries. -/
def acquire (libraries : List Nat) (session : PersistSession) : SyncExecution where
  details := libraries.foldl (fun details library => details.insert { libraryId := library }) .empty
  session := session

/-! ### The two rows of counters -/

/-- The sum of a counter over the libraries of the run. -/
def total (counter : SyncRunLibrary → Nat) (s : SyncExecution) : Nat :=
  (s.details.rows.map counter).sum

/-- The counters of the run are those of its libraries, but for `n` failures, and every item read is
accounted for, but for the `m` that are being persisted. -/
structure Balanced (n m : Nat) (s : SyncExecution) : Prop where
  read : s.run.itemsRead = s.total (·.itemsRead)
  inserted : s.run.itemsInserted = s.total (·.itemsInserted)
  updated : s.run.itemsUpdated = s.total (·.itemsUpdated)
  failed : s.run.itemsFailed = s.total (·.itemsFailed) + n
  accounted : s.run.itemsRead =
    s.run.itemsInserted + s.run.itemsUpdated + s.run.itemsUnchanged + s.failedMedia + m

section Balance
variable {library : Nat} {safeErrorMessage : PersistError → String} {s : SyncExecution} {n m : Nat}

/-- The run has a row for the library. -/
def Has (library : Nat) (s : SyncExecution) : Prop := s.details.contains library = true

theorem sum_update {rows : List SyncRunLibrary} {f : SyncRunLibrary → SyncRunLibrary}
    {counter : SyncRunLibrary → Nat} {k : Nat}
    (hf : ∀ d, counter (f d) = counter d + k) (hnodup : (rows.map (·.libraryId)).Nodup)
    (hmem : library ∈ rows.map (·.libraryId)) :
    ((rows.map fun d => if d.libraryId == library then f d else d).map counter).sum =
      (rows.map counter).sum + k := by
  induction rows with
  | nil => cases hmem
  | cons d rows ih =>
    rw [List.map_cons, List.nodup_cons] at hnodup
    rw [List.map_cons, List.map_cons, List.sum_cons, List.map_cons, List.sum_cons]
    by_cases hd : d.libraryId = library
    · have hrest : (rows.map fun d => if d.libraryId == library then f d else d) = rows := by
        refine (List.map_congr_left fun d' hd' => if_neg fun heq => ?_).trans (List.map_id _)
        exact hnodup.1 (hd.trans (eq_of_beq heq).symm ▸ List.mem_map_of_mem hd')
      rw [hrest, if_pos (beq_iff_eq.2 hd), hf]
      omega
    · have hmem : library ∈ rows.map (·.libraryId) :=
        (List.mem_cons.1 hmem).resolve_left fun heq => hd heq.symm
      rw [if_neg (by simpa using hd), ih hnodup.2 hmem]
      omega

theorem total_countDetail (h : s.Has library) {f : Assignment SyncRunLibrary.libraryId}
    {counter : SyncRunLibrary → Nat} {k : Nat}
    (hf : ∀ d, counter (f d) = counter d + k) :
    (s.countDetail library f).total counter = s.total counter + k := by
  refine sum_update hf s.details.nodup ?_
  obtain ⟨d, hd⟩ := Option.isSome_iff_exists.1 h
  rw [← Table.key_of_get? hd]
  exact List.mem_map_of_mem (Table.mem_of_get? hd)

/-- What a write to the two rows adds to the run and to the library. -/
structure Adds (read inserted updated failed : Nat) (run run' : RunCounters)
    (f : Assignment SyncRunLibrary.libraryId) : Prop where
  read : run'.itemsRead = run.itemsRead + read ∧ ∀ d, (f d).itemsRead = d.itemsRead + read
  inserted : run'.itemsInserted = run.itemsInserted + inserted ∧
    ∀ d, (f d).itemsInserted = d.itemsInserted + inserted
  updated : run'.itemsUpdated = run.itemsUpdated + updated ∧
    ∀ d, (f d).itemsUpdated = d.itemsUpdated + updated
  failed : run'.itemsFailed = run.itemsFailed + failed ∧
    ∀ d, (f d).itemsFailed = d.itemsFailed + failed

/-- A write that adds the same to both rows. -/
theorem Balanced.count {read inserted updated failed m' failedMedia : Nat} {run : RunCounters}
    {f : Assignment SyncRunLibrary.libraryId} (h : s.Balanced n m) (hlibrary : s.Has library)
    (hadds : Adds read inserted updated failed s.run run f)
    (haccounted : run.itemsRead =
      run.itemsInserted + run.itemsUpdated + run.itemsUnchanged + failedMedia + m') :
    Balanced n m' ({ s with run := run, failedMedia := failedMedia }.countDetail library f) := by
  have htotal : ∀ {counter : SyncRunLibrary → Nat} {k : Nat}, (∀ d, counter (f d) = counter d + k) →
      ({ s with run := run, failedMedia := failedMedia }.countDetail library f).total counter =
        s.total counter + k :=
    fun hf =>
      @total_countDetail library { s with run := run, failedMedia := failedMedia } hlibrary f _ _ hf
  refine ⟨?_, ?_, ?_, ?_, haccounted⟩
  · rw [htotal hadds.read.2, ← h.read]; exact hadds.read.1
  · rw [htotal hadds.inserted.2, ← h.inserted]; exact hadds.inserted.1
  · rw [htotal hadds.updated.2, ← h.updated]; exact hadds.updated.1
  · have hrun : run.itemsFailed = s.run.itemsFailed + failed := hadds.failed.1
    rw [h.failed] at hrun
    rw [htotal hadds.failed.2]
    exact hrun.trans (Nat.add_right_comm _ _ _)

theorem Balanced.addError (h : s.Balanced n m) (mediaExternalId : Option String)
    (category message : String) :
    (s.addError library mediaExternalId category message).Balanced n m :=
  ⟨h.read, h.inserted, h.updated, h.failed, h.accounted⟩

theorem Balanced.withSession (h : s.Balanced n m) (session : PersistSession) :
    Balanced n m { s with session := session } :=
  ⟨h.read, h.inserted, h.updated, h.failed, h.accounted⟩

/-- The same counter in both rows, whatever it is. -/
theorem adds_rfl {read inserted updated failed : Nat} (run : RunCounters) :
    Adds read inserted updated failed run
      { run with
        itemsRead := run.itemsRead + read
        itemsInserted := run.itemsInserted + inserted
        itemsUpdated := run.itemsUpdated + updated
        itemsFailed := run.itemsFailed + failed }
      ⟨fun d => { d with
        itemsRead := d.itemsRead + read
        itemsInserted := d.itemsInserted + inserted
        itemsUpdated := d.itemsUpdated + updated
        itemsFailed := d.itemsFailed + failed }, fun _ => rfl⟩ :=
  ⟨⟨rfl, fun _ => rfl⟩, ⟨rfl, fun _ => rfl⟩, ⟨rfl, fun _ => rfl⟩, ⟨rfl, fun _ => rfl⟩⟩

theorem Balanced.countMediaIssue (h : s.Balanced n m) (hlibrary : s.Has library)
    (issue : PageIssue) :
    (s.countMediaIssue library issue).Balanced n m := by
  have haccounted : s.run.itemsRead + 1 =
      s.run.itemsInserted + s.run.itemsUpdated + s.run.itemsUnchanged +
        (s.failedMedia + 1) + m := by
    rw [h.accounted]; omega
  exact .addError (h.count hlibrary (@adds_rfl 1 0 0 1 s.run) haccounted) _ _ _

theorem Balanced.countRead (h : s.Balanced n 0) (hlibrary : s.Has library) :
    (s.countRead library).Balanced n 1 :=
  h.count hlibrary (@adds_rfl 1 0 0 0 s.run) (congrArg (· + 1) h.accounted)

theorem Balanced.countLost (h : s.Balanced n 1) (hlibrary : s.Has library) :
    (s.countLost library).Balanced n 0 :=
  h.count hlibrary (@adds_rfl 0 0 0 1 s.run) h.accounted

theorem Balanced.countClassification (h : s.Balanced n 1) (hlibrary : s.Has library)
    (classification : ItemClassification) :
    (s.countClassification library classification).Balanced n 0 := by
  cases classification with
  | inserted =>
    have haccounted : s.run.itemsRead =
        s.run.itemsInserted + 1 + s.run.itemsUpdated + s.run.itemsUnchanged +
          s.failedMedia + 0 := by
      rw [h.accounted]; omega
    exact h.count hlibrary (@adds_rfl 0 1 0 0 s.run) haccounted
  | updated =>
    have haccounted : s.run.itemsRead =
        s.run.itemsInserted + (s.run.itemsUpdated + 1) + s.run.itemsUnchanged +
          s.failedMedia + 0 := by
      rw [h.accounted]; omega
    exact h.count hlibrary (@adds_rfl 0 0 1 0 s.run) haccounted
  | unchanged =>
    have haccounted : s.run.itemsRead =
        s.run.itemsInserted + s.run.itemsUpdated + (s.run.itemsUnchanged + 1) +
          s.failedMedia + 0 := by
      rw [h.accounted]; omega
    exact ⟨h.read, h.inserted, h.updated, h.failed, haccounted⟩

theorem Balanced.countEvent (h : s.Balanced n m) : s.countEvent.Balanced n m :=
  ⟨h.read, h.inserted, h.updated, h.failed, h.accounted⟩

theorem Balanced.countOutcome (h : s.Balanced n 1) (hlibrary : s.Has library) (externalId : String)
    (outcome : PageOutcome) :
    (s.countOutcome library safeErrorMessage externalId outcome).Balanced n 0 := by
  unfold SyncExecution.countOutcome
  cases outcome.result with
  | none => exact (h.countLost hlibrary).addError _ _ _
  | some result =>
    have hrepaired : ∀ s' : SyncExecution, s' = (if outcome.repaired = 0 then s else
        s.addError library (some externalId) "catalog_auto_reconciled"
          s!"Catalog repaired automatically before retry; {outcome.repaired} item(s) merged.") →
        (s'.countClassification library result.classification).Balanced n 0 := by
      rintro s' rfl
      split
      · exact h.countClassification hlibrary _
      · exact (h.addError _ _ _).countClassification hlibrary _
    dsimp only
    generalize hs' : (if outcome.repaired = 0 then s else _) = s'
    have hclassified := hrepaired s' hs'.symm
    split
    · split
      · exact hclassified.countEvent.addError _ _ _
      · exact hclassified.addError _ _ _
    · split
      · exact hclassified.countEvent
      · exact hclassified

theorem Has.countDetail {library' : Nat} (h : s.Has library) {run : RunCounters} {failedMedia : Nat}
    (f : Assignment SyncRunLibrary.libraryId) :
    ({ s with run := run, failedMedia := failedMedia }.countDetail library' f).Has library := by
  unfold Has Table.contains at h ⊢
  rw [Option.isSome_iff_ne_none] at h ⊢
  exact fun hnone => h (Table.get?_update_eq_none.1 hnone)

theorem Has.countClassification (h : s.Has library) (classification : ItemClassification) :
    (s.countClassification library classification).Has library := by
  cases classification with
  | inserted => exact h.countDetail _
  | updated => exact h.countDetail _
  | unchanged => exact h

theorem Has.countOutcome (h : s.Has library) (externalId : String) (outcome : PageOutcome) :
    (s.countOutcome library safeErrorMessage externalId outcome).Has library := by
  unfold SyncExecution.countOutcome
  cases outcome.result with
  | none => exact h.countDetail _
  | some result =>
    dsimp only
    generalize hs' : (if outcome.repaired = 0 then s else _) = s'
    have hs : s'.Has library := by
      rw [← hs']
      split <;> exact h
    have hclassified := hs.countClassification result.classification
    split <;> split <;> exact hclassified

theorem counts_foldl {β : Type} {g : SyncExecution → β → SyncExecution}
    (hstep : ∀ s x, s.Balanced n 0 → s.Has library → (g s x).Balanced n 0 ∧ (g s x).Has library)
    (xs : List β)
    (h : s.Balanced n 0) (hlibrary : s.Has library) :
    (xs.foldl g s).Balanced n 0 ∧ (xs.foldl g s).Has library := by
  induction xs generalizing s with
  | nil => exact ⟨h, hlibrary⟩
  | cons x xs ih =>
    obtain ⟨h', hlibrary'⟩ := hstep s x h hlibrary
    exact ih h' hlibrary'

variable {service : MediaPersistenceService}

theorem persistItem_counts (h : s.Balanced n 0) (hlibrary : s.Has library) (x : PagedItem) :
    (persistItem library safeErrorMessage service s x).Balanced n 0 ∧
      (persistItem library safeErrorMessage service s x).Has library := by
  obtain ⟨outcome, session, hr, -⟩ := service.persistMediaWithRepair_returns x s.session
  have hrun : (service.persistMediaWithRepair x).run s.session = (.ok outcome, session) := hr
  have hread := (h.countRead hlibrary).withSession session
  have hhas : Has library { s.countRead library with session := session } :=
    hlibrary.countDetail ⟨fun d => { d with itemsRead := d.itemsRead + 1 }, fun _ => rfl⟩
  unfold persistItem
  rw [hrun]
  exact ⟨hread.countOutcome hhas _ _, hhas.countOutcome _ _⟩

theorem persistMediaPage_counts (h : s.Balanced n 0) (hlibrary : s.Has library)
    (page : ScanPage PagedItem)
    (issues : List PageIssue) (itemsScanned : Nat) (itemsTotal : Option Nat) :
    (s.persistMediaPage library safeErrorMessage service page issues itemsScanned
      itemsTotal).Balanced n 0 := by
  have hitem : ∀ (s : SyncExecution) (x : PagedItem), s.Balanced n 0 → s.Has library →
      (persistItem library safeErrorMessage (pageService library service page) s x).Balanced n 0 ∧
        (persistItem library safeErrorMessage (pageService library service page) s x).Has library :=
          fun s x h hl =>
    @persistItem_counts library safeErrorMessage s n (pageService library service page) h hl x
  obtain ⟨h', hl'⟩ :=
    counts_foldl (fun s issue h hl => ⟨h.countMediaIssue hl issue, hl.countDetail _⟩) issues
    (h.withSession (freshService s.session)) hlibrary
  obtain ⟨h'', hl''⟩ := counts_foldl hitem page.entries h' hl'
  exact @Balanced.count library _ n 0 0 0 0 0 0 _ _ _ h'' hl''
    ⟨⟨rfl, fun _ => rfl⟩, ⟨rfl, fun _ => rfl⟩, ⟨rfl, fun _ => rfl⟩, ⟨rfl, fun _ => rfl⟩⟩
      h''.accounted

end Balance

/-! ### Events that cannot be persisted -/

/-- `persist_event` raises: the item of a completed event is not in the catalog, or the event that
the source knows by this id is of another item or would take the digest of another event. -/
def EventFails (service : MediaPersistenceService) (event : ExternalWatchEvent)
    (db : Database) : Bool :=
  event.completed && match db.byExternalIdentity service.sourceId event.mediaExternalId with
    | none => true
    | some reference =>
      match service.knownEvent db event with
      | none => false
      | some existing => decide (existing.mediaItemId ≠ reference.mediaItemId) ||
          (db.byDedupKey service.sourceId (service.eventDedupKey event)).any (·.id != existing.id)

theorem persistEvent_returns_iff {service : MediaPersistenceService} {event : ExternalWatchEvent}
    {s : PersistSession} :
    (∃ inserted s', (service.persistEvent event .synchronization).Returns s inserted s') ↔
      EventFails service event s.store = false := by
  constructor
  · rintro ⟨inserted, s', hr⟩
    have houtcome := (MediaPersistenceService.returns_persistEvent.1 hr).1
    generalize s'.store = store' at houtcome
    unfold EventFails
    cases houtcome with
    | incomplete hc => rw [hc]; rfl
    | refreshed r existing hc hreference hknown hsame hfree =>
      have hfree : (s.store.byDedupKey service.sourceId (service.eventDedupKey event)).any
          (·.id != existing.id) = false :=
        Bool.eq_false_iff.2 fun htaken => hfree (MediaPersistenceService.digestTaken_iff.1 htaken)
      simp [hreference, hknown, hsame, hfree]
    | recognised r hc hreference hknown hstored => simp [hreference, hknown]
    | recorded r hc hreference hknown hstored => simp [hreference, hknown]
  · intro h
    unfold EventFails at h
    cases hc : event.completed with
    | false => exact ⟨_, s, MediaPersistenceService.returns_persistEvent.2 ⟨.incomplete hc, rfl⟩⟩
    | true =>
      rw [hc, Bool.true_and] at h
      cases hreference : s.store.byExternalIdentity service.sourceId event.mediaExternalId with
      | none => rw [hreference] at h; cases h
      | some r =>
        rw [hreference] at h
        cases hknown : service.knownEvent s.store event with
        | some existing =>
          rw [hknown] at h
          obtain ⟨hsame, hfree⟩ := Bool.or_eq_false_iff.1 h
          refine ⟨_, { s with store := _ }, MediaPersistenceService.returns_persistEvent.2
            ⟨.refreshed r existing hc hreference hknown (not_not.1 (of_decide_eq_false hsame))
              fun htaken => ?_, rfl⟩⟩
          rw [MediaPersistenceService.digestTaken_iff.2 htaken] at hfree
          cases hfree
        | none =>
          by_cases hstored : MediaPersistenceService.Recognised service s.store r.mediaItemId event
          · exact ⟨_, s, MediaPersistenceService.returns_persistEvent.2
              ⟨.recognised r hc hreference hknown hstored, rfl⟩⟩
          · exact ⟨_, { s with store := _ }, MediaPersistenceService.returns_persistEvent.2
              ⟨.recorded r hc hreference hknown hstored, rfl⟩⟩

section History
variable {library : Nat} {safeErrorMessage : PersistError → String}
  {service : MediaPersistenceService} {s : SyncExecution}
  {n : Nat}

/-- An event is counted in both rows, unless it fails: then it is counted in that of the run. -/
theorem persistEvent_counts (h : s.Balanced n 0) (hlibrary : s.Has library)
    (event : ExternalWatchEvent) :
    (persistEvent library safeErrorMessage service s event).Balanced
        (n + if EventFails service event s.session.store then 1 else 0) 0 ∧
      (persistEvent library safeErrorMessage service s event).Has library := by
  unfold persistEvent
  rw [Program.run_attempt]
  rcases hrun :
    (service.persistEvent event .synchronization).run s.session with ⟨error | inserted, session⟩
  · have hfails : EventFails service event s.session.store = true := by
      refine (Bool.eq_false_or_eq_true _).resolve_right fun hpersists => ?_
      obtain ⟨inserted, s', hr⟩ := persistEvent_returns_iff.2 hpersists
      cases hrun.symm.trans hr
    rw [hfails]
    have hfailed : s.run.itemsFailed + 1 = s.total (·.itemsFailed) + (n + 1) := by
      rw [h.failed, Nat.add_assoc]
    exact ⟨⟨h.read, h.inserted, h.updated, hfailed, h.accounted⟩, hlibrary⟩
  · rw [persistEvent_returns_iff.1 ⟨inserted, session, hrun⟩]
    have hpersisted := h.withSession session
    cases inserted with
    | false => exact ⟨hpersisted, hlibrary⟩
    | true => exact ⟨hpersisted.countEvent, hlibrary⟩

/-- Each of the events can be persisted where it comes. -/
def EventsPersist (library : Nat) (safeErrorMessage : PersistError → String)
    (service : MediaPersistenceService) (s : SyncExecution)
    (events : List ExternalWatchEvent) : Prop :=
  Along (persistEvent library safeErrorMessage service)
    (fun s event => EventFails service event s.session.store = false) s events

theorem persistEvents_counts (events : List ExternalWatchEvent) (h : s.Balanced n 0)
    (hlibrary : s.Has library) :
    ∃ failed,
      (events.foldl (persistEvent library safeErrorMessage service) s).Balanced (n + failed) 0 ∧
      (failed = 0 ↔ EventsPersist library safeErrorMessage service s events) := by
  induction events generalizing s n with
  | nil => exact ⟨0, h, by simp [EventsPersist, Along]⟩
  | cons event events ih =>
    obtain ⟨h', hlibrary'⟩ :=
      @persistEvent_counts library safeErrorMessage service s n h hlibrary event
    obtain ⟨failed, hrest, hiff⟩ := ih h' hlibrary'
    refine ⟨(if EventFails service event s.session.store then 1 else 0) + failed,
      Nat.add_assoc n _ _ ▸ hrest, ?_⟩
    rw [Nat.add_eq_zero_iff, hiff]
    refine and_congr ?_ Iff.rfl
    split
    next hfails =>
      exact iff_of_false (by decide) fun hpersists => Bool.noConfusion (hpersists.symm.trans hfails)
    next hpersists => exact iff_of_true rfl (eq_false_of_ne_true hpersists)

theorem Balanced.countHistoryIssue (h : s.Balanced n 0) (hlibrary : s.Has library)
    (issue : PageIssue) :
    (s.countHistoryIssue library issue).Balanced n 0 :=
  .addError (h.count hlibrary (@adds_rfl 0 0 0 1 s.run) h.accounted) _ _ _

/-- The state in which the events of a history page are persisted. -/
def reportedPage (library : Nat) (issues : List PageIssue) (s : SyncExecution) : SyncExecution :=
  issues.foldl (SyncExecution.countHistoryIssue library) s.openPage

theorem reportedPage_counts (issues : List PageIssue) (h : s.Balanced n 0)
    (hlibrary : s.Has library) :
    (s.reportedPage library issues).Balanced n 0 ∧ (s.reportedPage library issues).Has library :=
  counts_foldl (fun _ issue h hl => ⟨h.countHistoryIssue hl issue, hl.countDetail _⟩) issues
    (h.withSession _) hlibrary

end History

/-- The counters of the run are the sums of those of its libraries, and what was read of the
catalogs is what was written, what was found unchanged and what failed. -/
def Consistent (s : SyncExecution) : Prop := s.Balanced 0 0

instance (s : SyncExecution) : Decidable s.Consistent :=
  decidable_of_iff (s.run.itemsRead = s.total (·.itemsRead) ∧
    s.run.itemsInserted = s.total (·.itemsInserted) ∧
      s.run.itemsUpdated = s.total (·.itemsUpdated) ∧
        s.run.itemsFailed = s.total (·.itemsFailed) + 0 ∧
      s.run.itemsRead =
        s.run.itemsInserted + s.run.itemsUpdated + s.run.itemsUnchanged + s.failedMedia + 0)
    ⟨fun ⟨hread, hinserted, hupdated, hfailed, haccounted⟩ =>
      ⟨hread, hinserted, hupdated, hfailed, haccounted⟩,
      fun h => ⟨h.read, h.inserted, h.updated, h.failed, h.accounted⟩⟩

/-- Every event of a history page can be persisted. -/
def PagePersists (safeErrorMessage : PersistError → String) (service : MediaPersistenceService)
    (s : SyncExecution) : Step → Prop
  | .historyPage library page issues =>
    s.Has library → EventsPersist library safeErrorMessage (pageService library service page)
      (s.reportedPage library issues) page.entries
  | _ => True

section Run
variable {safeErrorMessage : PersistError → String} {service : MediaPersistenceService}
  {s : SyncExecution}

theorem acquire_consistent (libraries : List Nat) (session : PersistSession) :
    (acquire libraries session).Consistent := by
  have hzero : ∀ (counter : SyncRunLibrary → Nat),
      (∀ library, counter { libraryId := library } = 0) →
      (acquire libraries session).total counter = 0 := by
    intro counter hcounter
    suffices h : ∀ (libraries : List Nat) (details : Table SyncRunLibrary.libraryId),
        (∀ d ∈ details.rows, counter d = 0) →
        ∀ d ∈ (libraries.foldl (fun details library => details.insert { libraryId := library })
          details).rows, counter d = 0 from
      List.sum_eq_zero_iff_forall_eq_nat.2
        (List.forall_mem_map.2 (h libraries .empty fun d hd => by cases hd))
    intro libraries
    induction libraries with
    | nil => exact fun details h => h
    | cons library libraries ih =>
      refine fun details h => ih _ fun d hd => ?_
      rcases Table.mem_insert hd with hd | rfl
      · exact h d hd
      · exact hcounter library
  have hrun : (acquire libraries session).run = {} := rfl
  refine ⟨?_, ?_, ?_, ?_, rfl⟩ <;> rw [hrun, hzero _ fun _ => rfl]

theorem consistent_step (h : s.Consistent) (e : Step) :
    (step safeErrorMessage service s e).Consistent ↔ PagePersists safeErrorMessage service s e := by
  cases e with
  | mediaPage library page issues itemsScanned itemsTotal =>
    refine iff_of_true ?_ trivial
    show Consistent (if s.details.contains library then _ else s)
    split
    next hlibrary => exact persistMediaPage_counts h hlibrary page issues itemsScanned itemsTotal
    next => exact h
  | historyPage library page issues =>
    show Consistent (if s.details.contains library then _ else s) ↔ (s.Has library → _)
    split
    next hlibrary =>
      obtain ⟨hreported, hhas⟩ := reportedPage_counts issues h hlibrary
      obtain ⟨failed, hpage, hiff⟩ :=
        @persistEvents_counts library safeErrorMessage (pageService library service page) _ 0
        page.entries hreported hhas
      refine Iff.trans ⟨fun hconsistent => ?_, ?_⟩
        (hiff.trans ⟨fun hp _ => hp, fun hp => hp hlibrary⟩)
      · exact (Nat.zero_add failed).symm.trans
          (Nat.add_left_cancel (hpage.failed.symm.trans hconsistent.failed))
      · rintro rfl
        exact hpage
    next hlibrary => exact iff_of_true h fun hhas => absurd hhas hlibrary
  | elsewhere session => exact iff_of_true (Balanced.withSession h session) trivial

/-- The counters agree throughout a run exactly when every event of its history pages could be
persisted. -/
theorem counters_agree_iff (safeErrorMessage : PersistError → String)
    (service : MediaPersistenceService) (libraries : List Nat)
    (session : PersistSession) (pages : List Step) :
    (∀ pre, pre <+: pages →
      (pre.foldl (step safeErrorMessage service) (acquire libraries session)).Consistent) ↔
      Along (step safeErrorMessage service) (PagePersists safeErrorMessage service)
      (acquire libraries session) pages :=
  Along.iff_invariant (fun _ e h => consistent_step h e) (acquire_consistent libraries session)

end Run

/-- A completed event of an item that is not in the catalog is a failure of the run, and of none of
its libraries. -/
theorem counters_apart :
    let event : ExternalWatchEvent :=
  { mediaExternalId := "7", libraryExternalId := "1", watchedAt := 0, completed := true }
    let s := [Step.historyPage 1 ⟨0, [], [event]⟩ []].foldl
      (step (fun _ => "unknown item") (plainService 1))
      (acquire [1] ⟨Database.empty, []⟩)
    s.run.itemsFailed = 1 ∧ s.total (·.itemsFailed) = 0 ∧ ¬ s.Consistent := by
  decide +kernel

end SyncExecution

end Euvieouvi
