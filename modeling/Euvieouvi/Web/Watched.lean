import Euvieouvi.Api.Collections
import Euvieouvi.Persist.Media
import Euvieouvi.Projection.Known

/-!
# What is watched, and when

The history page, the expressions of the media page and the dashboard (`web/routes.py`) and the
filter of `/media` (`api/routes.py`) each ask events and states in their own way, and the projection
keeps totals. For an item that is alone in its entry they agree under a condition on its events and
states (`viewsAgree_iff`). `like` is `ILIKE`; the search text of the page is taken as stripped and
cut.
-/

namespace Euvieouvi

namespace Database
variable (db : Database) (like : String → String → Bool)

def completedEvents (i : Nat) : List WatchEvent :=
  db.watchEvents.rows.filter fun e => e.mediaItemId == i && e.completed

def completedStates (i : Nat) : List WatchState :=
  db.watchStates.rows.filter fun s => s.mediaItemId == i && s.completed

/-- `evt_last` of the history and `event_last` of the expressions. -/
def eventLast (i : Nat) : Option Time :=
  latestOf ((db.completedEvents i).map fun e => some e.watchedAt)

/-- `st_last` and `state_last`. -/
def stateLast (i : Nat) : Option Time := latestOf ((db.completedStates i).map (·.lastWatchedAt))

structure CompletionExpressions where
  knownCount : Nat
  lastKnown : Option Time
  completedKnown : Bool
deriving DecidableEq, Repr

/-- `_completion_expressions`. -/
def completionExpressions (i : Nat) : CompletionExpressions :=
  let eventCount := (db.completedEvents i).length
  let stateCount := maxOf ((db.completedStates i).map (·.viewCount))
  { knownCount := if stateCount ≤ eventCount then eventCount else stateCount
    lastKnown := if (db.eventLast i).isSome then db.eventLast i else db.stateLast i
    completedKnown := !(db.completedEvents i).isEmpty || !(db.completedStates i).isEmpty }

/-- The items that `_watched_count` counts. -/
def watchedItems (kind : MediaKind) : List MediaItem :=
  let combined := (db.watchEvents.rows.filter (·.completed)).map (·.mediaItemId) ++
    (db.watchStates.rows.filter (·.completed)).map (·.mediaItemId)
  db.mediaItems.rows.filter fun m => m.kind == kind && combined.contains m.id

structure HistoryFilters where
  query : String := ""
  kind : Option MediaKind := none
  watched : String := "watched"

/-- `last_completed_expr`. -/
def lastCompletedExpr (i : Nat) : Option Time :=
  let chosen := match db.eventLast i, db.stateLast i with
    | none, state => state
    | event, none => event
    | some event, some state => if state ≤ event then some event else some state
  (chosen.or (db.eventLast i)).or (db.stateLast i)

def historyMatches (f : HistoryFilters) (m : MediaItem) : Bool :=
  let dated := (db.eventLast m.id).isSome || (db.stateLast m.id).isSome
  (f.query == "" || like m.title s!"%{f.query}%") && f.kind.all (m.kind == ·) &&
    if f.watched == "watched" then dated else if f.watched == "unwatched" then !dated else true

/-- `ORDER BY last_completed_expr DESC NULLS LAST, title, id`. -/
def historyOrder (a b : MediaItem) : Prop :=
  match db.lastCompletedExpr a.id, db.lastCompletedExpr b.id with
  | some t, some u => u < t ∨ t = u ∧ (a.title < b.title ∨ a.title = b.title ∧ a.id ≤ b.id)
  | some _, none => True
  | none, some _ => False
  | none, none => a.title < b.title ∨ a.title = b.title ∧ a.id ≤ b.id

instance (a b : MediaItem) :
    Decidable (db.historyOrder a b) := by unfold historyOrder; split <;> infer_instance

/-- `history`: the visible items of a page, from 1 on. -/
def history (f : HistoryFilters) (page : Nat) : List MediaItem :=
  (((db.mediaItems.rows.filter (db.historyMatches like f)).insertionSort db.historyOrder).drop
    ((page - 1) * 50)).take 50

def Lists (f : HistoryFilters) (m : MediaItem) : Prop :=
  ∃ page, 1 ≤ page ∧ m ∈ db.history like f page

/-- The `watched` filter of `/media`. -/
def mediaWatched (watched : Bool) (m : MediaItem) : Bool :=
  db.watchStates.rows.any fun s => s.mediaItemId == m.id && s.completed == watched

variable {db like} {m : MediaItem} {i : Nat} {f : HistoryFilters}

/-- Every matching item is on a page. -/
theorem lists_iff : db.Lists like f m ↔ m ∈ db.mediaItems.rows ∧
    db.historyMatches like f m = true := by
  unfold Lists history
  rw [← List.mem_filter, ← (List.perm_insertionSort db.historyOrder _).mem_iff]
  generalize (db.mediaItems.rows.filter (db.historyMatches like f)).insertionSort db.historyOrder =
    rows
  constructor
  · rintro ⟨page, -, hm⟩
    exact List.mem_of_mem_drop (List.mem_of_mem_take hm)
  · intro hm
    obtain ⟨n, hn, rfl⟩ := List.mem_iff_getElem.1 hm
    refine ⟨n / 50 + 1, Nat.le_add_left .., List.mem_iff_getElem.2 ⟨n % 50, ?_, ?_⟩⟩
    · simp only [List.length_take, List.length_drop]
      omega
    · simp only [List.getElem_take, List.getElem_drop]
      congr 1
      omega

end Database

namespace Database
variable {db ensured : Database} {like : String → String → Bool} {m : MediaItem} {i e : Nat}

theorem mem_completedStates {s : WatchState} :
    s ∈ db.completedStates i ↔ s ∈ db.watchStates.rows ∧ s.mediaItemId = i ∧
    s.completed = true := by
  simp [completedStates]

theorem completedEvents_ne_nil :
    db.completedEvents i ≠ [] ↔ ∃ r ∈ db.watchEvents.rows, r.mediaItemId = i ∧
    r.completed = true := by
  simp [completedEvents]

theorem completedStates_ne_nil :
    db.completedStates i ≠ [] ↔ ∃ s ∈ db.watchStates.rows, s.mediaItemId = i ∧
    s.completed = true := by
  simp [completedStates]

theorem isSome_eventLast : (db.eventLast i).isSome = true ↔ db.completedEvents i ≠ [] := by
  rw [Option.isSome_iff_ne_none]
  refine not_congr ?_
  unfold eventLast
  rw [latestOf_eq_none, List.eq_nil_iff_forall_not_mem]
  constructor
  · intro h r hr
    exact Option.some_ne_none _ (h _ (List.mem_map_of_mem hr))
  · intro h t ht
    obtain ⟨r, hr, -⟩ := List.mem_map.1 ht
    exact absurd hr (h r)

theorem isSome_stateLast : (db.stateLast i).isSome = true ↔ ∃ s ∈ db.completedStates i,
    s.lastWatchedAt ≠ none := by
  rw [Option.isSome_iff_ne_none]
  unfold stateLast
  rw [Ne, latestOf_eq_none]
  simp

/-- The history orders by the latest of both dates. -/
theorem lastCompletedExpr_eq : db.lastCompletedExpr i = latest (db.eventLast i)
    (db.stateLast i) := by
  unfold lastCompletedExpr
  cases db.eventLast i with
  | none => cases db.stateLast i <;> rfl
  | some t =>
    cases db.stateLast i with
    | none => rfl
    | some u =>
      by_cases h : u ≤ t
      · simp [latest, h]
      · simp [latest, h]

/-- The page shows the item as watched when it knows a date. -/
theorem lists_watched_iff (hm : m ∈ db.mediaItems.rows) :
    db.Lists like {} m ∧ ¬ db.Lists like { watched := "unwatched" } m ↔
      db.completedEvents m.id ≠ [] ∨ ∃ s ∈ db.completedStates m.id, s.lastWatchedAt ≠ none := by
  rw [← isSome_eventLast, ← isSome_stateLast, lists_iff, lists_iff]
  simp only [hm, true_and, historyMatches]
  cases (db.eventLast m.id).isSome <;> cases (db.stateLast m.id).isSome <;> simp

/-- A completed event or state of the item exists. -/
def Completed (db : Database) (i : Nat) : Prop :=
  db.completedEvents i ≠ [] ∨ db.completedStates i ≠ []

theorem mem_watchedItems (hm : m ∈ db.mediaItems.rows) :
    m ∈ db.watchedItems m.kind ↔ db.Completed m.id := by
  unfold watchedItems Completed
  rw [completedEvents_ne_nil, completedStates_ne_nil]
  simp only [List.mem_filter, hm, beq_self_eq_true, Bool.true_and, true_and, List.contains_iff_mem,
    List.mem_append, List.mem_map]
  refine or_congr ⟨?_, ?_⟩ ⟨?_, ?_⟩
  · rintro ⟨r, ⟨hr, hc⟩, hi⟩
    exact ⟨r, hr, hi, hc⟩
  · rintro ⟨r, hr, hi, hc⟩
    exact ⟨r, ⟨hr, hc⟩, hi⟩
  · rintro ⟨s, ⟨hs, hc⟩, hi⟩
    exact ⟨s, hs, hi, hc⟩
  · rintro ⟨s, hs, hi, hc⟩
    exact ⟨s, ⟨hs, hc⟩, hi⟩

theorem mediaWatched_iff : db.mediaWatched true m = true ∧ ¬ db.mediaWatched false m = true ↔
    db.completedStates m.id ≠ [] ∧ ∀ s ∈ db.watchStates.rows, s.mediaItemId = m.id →
    s.completed = true := by
  have htrue : db.mediaWatched true m = true ↔ db.completedStates m.id ≠ [] := by
    rw [completedStates_ne_nil]
    simp only [mediaWatched, List.any_eq_true, Bool.and_eq_true, beq_iff_eq]
  have hfalse : ¬ db.mediaWatched false m = true ↔ ∀ s ∈ db.watchStates.rows, s.mediaItemId = m.id →
      s.completed = true := by
    simp [mediaWatched]
  rw [htrue, hfalse]

/-- What the projection keeps of an item that is alone in its entry. -/
theorem counted_alone {entry : CatalogEntry} (hcounted : db.Counted e entry)
    (halone : ∀ j, db.memberEntry j = some e ↔ j = i) :
    (0 < entry.completionCount ↔ db.completedEvents i ≠ [] ∨ ∃ s ∈ db.completedStates i,
      0 < s.viewCount) ∧
      entry.lastCompletedAt = latest (db.eventLast i) (db.stateLast i) := by
  obtain ⟨hcount, hlast⟩ := hcounted
  constructor
  · rw [hcount]
    unfold memberTotals
    have hcounts :
        (entryTotals db.memberEntry db.watchEvents.rows db.watchStates.rows e).completionCount =
        (foldActivity db.memberEntry db.ancestorsOf db.watchEvents.rows db.watchStates.rows
          e).completionCount :=
      completionCount_foldActivity.symm
    rw [hcounts, completionCount_pos, completedEvents_ne_nil]
    simp only [halone, mem_completedStates, WatchState.completedCount]
    refine or_congr (exists_congr fun r => and_congr_right fun _ => and_comm)
      (exists_congr fun s => ?_)
    cases s.completed <;> simp [and_assoc]
  · rw [hlast]
    unfold memberTotals
    rw [lastCompletedAt_entryTotals]
    congr 1
    · unfold eventLast completedEvents entryEvents
      rw [List.filter_filter]
      refine congrArg latestOf (congrArg _ (List.filter_congr fun r _ => ?_))
      simp only [halone]
      rw [Bool.beq_eq_decide_eq]
    · refine latestOf_congr fun t => ?_
      simp only [List.mem_map, mem_completedStates, entryStates, List.mem_filter, decide_eq_true_eq,
        halone, WatchState.completedLast]
      constructor
      · rintro ⟨s, ⟨hs, hi⟩, ht⟩
        cases hc : s.completed with
        | true => exact ⟨s, ⟨hs, hi, hc⟩, by simpa [hc] using ht⟩
        | false => simp [hc] at ht
      · rintro ⟨s, ⟨hs, hi, hc⟩, ht⟩
        exact ⟨s, ⟨hs, hi⟩, by simpa [hc] using ht⟩

/-! ### All views -/

/-- The views of an item whose entry is `e` after `ensure_catalog_projection`. -/
structure ViewsAgree (like : String → String → Bool) (db ensured : Database) (e : Nat)
    (m : MediaItem) : Prop where
  projection : ((ensured.catalogEntries.get? e).any fun entry => 0 < entry.completionCount) = true ↔
    db.Completed m.id
  history : db.Lists like {} m ∧ ¬ db.Lists like { watched := "unwatched" } m ↔ db.Completed m.id
  dashboard : m ∈ db.watchedItems m.kind ↔ db.Completed m.id
  media : db.mediaWatched true m = true ∧ ¬ db.mediaWatched false m = true ↔ db.Completed m.id
  expressionDate : (db.completionExpressions m.id).lastKnown =
    (ensured.catalogEntries.get? e).bind (·.lastCompletedAt)
  historyDate : db.lastCompletedExpr m.id = (ensured.catalogEntries.get? e).bind (·.lastCompletedAt)

/-- What the events and states of an item must be like for all views to tell the same. -/
structure Uniform (db : Database) (i : Nat) : Prop where
  states : db.Completed i → db.completedStates i ≠ [] ∧ ∀ s ∈ db.watchStates.rows,
    s.mediaItemId = i → s.completed = true
  counted : db.completedEvents i = [] → db.completedStates i ≠ [] → ∃ s ∈ db.completedStates i,
    0 < s.viewCount
  dated : db.completedEvents i = [] → db.completedStates i ≠ [] → ∃ s ∈ db.completedStates i,
    s.lastWatchedAt ≠ none
  latest : ∀ t, db.eventLast i = some t → ∀ s ∈ db.completedStates i, ∀ u,
    s.lastWatchedAt = some u → u ≤ t

/-- The expressions prefer the date of the events, so it must be the latest. -/
theorem lastKnown_eq_iff :
    (db.completionExpressions i).lastKnown = Euvieouvi.latest (db.eventLast i) (db.stateLast i) ↔
    ∀ t, db.eventLast i = some t → ∀ s ∈ db.completedStates i, ∀ u,
      s.lastWatchedAt = some u → u ≤ t := by
  have hlater : ∀ t, Euvieouvi.latest (some t) (db.stateLast i) = some t ↔
      ∀ s ∈ db.completedStates i, ∀ u, s.lastWatchedAt = some u → u ≤ t := by
    intro t
    have hcons : Euvieouvi.latest (some t) (db.stateLast i) =
        latestOf (some t :: (db.completedStates i).map (·.lastWatchedAt)) :=
          (latestOf_cons _ _).symm
    rw [hcons, latestOf_eq_some]
    constructor
    · rintro ⟨-, hmax⟩ s hs u hu
      exact hmax u (List.mem_cons_of_mem _ (List.mem_map.2 ⟨s, hs, hu⟩))
    · intro h
      refine ⟨List.mem_cons_self, fun u hu => ?_⟩
      rcases List.mem_cons.1 hu with hu | hu
      · exact le_of_eq (Option.some.inj hu)
      · obtain ⟨s, hs, hsu⟩ := List.mem_map.1 hu
        exact h s hs u hsu
  unfold completionExpressions
  dsimp only
  cases hevent : db.eventLast i with
  | none => simp
  | some t =>
    simp only [Option.isSome_some, if_true, Option.some_inj, forall_eq']
    rw [← hlater]
    exact eq_comm

theorem watched_ensure (py : PyLib) (now : Time) (db : Database) :
    (db.ensureCatalogProjection py now).2.watchEvents = db.watchEvents ∧
      (db.ensureCatalogProjection py now).2.watchStates = db.watchStates := by
  unfold ensureCatalogProjection
  dsimp only
  split
  · exact ⟨rfl, rfl⟩
  · split
    · unfold refreshCatalogActivity
      dsimp only
      split
      · exact ⟨rfl, rfl⟩
      · split
        · exact ⟨rfl, rfl⟩
        · exact ⟨rfl, rfl⟩
    · exact ⟨rfl, rfl⟩

/-- In every state of a run that loses no request for a rebuild, the views of an item that is alone
in its entry agree exactly when its rows are uniform. -/
theorem viewsAgree_iff (py : PyLib) (like : String → String → Bool) {settings : Settings}
    (steps : List CatalogStep)
    (hrun : Along (CatalogStep.step py) (CatalogStep.Allowed py)
      ⟨{ Database.empty with settings := settings }, false⟩ steps)
    (hdb : db = (steps.foldl (CatalogStep.step py)
      ⟨{ Database.empty with settings := settings }, false⟩).db) (now : Time)
    (hensured : ensured = (db.ensureCatalogProjection py now).2) (hm : m ∈ db.mediaItems.rows)
    (halone : ∀ j, ensured.memberEntry j = some e ↔ j = m.id) :
    ViewsAgree like db ensured e m ↔ db.Uniform m.id := by
  obtain ⟨hknown, hcounted⟩ := CatalogStep.ensured_counted hrun now hdb
  obtain ⟨hevents, hstates⟩ := watched_ensure py now db
  rw [← hensured] at hknown hcounted hevents hstates
  obtain ⟨entry, hentry⟩ := hknown.entries m.id e ((halone m.id).2 rfl)
  obtain ⟨hcount, hlast⟩ := counted_alone (hcounted e entry hentry) halone
  have hsame : ensured.completedEvents m.id = db.completedEvents m.id ∧
      ensured.completedStates m.id = db.completedStates m.id := by
    unfold completedEvents completedStates
    rw [hevents, hstates]
    exact ⟨rfl, rfl⟩
  have hdates : ensured.eventLast m.id = db.eventLast m.id ∧
      ensured.stateLast m.id = db.stateLast m.id := by
    unfold eventLast stateLast
    rw [hsame.1, hsame.2]
    exact ⟨rfl, rfl⟩
  rw [hsame.1, hsame.2] at hcount
  rw [hdates.1, hdates.2] at hlast
  have hprojection :
      ((ensured.catalogEntries.get? e).any fun entry => 0 < entry.completionCount) = true ↔
      db.completedEvents m.id ≠ [] ∨ ∃ s ∈ db.completedStates m.id, 0 < s.viewCount := by
    rw [hentry, Option.any_some, decide_eq_true_eq]
    exact hcount
  have hdate : (ensured.catalogEntries.get? e).bind (·.lastCompletedAt) =
      Euvieouvi.latest (db.eventLast m.id) (db.stateLast m.id) := by
    rw [hentry, Option.bind_some]
    exact hlast
  have hnone : ∀ {p : WatchState → Prop}, (∃ s ∈ db.completedStates m.id, p s) →
      db.completedStates m.id ≠ [] := by
    rintro p ⟨s, hs, -⟩
    exact List.ne_nil_of_mem hs
  constructor
  · intro h
    refine ⟨fun hc => mediaWatched_iff.1 (h.media.2 hc), fun hno hs => ?_, fun hno hs => ?_, ?_⟩
    · exact (hprojection.1 (h.projection.2 (.inr hs))).resolve_left fun hne => hne hno
    · exact ((lists_watched_iff hm).1 (h.history.2 (.inr hs))).resolve_left fun hne => hne hno
    · exact lastKnown_eq_iff.1 (h.expressionDate.trans hdate)
  · intro h
    refine ⟨hprojection.trans ⟨fun hor => ?_, fun hc => ?_⟩,
      (lists_watched_iff hm).trans ⟨fun hor => ?_, fun hc => ?_⟩,
      mem_watchedItems hm, mediaWatched_iff.trans ⟨fun hstate => .inr hstate.1, h.states⟩,
      (lastKnown_eq_iff.2 h.latest).trans hdate.symm, lastCompletedExpr_eq.trans hdate.symm⟩
    · exact hor.imp id hnone
    · by_cases hno : db.completedEvents m.id = []
      · exact .inr (h.counted hno (h.states hc).1)
      · exact .inl hno
    · exact hor.imp id hnone
    · by_cases hno : db.completedEvents m.id = []
      · exact .inr (h.dated hno (h.states hc).1)
      · exact .inl hno

section Example

def soleMember : List CatalogEntryMember := [{ mediaItemId := 1, catalogMediaItemId := 1 }]

theorem alone_of_soleMember (h : db.catalogEntryMembers.rows = soleMember) (j : Nat) :
    db.memberEntry j = some 1 ↔ j = 1 := by
  rw [memberEntry_eq_some, h]
  simp [soleMember, eq_comm]

def playedFilm : MediaItem where
  id := 1
  kind := .movie
  title := "film"

def filmPlay : WatchEvent where
  id := 1
  mediaItemId := 1
  sourceId := 1
  watchedAt := 5
  completed := true

def playedFilmSteps : List CatalogStep :=
  [.projection (.identity (.insertMediaItem playedFilm)),
    .projection (.activity (.insertWatchEvent filmPlay))]

def playedFilmDatabase : Database :=
  (playedFilmSteps.foldl (CatalogStep.step .plain)
    ⟨{ Database.empty with settings := {} }, false⟩).db

theorem viewsAgree_iff_film :
    ViewsAgree (· == ·) playedFilmDatabase (playedFilmDatabase.ensureCatalogProjection .plain 0).2 1
      playedFilm ↔
      playedFilmDatabase.Uniform 1 :=
  viewsAgree_iff .plain (· == ·) playedFilmSteps ⟨trivial, fun _ _ => .inl rfl, trivial⟩ rfl 0
    rfl (by decide)
    (alone_of_soleMember (by decide +kernel))

/-- A film that the server counts as played, without a date. -/
def countedFilm : ExternalMediaItem where
  externalId := "film"
  libraryExternalId := "1"
  kind := .movie
  title := "film"
  viewCount := some 1
  complete := by simp [MediaFields.Complete]

def countedFilmDatabase : Database :=
  (((plainService 1).persistMedia countedFilm 2).run
    ⟨{ Database.empty with sources := .insert .empty { id := 1, connectorType := .plex } },
      []⟩).2.store

/-- The dashboard counts the film, the history lists it as unwatched. -/
theorem undated_completion_splits_the_views :
    ∃ m ∈ countedFilmDatabase.mediaItems.rows,
      (∀ j, (countedFilmDatabase.ensureCatalogProjection .plain 3).2.memberEntry j =
        some 1 ↔ j = m.id) ∧
        m ∈ countedFilmDatabase.watchedItems m.kind ∧
        ∀ like, ¬ countedFilmDatabase.Lists like {} m := by
  have hrow : (countedFilmDatabase.mediaItems.get? 1).isSome = true := by decide +kernel
  obtain ⟨m, hm⟩ := Option.isSome_iff_exists.1 hrow
  obtain ⟨hmem, hid⟩ := Table.get?_eq_some.1 hm
  refine ⟨m, hmem, ?_, ?_, fun like h => ?_⟩
  · rw [hid]
    exact alone_of_soleMember (by decide +kernel)
  · rw [mem_watchedItems hmem, hid]
    exact .inr (by decide +kernel)
  · have hlast : countedFilmDatabase.eventLast 1 = none ∧
        countedFilmDatabase.stateLast 1 = none := by decide +kernel
    have hmatches := (lists_iff.1 h).2
    simp [historyMatches, hid, hlast.1, hlast.2] at hmatches

end Example

end Database

end Euvieouvi
