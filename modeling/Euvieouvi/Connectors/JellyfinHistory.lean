import Euvieouvi.Connectors.History
import Mathlib.Data.List.TakeDrop

/-!
# The play history of Jellyfin

`get_history_page` of the Jellyfin connector (`connectors/jellyfin/connector.py`) with
`_map_valid_history` and `map_history_item` (`connectors/jellyfin/mapper.py`). Jellyfin lists what a
user has played from the last date to the first and does not filter by date: the connector drops
what is older than the watermark, and asks for no further page once it has seen something older.
What `map_item` makes of a row is an input.
-/

namespace Euvieouvi

structure JellyfinHistory where
  py : PyLib
  libraryExternalId : String
  /-- `_user_id`. -/
  userId : String
  /-- `map_item`; an error is `type(error).__name__: error`. -/
  mapItem : (row : ListedRow) →
    Except String { item : ExternalMediaItem // item.externalId = row.externalId }

/-- An answer: a value that is no object is left out by `_items`. -/
structure JellyfinAnswer where
  values : List (Option ListedRow)
  totalRecordCount : Option Nat

namespace JellyfinHistory
variable (jellyfin : JellyfinHistory)

/-- The identifier of an event, which says when there is no date. -/
def sourceEventId (item : ExternalMediaItem) : String :=
  match item.lastViewedAt with
  | none => s!"jellyfin:{item.externalId}:played-undated"
  | some watchedAt => s!"jellyfin:{item.externalId}:{jellyfin.py.isoformat watchedAt}"

/-- `map_history_item`, with the user that `_map_valid_history` adds. -/
def mapHistoryItem (row : ListedRow) (observedAt : Time) :
    Except String (Option ExternalWatchEvent) :=
  match jellyfin.mapItem row with
  | .error error => .error error
  | .ok item =>
    if item.1.viewCount.getD 0 = 0 then .ok none
    else .ok <| some {
      mediaExternalId := item.1.externalId
      libraryExternalId := jellyfin.libraryExternalId
      watchedAt := item.1.lastViewedAt.getD observedAt
      completed := true
      sourceEventId := some (jellyfin.sourceEventId item.1)
      durationMs := item.1.durationMs
      viewNumber := item.1.viewCount
      playbackUser := some jellyfin.userId }

def event? (observedAt : Time) (row : ListedRow) : Option ExternalWatchEvent :=
  (jellyfin.mapHistoryItem row observedAt).toOption.join

def issue? (observedAt : Time) (row : ListedRow) : Option PageIssue :=
  match jellyfin.mapHistoryItem row observedAt with
  | .ok _ => none
  | .error error => some (mappingIssue row "history_mapping" error)

/-- `get_history_page`, for the answer to the request, at this moment. -/
def getHistoryPage (watermark : Option Time) (answer : JellyfinAnswer) (observedAt : Time)
    (start : Nat) :
    Except PageError HistoryPage :=
  let items := answer.values.filterMap id
  let total := answer.totalRecordCount.getD items.length
  let mapped := items.filterMap (jellyfin.event? observedAt)
  let recent := mapped.filter fun event => watermark.all (· ≤ event.watchedAt)
  let reachedWatermark := watermark.any fun watermark => mapped.any (·.watchedAt < watermark)
  HistoryPage.checked
    { items := recent
      start := start
      size := recent.length
      totalSize := some total
      nextStart := if start + items.length < total ∧
        reachedWatermark = false then some (start + items.length) else none
      issues := items.filterMap (jellyfin.issue? observedAt) }

/-- When the row was played, for a row that is mapped and has a date. -/
def playedAt (row : ListedRow) : Option Time :=
  match jellyfin.mapItem row with
  | .error _ => none
  | .ok item => if item.1.viewCount.getD 0 = 0 then none else item.1.lastViewedAt

end JellyfinHistory

/-- What the server answers to a request, for the rows that it lists. -/
def JellyfinAnswer.listed (rows : List ListedRow) (start : Nat) (size : PageSize) :
    JellyfinAnswer where
  values := ((rows.drop start).take size.1).map some
  totalRecordCount := some rows.length

namespace JellyfinHistory
variable (jellyfin : JellyfinHistory) (watermark : Option Time) (rows : List ListedRow)
  (observedAt : Nat → Time) (size : PageSize)

/-- The page that begins with the row `start`, read at the moment `observedAt start`. -/
def pageAt (start : Nat) : Except PageError HistoryPage :=
  jellyfin.getHistoryPage watermark (.listed rows start size) (observedAt start) start

/-- An event of the part of the listing is older than the watermark. -/
def reached (start : Nat) : Bool :=
  watermark.any fun watermark =>
    (((rows.drop start).take size.1).filterMap (jellyfin.event? (observedAt start))).any
      (·.watchedAt < watermark)

/-- What the page that begins with the row `start` holds. -/
def partAt (start : Nat) : HistoryPage :=
  let part := (rows.drop start).take size.1
  let recent := (part.filterMap (jellyfin.event? (observedAt start))).filter fun event =>
    watermark.all (· ≤ event.watchedAt)
  { items := recent
    start := start
    size := recent.length
    totalSize := some rows.length
    nextStart := if start + part.length < rows.length ∧
      jellyfin.reached watermark rows observedAt size start = false
      then some (start + part.length) else none
    issues := part.filterMap (jellyfin.issue? (observedAt start)) }

variable {watermark rows size} in
theorem partAt_next {start next : Nat}
    (h : (jellyfin.partAt watermark rows observedAt size start).nextStart = some next) :
    next = start + size.1 ∧ next < rows.length ∧
    jellyfin.reached watermark rows observedAt size start = false := by
  unfold partAt at h
  dsimp only at h
  split at h
  next hmore =>
    cases h
    rw [List.length_take, List.length_drop] at hmore
    refine ⟨?_, ?_, hmore.2⟩
    · rw [List.length_take, List.length_drop]
      omega
    · rw [List.length_take, List.length_drop]
      exact hmore.1
  · cases h

variable {watermark rows size} in
theorem partAt_last {start : Nat}
    (h : (jellyfin.partAt watermark rows observedAt size start).nextStart = none) :
    (rows.drop start).drop size.1 = [] ∨
    jellyfin.reached watermark rows observedAt size start = true := by
  unfold partAt at h
  dsimp only at h
  split at h
  · cases h
  next hlast =>
    rcases not_and_or.1 hlast with hend | hreached
    · left
      rw [List.length_take, List.length_drop] at hend
      rw [List.drop_drop]
      exact List.drop_eq_nil_of_le (by omega)
    · exact .inr ((Bool.not_eq_false _).mp hreached)

/-- The server answers what it was asked for. -/
theorem pageAt_eq (start : Nat) :
    jellyfin.pageAt watermark rows observedAt size start =
      .ok (jellyfin.partAt watermark rows observedAt size start) := by
  have hsize := size.2.1
  have hpart : (JellyfinAnswer.listed rows start size).values.filterMap id =
      (rows.drop start).take size.1 := by
    unfold JellyfinAnswer.listed
    rw [List.filterMap_map, Function.id_comp, List.filterMap_some]
  unfold pageAt getHistoryPage
  dsimp only
  rw [hpart]
  unfold HistoryPage.checked
  change (if (jellyfin.partAt watermark rows observedAt size start).nextStart.any (· ≤ start) =
    true then _ else _) = _
  rw [if_neg]
  · rfl
  cases hnext : (jellyfin.partAt watermark rows observedAt size start).nextStart with
  | none => exact Bool.false_ne_true
  | some next =>
    obtain ⟨rfl, -, -⟩ := jellyfin.partAt_next observedAt hnext
    intro hle
    have hle : start + size.1 ≤ start := of_decide_eq_true hle
    omega

/-- The loop of `_sync_library` over the history. -/
def collect (start : Nat) : Except PageError (List HistoryPage) :=
  match _hpage : jellyfin.pageAt watermark rows observedAt size start with
  | .error error => .error error
  | .ok page =>
    match _hnext : page.nextStart with
    | none => .ok [page]
    | some next => (collect next).map (page :: ·)
termination_by rows.length - start
decreasing_by
  obtain rfl :=
    Except.ok.inj ((jellyfin.pageAt_eq watermark rows observedAt size start).symm.trans _hpage)
  obtain ⟨rfl, hlt, -⟩ := jellyfin.partAt_next observedAt _hnext
  have _hsize := size.2.1
  omega

variable {jellyfin watermark rows observedAt size}

theorem collect_last {start : Nat}
    (h : (jellyfin.partAt watermark rows observedAt size start).nextStart = none) :
    jellyfin.collect watermark rows observedAt size start =
      .ok [jellyfin.partAt watermark rows observedAt size start] := by
  rw [collect]
  split
  next error hpage =>
    cases (jellyfin.pageAt_eq watermark rows observedAt size start).symm.trans hpage
  next page hpage =>
    obtain rfl :=
      Except.ok.inj ((jellyfin.pageAt_eq watermark rows observedAt size start).symm.trans hpage)
    split
    · rfl
    next next hnext => cases h.symm.trans hnext

theorem collect_next {start next : Nat}
    (h : (jellyfin.partAt watermark rows observedAt size start).nextStart = some next) :
    jellyfin.collect watermark rows observedAt size start =
      (jellyfin.collect watermark rows observedAt size next).map
        (jellyfin.partAt watermark rows observedAt size start :: ·) := by
  rw [collect]
  split
  next error hpage =>
    cases (jellyfin.pageAt_eq watermark rows observedAt size start).symm.trans hpage
  next page hpage =>
    obtain rfl :=
      Except.ok.inj ((jellyfin.pageAt_eq watermark rows observedAt size start).symm.trans hpage)
    split
    next hnext => cases h.symm.trans hnext
    next next' hnext =>
      cases h.symm.trans hnext
      rfl

/-- What a row comes to, whenever it is read: an error, nothing that counts as played, or an event,
which has the date of the row or the moment of the reading. -/
theorem mapHistoryItem_cases (jellyfin : JellyfinHistory) (row : ListedRow) :
    (∃ error, ∀ moment, jellyfin.mapHistoryItem row moment = .error error) ∧
    jellyfin.playedAt row = none ∨
    (∀ moment, jellyfin.mapHistoryItem row moment = .ok none) ∧ jellyfin.playedAt row = none ∨
    ∃ event : Time → ExternalWatchEvent,
      (∀ moment, jellyfin.mapHistoryItem row moment = .ok (some (event moment))) ∧
      (∀ moment, (event moment).mediaExternalId = row.externalId) ∧
      ∀ moment, (event moment).watchedAt = (jellyfin.playedAt row).getD moment := by
  unfold mapHistoryItem playedAt
  cases jellyfin.mapItem row with
  | error error => exact .inl ⟨⟨error, fun _ => rfl⟩, rfl⟩
  | ok item =>
    dsimp only
    by_cases hviewed : item.1.viewCount.getD 0 = 0
    · rw [if_pos hviewed]
      exact .inr (.inl ⟨fun _ => if_pos hviewed, rfl⟩)
    · rw [if_neg hviewed]
      exact .inr (.inr ⟨_, fun _ => if_neg hviewed, fun _ => item.2, fun _ => rfl⟩)

theorem event?_eq_some {moment : Time} {row : ListedRow} {event : ExternalWatchEvent}
    (h : jellyfin.event? moment row = some event) :
    event.mediaExternalId = row.externalId ∧
    (jellyfin.playedAt row = some event.watchedAt ∨ event.watchedAt = moment) := by
  unfold event? at h
  rcases mapHistoryItem_cases jellyfin row with ⟨⟨error, herror⟩, -⟩ | ⟨hnone, -⟩ | ⟨events,
    hevents, hid, hmoment⟩
  · rw [herror] at h
    cases h
  · rw [hnone] at h
    cases h
  · rw [hevents] at h
    cases h
    refine ⟨hid moment, ?_⟩
    rw [hmoment]
    cases jellyfin.playedAt row with
    | none => exact .inr rfl
    | some watchedAt => exact .inl rfl

theorem event?_of_playedAt {row : ListedRow} {watchedAt : Time}
    (h : jellyfin.playedAt row = some watchedAt) (moment : Time) :
    ∃ event, jellyfin.event? moment row = some event ∧ event.watchedAt = watchedAt := by
  unfold event?
  rcases mapHistoryItem_cases jellyfin row with ⟨-, hnone⟩ | ⟨-, hnone⟩ | ⟨events,
    hevents, -, hmoment⟩
  · cases h.symm.trans hnone
  · cases h.symm.trans hnone
  · rw [hevents]
    refine ⟨events moment, rfl, ?_⟩
    rw [hmoment, h]
    rfl

theorem issue?_eq (moment moment' : Time) : jellyfin.issue? moment = jellyfin.issue? moment' := by
  funext row
  unfold issue?
  rcases mapHistoryItem_cases jellyfin row with ⟨⟨error, herror⟩, -⟩ | ⟨hnone, -⟩ | ⟨events,
    hevents, -, -⟩
  · rw [herror, herror]
  · rw [hnone, hnone]
  · rw [hevents, hevents]

theorem map_event?_eq (moment moment' : Time) :
    (fun row => (jellyfin.event? moment row).map (·.mediaExternalId)) =
    fun row => (jellyfin.event? moment' row).map (·.mediaExternalId) := by
  funext row
  unfold event?
  rcases mapHistoryItem_cases jellyfin row with ⟨⟨error, herror⟩, -⟩ | ⟨hnone, -⟩ | ⟨events,
    hevents, hid, -⟩
  · rw [herror, herror]
  · rw [hnone, hnone]
  · rw [hevents, hevents]
    exact congrArg some ((hid moment).trans (hid moment').symm)

/-! ### What the pages hold -/

/-- Of two rows with a date the first one has the later date. -/
def LatestFirst (jellyfin : JellyfinHistory) (rows : List ListedRow) : Prop :=
  rows.Pairwise fun a b => ∀ s t, jellyfin.playedAt a = some s →
    jellyfin.playedAt b = some t → t ≤ s

/-- What the pages hold of these rows. -/
structure Holds (jellyfin : JellyfinHistory) (watermark : Option Time) (rows : List ListedRow)
    (pages : List HistoryPage) : Prop where
  found : ∀ row ∈ rows, ∀ watchedAt, jellyfin.playedAt row = some watchedAt →
    watermark.all (· ≤ watchedAt) = true →
    ∃ page ∈ pages, ∃ event ∈ page.items, ∃ moment, jellyfin.event? moment row = some event
  recent : ∀ page ∈ pages, ∀ event ∈ page.items, watermark.all (· ≤ event.watchedAt) = true
  once : ((pages.flatMap (·.items)).map (·.mediaExternalId)).Sublist (rows.map (·.externalId))
  every : ∀ moment, watermark = none →
    (pages.flatMap (·.items)).map (·.mediaExternalId) = rows.filterMap fun row =>
      (jellyfin.event? moment row).map (·.mediaExternalId)
  issues : ∀ moment, watermark = none →
    pages.flatMap (·.issues) = rows.filterMap (jellyfin.issue? moment)

namespace Holds
variable {rest : List ListedRow} {pages pages' : List HistoryPage}

theorem append (h : jellyfin.Holds watermark rows pages)
    (h' : jellyfin.Holds watermark rest pages') :
    jellyfin.Holds watermark (rows ++ rest) (pages ++ pages') where
  found := by
    intro row hrow watchedAt hplayed hrecent
    rcases List.mem_append.1 hrow with hrow | hrow
    · obtain ⟨page, hpage, hevent⟩ := h.found row hrow watchedAt hplayed hrecent
      exact ⟨page, List.mem_append_left _ hpage, hevent⟩
    · obtain ⟨page, hpage, hevent⟩ := h'.found row hrow watchedAt hplayed hrecent
      exact ⟨page, List.mem_append_right _ hpage, hevent⟩
  recent := fun page hpage => (List.mem_append.1 hpage).elim (h.recent page) (h'.recent page)
  once := by
    rw [List.flatMap_append, List.map_append, List.map_append]
    exact h.once.append h'.once
  every := by
    intro moment hnone
    rw [List.flatMap_append, List.map_append, List.filterMap_append, h.every moment hnone,
      h'.every moment hnone]
  issues := by
    intro moment hnone
    rw [List.flatMap_append, List.filterMap_append, h.issues moment hnone, h'.issues moment hnone]

/-- Rows that nothing recent is to be had of need no page. -/
theorem extend (h : jellyfin.Holds watermark rows pages)
    (hold : ∀ row ∈ rest, ∀ watchedAt, jellyfin.playedAt row = some watchedAt →
      watermark.all (· ≤ watchedAt) = false)
    (hall : watermark = none → rest = []) : jellyfin.Holds watermark (rows ++ rest) pages where
  found := by
    intro row hrow watchedAt hplayed hrecent
    rcases List.mem_append.1 hrow with hrow | hrow
    · exact h.found row hrow watchedAt hplayed hrecent
    · cases (hold row hrow watchedAt hplayed).symm.trans hrecent
  recent := h.recent
  once := by
    rw [List.map_append]
    exact h.once.trans (List.sublist_append_left _ _)
  every := by
    intro moment hnone
    rw [hall hnone, List.append_nil]
    exact h.every moment hnone
  issues := by
    intro moment hnone
    rw [hall hnone, List.append_nil]
    exact h.issues moment hnone

end Holds

theorem holds_partAt (start : Nat) :
    jellyfin.Holds watermark ((rows.drop start).take size.1)
    [jellyfin.partAt watermark rows observedAt size start] where
  found := by
    intro row hrow watchedAt hplayed hrecent
    obtain ⟨event, hevent, rfl⟩ := event?_of_playedAt hplayed (observedAt start)
    exact ⟨_, List.mem_singleton_self _, event,
      List.mem_filter.2 ⟨List.mem_filterMap.2 ⟨row, hrow, hevent⟩, hrecent⟩, _, hevent⟩
  recent := by
    intro page hpage event hevent
    cases List.mem_singleton.1 hpage
    exact (List.mem_filter.1 hevent).2
  once := by
    rw [List.flatMap_singleton]
    refine List.Sublist.trans (List.Sublist.map _ List.filter_sublist) ?_
    exact map_filterMap_sublist (fun row event hevent => (event?_eq_some hevent).1) _
  every := by
    intro moment hnone
    rw [List.flatMap_singleton]
    unfold partAt
    dsimp only
    simp only [hnone, Option.all_none, List.filter_true, List.map_filterMap]
    exact congrArg (List.filterMap · _) (map_event?_eq _ _)
  issues := by
    intro moment _
    rw [List.flatMap_singleton]
    exact congrArg (List.filterMap · _) (issue?_eq _ _)

/-- Behind an event that is older than the watermark every date is. -/
theorem old_of_reached {start : Nat} (hsorted : jellyfin.LatestFirst rows)
    (hobserved : ∀ start, watermark.all (· ≤ observedAt start) = true)
    (hreached : jellyfin.reached watermark rows observedAt size start = true) :
    ∀ row ∈ (rows.drop start).drop size.1, ∀ watchedAt, jellyfin.playedAt row = some watchedAt →
      watermark.all (· ≤ watchedAt) = false := by
  intro row hrow watchedAt hplayed
  unfold reached at hreached
  cases hwatermark : watermark with
  | none => rw [hwatermark] at hreached; cases hreached
  | some w =>
    rw [hwatermark] at hreached
    obtain ⟨event, hevent, hold⟩ := List.any_eq_true.1 hreached
    obtain ⟨first, hfirst, hmapped⟩ := List.mem_filterMap.1 hevent
    have hold : event.watchedAt < w := of_decide_eq_true hold
    rcases (event?_eq_some hmapped).2 with hdate | hmoment
    · have hparts :
          ((rows.drop start).take size.1 ++ (rows.drop start).drop size.1).Pairwise fun a b =>
          ∀ s t, jellyfin.playedAt a = some s → jellyfin.playedAt b = some t → t ≤ s := by
        rw [List.take_append_drop]
        exact hsorted.sublist (List.drop_sublist _ _)
      have hle := (List.pairwise_append.1 hparts).2.2 first hfirst row hrow _ _ hdate hplayed
      exact decide_eq_false (not_le.2 (hle.trans_lt hold))
    · have hw := hobserved start
      rw [hwatermark] at hw
      exact absurd (of_decide_eq_true hw) (not_le.2 (hmoment ▸ hold))

/-- The invariant of the loop: the pages from a row on hold what the rows from it on ask for. -/
theorem holds_collect (hsorted : jellyfin.LatestFirst rows)
    (hobserved : ∀ start, watermark.all (· ≤ observedAt start) = true)
    (start : Nat) : ∃ pages, jellyfin.collect watermark rows observedAt size start = .ok pages ∧
      jellyfin.Holds watermark (rows.drop start) pages ∧
      pages.length * size.1 ≤ rows.length - start + size.1 := by
  induction hleft : rows.length - start using Nat.strong_induction_on generalizing start with
  | _ left ih =>
    have hsize := size.2.1
    have hpart : jellyfin.Holds watermark ((rows.drop start).take size.1)
        [jellyfin.partAt watermark rows observedAt size start] :=
      holds_partAt start
    cases hnext : (jellyfin.partAt watermark rows observedAt size start).nextStart with
    | some next =>
      obtain ⟨rfl, hlt, -⟩ := jellyfin.partAt_next observedAt hnext
      obtain ⟨pages, hpages, hholds, hlength⟩ :=
        ih (rows.length - (start + size.1)) (by omega) (start + size.1) rfl
      refine ⟨_ :: pages, by rw [collect_next hnext, hpages]; rfl, ?_, ?_⟩
      · rw [← List.take_append_drop size.1 (rows.drop start), List.drop_drop]
        exact hpart.append hholds
      · rw [List.length_cons, Nat.succ_mul]
        omega
    | none =>
      refine ⟨_, collect_last hnext, ?_, ?_⟩
      · rw [← List.take_append_drop size.1 (rows.drop start)]
        rcases jellyfin.partAt_last observedAt hnext with hend | hreached
        · rw [hend]
          exact hpart.extend (fun row hrow => absurd hrow List.not_mem_nil) fun _ => rfl
        · refine hpart.extend (old_of_reached hsorted hobserved hreached) fun hnone => ?_
          unfold reached at hreached
          rw [hnone] at hreached
          cases hreached
      · rw [List.length_singleton, Nat.one_mul]
        exact Nat.le_add_left _ _

/-- A reading of the history comes to its end, and brings every row that is mapped and was played at
the watermark or later. What it brings is no older, in the order of the listing and no row twice;
without a watermark it brings every row that counts as played and an issue for each that is not
mapped. It takes one page more at most than the listing fills. -/
theorem history_complete (hsorted : jellyfin.LatestFirst rows)
    (hobserved : ∀ start, watermark.all (· ≤ observedAt start) = true) :
    ∃ pages, jellyfin.collect watermark rows observedAt size 0 = .ok pages ∧
    jellyfin.Holds watermark rows pages ∧
      pages.length ≤ rows.length / size.1 + 1 := by
  obtain ⟨pages, hpages, hholds, hlength⟩ :=
    @holds_collect jellyfin watermark rows observedAt size hsorted hobserved 0
  refine ⟨pages, hpages, hholds, ?_⟩
  rw [← Nat.add_div_right _ size.2.1]
  exact (Nat.le_div_iff_mul_le size.2.1).2 hlength

/-- Three films of a user, the last one played first. -/
def threeFilms : List ListedRow := [⟨"c", none⟩, ⟨"b", none⟩, ⟨"a", none⟩]

def filmHistory : JellyfinHistory where
  py := .plain
  libraryExternalId := "1"
  userId := "user"
  mapItem row := .ok
    ⟨{ externalId := row.externalId, libraryExternalId := "1", kind := .movie,
       title := row.externalId, viewCount := some 1
       lastViewedAt :=
         if row.externalId = "c" then some 30 else if row.externalId = "b" then some 20 else some 10
       complete := ⟨fun h => (by cases h), fun h => by cases h⟩ }, rfl⟩

theorem history_complete_films : ∃ pages,
    filmHistory.collect (some 20) threeFilms (fun _ => 40) ⟨1, by decide⟩ 0 = .ok pages ∧
    filmHistory.Holds (some 20) threeFilms pages ∧
      pages.length ≤ 4 := by
  have hplayed : ∀ id time, filmHistory.playedAt ⟨id, none⟩ = some time →
      time = if id = "c" then 30 else if id = "b" then 20 else 10 := by
    intro id time h
    unfold playedAt filmHistory at h
    dsimp only at h
    split_ifs at h ⊢ <;> exact (Option.some.inj h).symm
  refine history_complete (List.pairwise_cons.2
    ⟨fun row hrow s t hs ht => ?_, List.pairwise_pair.2 fun s t hs ht => ?_⟩) fun _ => rfl
  · rw [hplayed _ _ hs]
    rcases List.mem_pair.1 hrow with rfl | rfl
    · rw [hplayed _ _ ht]
      decide
    · rw [hplayed _ _ ht]
      decide
  · rw [hplayed _ _ hs, hplayed _ _ ht]
    decide

end JellyfinHistory

end Euvieouvi
