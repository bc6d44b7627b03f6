import Euvieouvi.Connectors.Pages
import Euvieouvi.Python

/-!
# Pages of the play history

`get_history_page` of the Plex connector (`connectors/plex/connector.py`) with `map_watch_event`,
and the loop of `_sync_library` (`sync/orchestrator.py`) that asks for page after page, against a
server whose listing stays the same. The connector skips an answer of which nothing was mapped, and
with it the issues of its rows: `collect_accounts_iff` says for which listings every row is
accounted for.
-/

namespace Euvieouvi

/-- A value of a row: nothing, one of the types that are told apart, or any other with what `str`,
`bool` and `int` make of it. -/
inductive PlexValue
  | none
  | text (value : String)
  | integer (value : Int)
  | boolean (value : Bool)
  | other (text : String) (truthy : Bool) (int : Option Int)
deriving DecidableEq, Repr

structure HistoryRow where
  ratingKey : PlexValue := .none
  historyKey : PlexValue := .none
  viewedAt : PlexValue := .none
  title : PlexValue := .none
  grandparentTitle : PlexValue := .none
  duration : PlexValue := .none
  viewOffset : PlexValue := .none
  viewCount : PlexValue := .none
  /-- `viewIndex`, or `viewNumber` of a row without it. -/
  viewIndex : PlexValue := .none
deriving DecidableEq, Repr

/-- What the standard library makes of numbers and moments; an error is
`type(error).__name__: error`. -/
structure HistoryLib where
  py : PyLib
  /-- `int(text)`. -/
  parseInt : String → Option Int
  /-- `progress / duration >= 0.9`, in floating point. -/
  mostlyPlayed : Nat → Nat → Except String Bool
  /-- `datetime.fromtimestamp(seconds, UTC)`. -/
  fromTimestamp : Nat → Except String Time

/-- Decimal digits, and exact quotients. -/
def HistoryLib.plain : HistoryLib where
  py := .plain
  parseInt text :=
    if text ≠ "" ∧ text.toList.all (·.isDigit) then some
      (text.toList.foldl (fun n c => 10 * n + (c.toNat - '0'.toNat : Nat)) 0)
    else none
  mostlyPlayed progress duration := .ok (decide (9 * duration ≤ 10 * progress))
  fromTimestamp seconds := .ok (1000000 * seconds)

namespace PlexValue

/-- `str(value)`. -/
def str : PlexValue → String
  | .none => "None"
  | .text value => value
  | .integer value => toString value
  | .boolean value => if value then "True" else "False"
  | .other shown _ _ => shown

def truthy : PlexValue → Bool
  | .none => false
  | .text value => value ≠ ""
  | .integer value => value ≠ 0
  | .boolean value => value
  | .other _ truthy _ => truthy

/-- `left or right`. -/
def orElse (left right : PlexValue) : PlexValue := if left.truthy then left else right

/-- `int(value)`. -/
def int (lib : HistoryLib) : PlexValue → Option Int
  | .none => Option.none
  | .text value => lib.parseInt value
  | .integer value => value
  | .boolean value => some (if value then 1 else 0)
  | .other _ _ int => int

/-- `_optional_text`. -/
def optionalText (py : PyLib) : PlexValue → Option String
  | .none => Option.none
  | value => some (py.strip value.str) |>.filter (· ≠ "")

/-- `_has_text`. -/
def hasText (py : PyLib) : PlexValue → Bool
  | .text value => py.strip value ≠ ""
  | .integer value => py.strip (toString value) ≠ ""
  | _ => false

/-- `_integer`. -/
def integer? (lib : HistoryLib) : PlexValue → Except String (Option Nat)
  | .none => .ok Option.none
  | .text "" => .ok Option.none
  | value => match value.int lib with
    | Option.none => .error "ConnectorResponseError: Plex response contained an invalid integer."
    | some n =>
      if n < 0 then .error "ConnectorResponseError: Plex response contained a negative integer."
        else .ok (some n.toNat)

end PlexValue

structure PlexHistory where
  lib : HistoryLib
  libraryExternalId : String
  /-- `_user_id`, stripped. -/
  userId : String := ""

/-- An answer to a request for a part of the history. -/
structure HistoryContainer where
  offset : Option Nat
  totalSize : Option Nat
  rows : List HistoryRow

/-- `Page[ExternalWatchEvent]`. -/
structure HistoryPage where
  items : List ExternalWatchEvent
  start : Nat
  size : Nat
  totalSize : Option Nat := none
  nextStart : Option Nat := none
  issues : List PageIssue := []
deriving DecidableEq, Repr

/-- `Page.__post_init__`. -/
def HistoryPage.checked (p : HistoryPage) : Except PageError HistoryPage :=
  if p.nextStart.any (· ≤ p.start) then .error .mustAdvance else .ok p

namespace PlexHistory
variable (plex : PlexHistory)

/-- `completed` in `map_watch_event`. -/
def completed (row : HistoryRow) (duration progress viewCount : Option Nat) : Except String Bool :=
  if viewCount.any (0 < ·) then .ok true
  else match duration.filter (· ≠ 0), progress with
    | some duration, some progress => plex.lib.mostlyPlayed progress duration
    | _, _ => .ok ((row.historyKey.optionalText plex.lib.py).isSome && progress.isNone)

/-- `_required_timestamp`. -/
def requiredTimestamp (value : PlexValue) : Except String Time := do
  match ← value.integer? plex.lib with
  | none => throw "ConnectorResponseError: Plex history omitted viewedAt."
  | some seconds => plex.lib.fromTimestamp seconds

/-- `map_watch_event`, with the user that `get_history_page` adds. -/
def mapWatchEvent (row : HistoryRow) : Except String ExternalWatchEvent := do
  let duration ← row.duration.integer? plex.lib
  let progress ← row.viewOffset.integer? plex.lib
  let viewCount ← row.viewCount.integer? plex.lib
  let viewNumber ← row.viewIndex.integer? plex.lib
  let completed ← plex.completed row duration progress viewCount
  match row.ratingKey.optionalText plex.lib.py with
  | none => throw "ConnectorResponseError: Plex response omitted required field ratingKey."
  | some mediaExternalId =>
    let watchedAt ← plex.requiredTimestamp row.viewedAt
    return {
      mediaExternalId := mediaExternalId
      libraryExternalId := plex.libraryExternalId
      watchedAt := watchedAt
      completed := completed
      sourceEventId := row.historyKey.optionalText plex.lib.py
      progressMs := progress
      durationMs := duration
      viewNumber := viewNumber
      playbackUser := if plex.userId = "" then none else some plex.userId }

/-- `_mapping_issue`. -/
def mappingIssue (row : HistoryRow) (category error : String) : PageIssue :=
  let text (value : PlexValue) : Option String :=
    some (plex.lib.py.strip (value.orElse (.text "")).str) |>.filter (· ≠ "")
  let externalId := text row.ratingKey
  let title := text (row.title.orElse row.grandparentTitle)
  let shownId := externalId.getD "?"
  let shownTitle := title.getD "?"
  { externalId := externalId
    title := title
    category := category
    message := String.ofList
      ((s!"externo={shownId} · título={shownTitle} · erro={error}".toList).take 1000) }

def identified (row : HistoryRow) : Bool := row.ratingKey.hasText plex.lib.py

def event? (row : HistoryRow) : Option ExternalWatchEvent :=
  if plex.identified row then (plex.mapWatchEvent row).toOption else none

def issue? (row : HistoryRow) : Option PageIssue :=
  if plex.identified row then
    match plex.mapWatchEvent row with
    | .ok _ => none
    | .error error => some (plex.mappingIssue row "history_mapping" error)
  else none

/-- `_page`. -/
def page (container : HistoryContainer) (items : List ExternalWatchEvent) (request : PageRequest)
    (consumedSize : Nat) :
    Except PageError HistoryPage :=
  if container.offset.any (· ≠ request.start) then .error .withoutOffset
  else if consumedSize < items.length ∨ request.size.1 < consumedSize then .error .invalidSize
  else HistoryPage.checked
    { items := items
      start := request.start
      size := items.length
      totalSize := container.totalSize
      nextStart := if consumedSize =
        request.size.1 then some (request.start + consumedSize) else none }

/-- What `_remember_page` compares. -/
def fingerprint (items : List ExternalWatchEvent) : List String :=
  items.map fun item => (item.sourceEventId.filter (· ≠ "")).getD
    (item.mediaExternalId ++ ":" ++ plex.lib.py.isoformat item.watchedAt)

end PlexHistory

/-! ### A server whose history stays the same -/

/-- The history of a library since the watermark; Plex may leave out its position and its length. -/
structure HistoryServer where
  rows : List HistoryRow
  reportsOffset : Bool := true
  reportedTotal : Option Nat := none

def HistoryServer.answer (server : HistoryServer) (request : PageRequest) : HistoryContainer where
  offset := if server.reportsOffset then some request.start else none
  totalSize := server.reportedTotal
  rows := (server.rows.drop request.start).take request.size.1

namespace PlexHistory
variable (plex : PlexHistory) (server : HistoryServer)

/-- One round of the loop of `get_history_page`. -/
def fetch (request : PageRequest) : Except PageError HistoryPage :=
  let container := server.answer request
  let mapped := container.rows.filterMap plex.event?
  (page container mapped request container.rows.length).map fun result =>
    { result with issues := container.rows.filterMap plex.issue? }

/-- The page of a part of the history. -/
def pageAt (request : PageRequest) : HistoryPage :=
  let rows := (server.rows.drop request.start).take request.size.1
  { items := rows.filterMap plex.event?
    start := request.start
    size := (rows.filterMap plex.event?).length
    totalSize := server.reportedTotal
    nextStart := if rows.length = request.size.1 then some (request.start + rows.length) else none
    issues := rows.filterMap plex.issue? }

/-- The server answers what it was asked for. -/
theorem fetch_eq (request : PageRequest) :
    plex.fetch server request = .ok (plex.pageAt server request) := by
  have hsize := request.size.2.1
  unfold fetch page
  dsimp only
  rw [if_neg, if_neg]
  · unfold HistoryPage.checked
    rw [if_neg]
    · rfl
    · by_cases hfull : (server.answer request).rows.length = request.size.1
      · rw [if_pos hfull]
        intro hstuck
        have hle : request.start + (server.answer request).rows.length ≤ request.start :=
          of_decide_eq_true hstuck
        omega
      · rw [if_neg hfull]
        exact Bool.false_ne_true
  · have hlength := List.length_filterMap_le plex.event? (server.answer request).rows
    have htake : (server.answer request).rows.length ≤ request.size.1 := List.length_take_le _ _
    omega
  · unfold HistoryServer.answer
    cases server.reportsOffset <;> simp

theorem pageAt_next {request : PageRequest} {next : Nat}
    (h : (plex.pageAt server request).nextStart = some next) :
    next = request.start + request.size.1 ∧ next ≤ server.rows.length := by
  have hsize := request.size.2.1
  unfold pageAt at h
  dsimp only at h
  split at h
  next hfull =>
    rw [hfull] at h
    rw [List.length_take, List.length_drop] at hfull
    obtain rfl := Option.some.inj h
    exact ⟨rfl, by omega⟩
  next => cases h

/-- `get_history_page`. -/
def getHistoryPage (request : PageRequest) (last : PlexConnector.LastPage) :
    Except PageError (HistoryPage × PlexConnector.LastPage) :=
  match _hresult : plex.fetch server request with
  | .error error => .error error
  | .ok result =>
    if hskip : result.items = [] ∧ result.nextStart.isSome then
      getHistoryPage { request with start := result.nextStart.get hskip.2 } last
    else (PlexConnector.rememberPage last result.start (plex.fingerprint result.items)).map
      fun last => (result, last)
termination_by server.rows.length - request.start
decreasing_by
  obtain rfl := Except.ok.inj ((plex.fetch_eq server request).symm.trans _hresult)
  obtain ⟨hnext, hle⟩ := plex.pageAt_next server (Option.some_get hskip.2).symm
  have hsize := request.size.2.1
  omega

variable {plex server} {request : PageRequest} {last last' : PlexConnector.LastPage}
  {p : HistoryPage}

/-- A round that is skipped. -/
theorem getHistoryPage_skip {next : Nat} (hitems : (plex.pageAt server request).items = [])
    (hnext : (plex.pageAt server request).nextStart = some next) :
    plex.getHistoryPage server request last =
      plex.getHistoryPage server { request with start := next } last := by
  rw [getHistoryPage]
  split
  next error hresult => exact absurd ((plex.fetch_eq server request).symm.trans hresult) nofun
  next result hresult =>
    obtain rfl := Except.ok.inj ((plex.fetch_eq server request).symm.trans hresult)
    rw [dif_pos ⟨hitems, Option.isSome_iff_exists.2 ⟨_, hnext⟩⟩]
    congr 2
    exact Option.get_of_eq_some _ hnext

theorem getHistoryPage_last (hstop : (plex.pageAt server request).items ≠ [] ∨
      (plex.pageAt server request).nextStart = none) :
    plex.getHistoryPage server request last =
      (PlexConnector.rememberPage last request.start
        (plex.fingerprint (plex.pageAt server request).items)).map
        fun last => (plex.pageAt server request, last) := by
  rw [getHistoryPage]
  split
  next error hresult => exact absurd ((plex.fetch_eq server request).symm.trans hresult) nofun
  next result hresult =>
    obtain rfl := Except.ok.inj ((plex.fetch_eq server request).symm.trans hresult)
    rw [dif_neg]
    · rfl
    · rintro ⟨hitems, hnext⟩
      rcases hstop with hstop | hstop
      · exact hstop hitems
      · rw [hstop] at hnext
        cases hnext

/-- A page that was got is the page of a part that begins no earlier. -/
theorem getHistoryPage_start (h : plex.getHistoryPage server request last = .ok (p, last')) :
    ∃ start, request.start ≤ start ∧ p = plex.pageAt server { request with start := start } := by
  induction request using getHistoryPage.induct plex server with
  | case1 request error hresult =>
    exact absurd ((plex.fetch_eq server request).symm.trans hresult) nofun
  | case2 request result hresult hskip ih =>
    obtain rfl := Except.ok.inj ((plex.fetch_eq server request).symm.trans hresult)
    have hnext := (Option.some_get hskip.2).symm
    obtain ⟨hadvance, -⟩ := plex.pageAt_next server hnext
    rw [getHistoryPage_skip hskip.1 hnext] at h
    obtain ⟨start, hle, hp⟩ := ih h
    refine ⟨start, Nat.le_trans ?_ hle, hp⟩
    rw [hadvance]
    exact Nat.le_add_right _ _
  | case3 request result hresult hskip =>
    obtain rfl := Except.ok.inj ((plex.fetch_eq server request).symm.trans hresult)
    have hstop : (plex.pageAt server request).items ≠ [] ∨
        (plex.pageAt server request).nextStart = none := by
      by_contra hboth
      rw [not_or, not_not, Option.eq_none_iff_forall_ne_some, not_forall_not] at hboth
      exact hskip ⟨hboth.1, Option.isSome_iff_exists.2 hboth.2⟩
    rw [getHistoryPage_last hstop] at h
    refine ⟨request.start, Nat.le_refl _, ?_⟩
    cases hremember : PlexConnector.rememberPage last request.start
      (plex.fingerprint (plex.pageAt server request).items) with
    | error e => rw [hremember] at h; cases h
    | ok last'' => rw [hremember] at h; cases h; rfl

/-- The loop of `_sync_library` over the history. -/
def collect (plex : PlexHistory) (server : HistoryServer) (size : PageSize) (start : Nat)
    (last : PlexConnector.LastPage) :
    Except PageError (List HistoryPage) :=
  match _hpage : plex.getHistoryPage server ⟨start, size⟩ last with
  | .error error => .error error
  | .ok (page, last) =>
    match _hnext : page.nextStart with
    | none => .ok [page]
    | some next => (collect plex server size next last).map (page :: ·)
termination_by server.rows.length - start
decreasing_by
  obtain ⟨start', hle, rfl⟩ := getHistoryPage_start _hpage
  obtain ⟨hadvance, hbound⟩ := plex.pageAt_next server _hnext
  have _hsize := size.2.1
  dsimp only at hle hadvance
  omega

theorem collect_eq {size : PageSize} {start : Nat} : plex.collect server size start last =
    match plex.getHistoryPage server ⟨start, size⟩ last with
    | .error error => .error error
    | .ok (page, last) =>
      match page.nextStart with
      | none => .ok [page]
      | some next => (plex.collect server size next last).map (page :: ·) := by
  rw [collect]
  split
  next error hpage => rw [hpage]
  next page last hpage =>
    rw [hpage]
    dsimp only
    split
    next hnext => rw [hnext]
    next next hnext => rw [hnext]

/-! ### The rows of a collection -/

/-- No row is mapped, and one is no orphan. -/
def Unmapped (plex : PlexHistory) (rows : List HistoryRow) : Prop :=
  rows.filterMap plex.event? = [] ∧ rows.filterMap plex.issue? ≠ []

/-- The events of the pages are those of the rows that are mapped, and their issues those of the
rows that are not, row by row. -/
structure Accounted (plex : PlexHistory) (rows : List HistoryRow)
    (pages : List HistoryPage) : Prop where
  events : pages.flatMap (·.items) = rows.filterMap plex.event?
  issues : pages.flatMap (·.issues) = rows.filterMap plex.issue?

section Collection
variable {size : PageSize} {start : Nat} {pages : List HistoryPage}

/-- What the loop does in one round. -/
theorem collect_step (h : plex.collect server size start last = .ok pages) :
    (∃ next, (plex.pageAt server ⟨start, size⟩).items = [] ∧
      (plex.pageAt server ⟨start, size⟩).nextStart = some next ∧
      plex.collect server size next last = .ok pages) ∨
    ((plex.pageAt server ⟨start, size⟩).nextStart = none ∧
      pages = [plex.pageAt server ⟨start, size⟩]) ∨
    ∃ next last' rest, (plex.pageAt server ⟨start, size⟩).items ≠ [] ∧
      (plex.pageAt server ⟨start, size⟩).nextStart = some next ∧
      plex.collect server size next last' = .ok rest ∧
      pages = plex.pageAt server ⟨start, size⟩ :: rest := by
  cases hnext : (plex.pageAt server ⟨start, size⟩).nextStart with
  | none =>
    rw [collect_eq, getHistoryPage_last (.inr hnext)] at h
    refine .inr (.inl ⟨rfl, ?_⟩)
    cases hremember : PlexConnector.rememberPage last start
      (plex.fingerprint (plex.pageAt server ⟨start, size⟩).items) with
    | error error => rw [hremember] at h; cases h
    | ok last' =>
      rw [hremember] at h
      dsimp only [Except.map] at h
      rw [hnext] at h
      exact (Except.ok.inj h).symm
  | some next =>
    by_cases hitems : (plex.pageAt server ⟨start, size⟩).items = []
    · rw [collect_eq, getHistoryPage_skip hitems hnext, ← collect_eq] at h
      exact .inl ⟨next, hitems, rfl, h⟩
    · rw [collect_eq, getHistoryPage_last (.inl hitems)] at h
      refine .inr (.inr ?_)
      cases hremember : PlexConnector.rememberPage last start
        (plex.fingerprint (plex.pageAt server ⟨start, size⟩).items) with
      | error error => rw [hremember] at h; cases h
      | ok last' =>
        rw [hremember] at h
        dsimp only [Except.map] at h
        rw [hnext] at h
        dsimp only at h
        cases hrest : plex.collect server size next last' with
        | error error => rw [hrest] at h; cases h
        | ok rest =>
          rw [hrest] at h
          exact ⟨next, last', rest, hitems, rfl, hrest, (Except.ok.inj h).symm⟩

/-- The rows from a position on are those of its part and those from the next position on. -/
theorem pageAt_rows {next : Nat}
    (hnext : (plex.pageAt server ⟨start, size⟩).nextStart = some next) :
    size.1 ≤ (server.rows.drop start).length ∧
    server.rows.drop next = (server.rows.drop start).drop size.1 := by
  obtain ⟨rfl, hle⟩ := plex.pageAt_next server hnext
  dsimp only at hle
  rw [List.length_drop, List.drop_drop]
  exact ⟨Nat.le_sub_of_add_le' hle, rfl⟩

theorem pageAt_last (hnext : (plex.pageAt server ⟨start, size⟩).nextStart = none) :
    (server.rows.drop start).length < size.1 ∧
    (server.rows.drop start).take size.1 = server.rows.drop start := by
  have hpart : ((server.rows.drop start).take size.1).length ≠ size.1 := by
    intro hfull
    unfold pageAt at hnext
    dsimp only at hnext
    rw [if_pos hfull] at hnext
    cases hnext
  rw [List.length_take] at hpart
  have hlt : (server.rows.drop start).length < size.1 := by omega
  exact ⟨hlt, List.take_of_length_le (Nat.le_of_lt hlt)⟩

/-- What a collection returns of the rows from its start on. -/
theorem collect_rows (h : plex.collect server size start last = .ok pages) :
    pages.flatMap (·.items) = (server.rows.drop start).filterMap plex.event? ∧
      (pages.flatMap (·.issues)).length ≤ ((server.rows.drop start).filterMap plex.issue?).length ∧
      (pages.flatMap (·.issues) = (server.rows.drop start).filterMap plex.issue? ↔
        ∀ k, (k + 1) * size.1 ≤ (server.rows.drop start).length →
          ¬ plex.Unmapped (window size.1 k (server.rows.drop start))) := by
  induction hm : server.rows.length - start using Nat.strong_induction_on generalizing start
    last pages with
  | h m ih =>
    have hsize := size.2.1
    have hevents : (plex.pageAt server ⟨start, size⟩).items =
        ((server.rows.drop start).take size.1).filterMap plex.event? := rfl
    have hissues : (plex.pageAt server ⟨start, size⟩).issues =
        ((server.rows.drop start).take size.1).filterMap plex.issue? := rfl
    rcases collect_step h with ⟨next, hitems, hnext, hrest⟩ | ⟨hnext, rfl⟩ | ⟨next, last', rest,
      hitems, hnext, hrest, rfl⟩
    · obtain ⟨hfull, hdrop⟩ := pageAt_rows hnext
      obtain ⟨hadvance, hbound⟩ := plex.pageAt_next server hnext
      obtain ⟨hrestEvents, hrestIssues, hiff⟩ :=
        ih (server.rows.length - next) (by dsimp only at hadvance; omega) hrest rfl
      rw [hdrop] at hrestEvents hrestIssues hiff
      rw [hevents] at hitems
      rw [forall_full_windows (P := fun rows => ¬ plex.Unmapped rows) hfull,
        ← List.take_append_drop size.1 (server.rows.drop start), List.filterMap_append,
        List.filterMap_append, List.take_append_drop, hitems, List.length_append]
      refine ⟨hrestEvents, by omega, ?_⟩
      rw [← hiff]
      constructor
      · intro heq
        have hlength := congrArg List.length heq
        rw [List.length_append] at hlength
        have hnil : ((server.rows.drop start).take size.1).filterMap plex.issue? = [] :=
          List.length_eq_zero_iff.1 (by omega)
        rw [hnil] at heq
        exact ⟨fun hunmapped => hunmapped.2 hnil, heq⟩
      · rintro ⟨hmapped, heq⟩
        have hnil : ((server.rows.drop start).take size.1).filterMap plex.issue? = [] :=
          not_not.1 fun hne => hmapped ⟨hitems, hne⟩
        rw [hnil, heq]
        rfl
    · obtain ⟨hlt, htake⟩ := pageAt_last hnext
      rw [htake] at hevents hissues
      simp only [List.flatMap_cons, List.flatMap_nil, List.append_nil, hevents, hissues]
      refine ⟨trivial, Nat.le_refl _, iff_of_true trivial fun k hk => ?_⟩
      exact absurd (Nat.le_trans (Nat.le_mul_of_pos_left size.1 (Nat.succ_pos k)) hk)
        (Nat.not_le.2 hlt)
    · obtain ⟨hfull, hdrop⟩ := pageAt_rows hnext
      obtain ⟨hadvance, hbound⟩ := plex.pageAt_next server hnext
      obtain ⟨hrestEvents, hrestIssues, hiff⟩ :=
        ih (server.rows.length - next) (by dsimp only at hadvance; omega) hrest rfl
      rw [hdrop] at hrestEvents hrestIssues hiff
      rw [forall_full_windows (P := fun rows => ¬ plex.Unmapped rows) hfull,
        ← List.take_append_drop size.1 (server.rows.drop start), List.filterMap_append,
        List.filterMap_append, List.take_append_drop, List.flatMap_cons, List.flatMap_cons, hevents,
          hissues, hrestEvents,
        List.length_append, List.length_append]
      refine ⟨rfl, by omega, (List.append_right_inj _).trans (hiff.trans (and_iff_right ?_).symm)⟩
      exact fun hunmapped => hitems (hevents.trans hunmapped.1)

/-- Nothing but a repeated page ends a collection early. -/
theorem collect_error {error : PageError} (h : plex.collect server size start last = .error error) :
    error = .repeatedPage := by
  induction hm : server.rows.length - start using Nat.strong_induction_on generalizing
    start last with
  | h m ih =>
    have hsize := size.2.1
    have hremember : ∀ {start last items error}, PlexConnector.rememberPage last start items =
        .error error →
        error = .repeatedPage := by
      intro start last items error h
      unfold PlexConnector.rememberPage at h
      split at h
      · exact (Except.error.inj h).symm
      · cases h
    by_cases hskip : (plex.pageAt server ⟨start, size⟩).items ≠ [] ∨
      (plex.pageAt server ⟨start, size⟩).nextStart = none
    · rw [collect_eq, getHistoryPage_last hskip] at h
      cases hresult : PlexConnector.rememberPage last start
        (plex.fingerprint (plex.pageAt server ⟨start, size⟩).items) with
      | error e =>
        rw [hresult] at h
        obtain rfl : e = error := Except.error.inj h
        exact hremember hresult
      | ok last' =>
        rw [hresult] at h
        dsimp only [Except.map] at h
        cases hnext : (plex.pageAt server ⟨start, size⟩).nextStart with
        | none => rw [hnext] at h; cases h
        | some next =>
          rw [hnext] at h
          obtain ⟨hadvance, hbound⟩ := plex.pageAt_next server hnext
          dsimp only at h hadvance
          cases hrest : plex.collect server size next last' with
          | ok rest => rw [hrest] at h; cases h
          | error e =>
            rw [hrest] at h
            obtain rfl : e = error := Except.error.inj h
            exact ih (server.rows.length - next) (by omega) hrest rfl
    · rw [not_or, not_not, Option.eq_none_iff_forall_ne_some, not_forall_not] at hskip
      obtain ⟨hitems, next, hnext⟩ := hskip
      obtain ⟨hadvance, hbound⟩ := plex.pageAt_next server hnext
      dsimp only at hadvance
      rw [collect_eq, getHistoryPage_skip hitems hnext, ← collect_eq] at h
      exact ih (server.rows.length - next) (by omega) h rfl

/-- A collection accounts for every row exactly when no full part of the listing has only orphans
and rows that cannot be mapped, and one of the latter. -/
theorem collect_accounts_iff (h : plex.collect server size start last = .ok pages) :
    plex.Accounted (server.rows.drop start) pages ↔
      ∀ k, (k + 1) * size.1 ≤ (server.rows.drop start).length →
      ¬ plex.Unmapped (window size.1 k (server.rows.drop start)) := by
  obtain ⟨hevents, -, hiff⟩ := collect_rows h
  rw [← hiff]
  exact ⟨fun haccounted => haccounted.issues, fun hissues => ⟨hevents, hissues⟩⟩

end Collection

/-- An event that has no moment, then one that has. -/
def exampleServer : HistoryServer where
  rows := [{ ratingKey := .text "7", historyKey := .text "/history/1" },
    { ratingKey := .text "7", historyKey := .text "/history/2", viewedAt := .text "1700000000" }]

def examplePlex : PlexHistory where
  lib := .plain
  libraryExternalId := "1"

/-- The event without a moment is in no page: its part is skipped. -/
theorem unmapped_part_lost :
    ∃ pages, examplePlex.collect exampleServer ⟨1, by decide⟩ 0 none = .ok pages ∧
    pages.flatMap (·.issues) = [] ∧ (exampleServer.rows.filterMap examplePlex.issue?).length = 1 ∧
    ¬ examplePlex.Accounted exampleServer.rows pages := by
  have hrun : (examplePlex.collect exampleServer ⟨1, by decide⟩ 0 none).map (·.flatMap (·.issues)) =
      .ok [] := by decide +kernel
  have hissues : (exampleServer.rows.filterMap examplePlex.issue?).length = 1 := by decide +kernel
  cases hpages : examplePlex.collect exampleServer ⟨1, by decide⟩ 0 none with
  | error error => rw [hpages] at hrun; cases hrun
  | ok pages =>
    rw [hpages] at hrun
    have hnone : pages.flatMap (·.issues) = [] := Except.ok.inj hrun
    refine ⟨pages, rfl, hnone, hissues, fun haccounted => ?_⟩
    rw [← haccounted.issues, hnone] at hissues
    cases hissues

/-- In parts of two, the same history is accounted for. -/
theorem collect_accounts_in_twos :
    ∃ pages, examplePlex.collect exampleServer ⟨2, by decide⟩ 0 none = .ok pages ∧
    examplePlex.Accounted (exampleServer.rows.drop 0) pages := by
  cases hpages : examplePlex.collect exampleServer ⟨2, by decide⟩ 0 none with
  | error error =>
    have hrun : (examplePlex.collect exampleServer ⟨2, by decide⟩ 0 none).isOk = true := by
      decide +kernel
    rw [hpages] at hrun
    cases hrun
  | ok pages =>
    refine ⟨pages, rfl, (collect_accounts_iff hpages).2 ?_⟩
    rintro (- | k) hk
    · rw [window_zero]
      have hevents : (exampleServer.rows.take 2).filterMap examplePlex.event? ≠ [] := by
        decide +kernel
      exact fun hunmapped => hevents hunmapped.1
    · have hlength : (exampleServer.rows.drop 0).length = 2 := rfl
      rw [hlength, Nat.succ_mul] at hk
      dsimp only at hk
      omega

end PlexHistory

end Euvieouvi
