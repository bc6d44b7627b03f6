import Euvieouvi.Python
import Euvieouvi.WatchSync.Cutoff
import Euvieouvi.WatchSync.Groups
import Euvieouvi.WatchSync.Record

/-!
# The candidates of a propagation

`_prepare` and `_incremental_scope` of `WatchSyncService` (`sync/watch_sync.py`). A scan reads the
available references of the two servers, groups their items, and decides group by group: what one
server has completed the other is told, and where nobody has completed anything a resume position is
passed on. Queries return rows in storage order.

`Database.candidates_keep_completed`: whoever is told a resume position has completed nothing of the
group.
-/

namespace Euvieouvi

def ConnectorType.other : ConnectorType → ConnectorType
  | .plex => .jellyfin
  | .jellyfin => .plex

structure WatchSyncService where
  py : PyLib
  /-- `str(json.loads(decrypt_text(secret)).get("user_id") or "")`. -/
  userOf : String → Option String

/-- The two servers of a scan (`by_type`) with their users (`configured_users`). -/
structure WatchPair where
  source : ConnectorType → Source
  user : ConnectorType → String

def WatchPair.id (pair : WatchPair) (type : ConnectorType) : Nat := (pair.source type).id

/-- `relevant_source_ids`. -/
def WatchPair.relevantSources (pair : WatchPair) (direction : Direction) : List Nat :=
  match direction with
  | some type => [pair.id type]
  | none => [pair.id .plex, pair.id .jellyfin]

/-- What is to be done about a group. -/
structure PropagationDecision where
  target : ConnectorType
  progressMs : Option Nat
  completed : Bool
deriving DecidableEq, Repr

/-- The nest of conditions in `_prepare`, for what the servers know of a group. -/
def propagationDecision (direction : Direction) (watched : ConnectorType → Option Time)
    (progress : ConnectorType → Nat) :
    Option PropagationDecision :=
  match direction with
  | some requested =>
    if (watched requested).isSome ∧
      (watched requested.other).isNone then some ⟨requested.other, none, true⟩
    else if (watched requested).isSome ∨ (watched requested.other).isSome ∨ progress requested = 0 ∨
        progress requested = progress requested.other then none
    -- Plex owns conflicts: Jellyfin fills only an empty resume position.
    else if requested = .jellyfin ∧ 0 < progress requested.other then none
    else some ⟨requested.other, some (progress requested), false⟩
  | none =>
    if (watched .plex).isSome ∧ (watched .jellyfin).isNone then some ⟨.jellyfin, none, true⟩
    else if (watched .plex).isNone ∧ (watched .jellyfin).isSome then some ⟨.plex, none, true⟩
    else if (watched .plex).isSome ∨ (watched .jellyfin).isSome then none
    else if 0 < progress .plex ∧
      progress .plex ≠ progress .jellyfin then some ⟨.jellyfin, some (progress .plex), false⟩
    else if 0 < progress .jellyfin then some ⟨.plex, some (progress .jellyfin), false⟩
    else none

/-- The result of `_prepare`. -/
structure Prepared where
  candidates : List WatchSyncCandidate := []
  scanned : Nat := 0
  skipped : Nat := 0
  incremental : Option (Direction × Bool) := none

namespace Database
variable (db : Database) (pair : WatchPair)

/-- The source of `by_type`: a later one takes the place of an earlier one. -/
def enabledSource (type : ConnectorType) : Option Source :=
  (db.sources.rows.filter fun s => s.enabled && s.connectorType == type).getLast?

/-- The setting `plex.user_id`, or else `webhook.plex.user_filter`. -/
def plexUserSetting : Option String := db.settings.plexUserId <|> db.settings.webhookPlexUserFilter

end Database

/-- Both servers and both users, if they are configured. -/
def WatchSyncService.pair? (service : WatchSyncService) (db : Database) : Option WatchPair := do
  let plex ← db.enabledSource .plex
  let jellyfin ← db.enabledSource .jellyfin
  let plexUser ← (db.plexUserSetting.map service.py.strip).filter (· ≠ "")
  let jellyfinUser ← ((service.userOf jellyfin.secret).map service.py.strip).filter (· ≠ "")
  return {
    source := fun type => match type with
      | .plex => plex
      | .jellyfin => jellyfin
    user := fun type => match type with
      | .plex => plexUser
      | .jellyfin => jellyfinUser }

namespace Database
variable (db : Database) (pair : WatchPair)

/-- The available references of both servers. -/
def scannedRefs (scope : Option (List Nat)) : List SourceMediaRef :=
  db.sourceMediaRefs.rows.filter fun r =>
    (r.sourceId == pair.id .plex || r.sourceId == pair.id .jellyfin) && r.available &&
    scope.all (·.contains r.mediaItemId)

def scannedItems (scope : Option (List Nat)) : List Nat :=
  ((db.scannedRefs pair scope).map (·.mediaItemId)).dedup

/-- The completions of the configured user. -/
def userCompletions (type : ConnectorType) (item : Nat) : List WatchEvent :=
  db.watchEvents.rows.filter fun e => e.sourceId == pair.id type && e.mediaItemId == item &&
    e.completed &&
    e.playbackUser == some (pair.user type)

/-- `watched`: the events count only where there is no state. -/
def watched (type : ConnectorType) (item : Nat) : Option Time :=
  match db.watchStates.get? (item, pair.id type) with
  | some state => if state.completed then some (state.lastWatchedAt.getD state.observedAt) else none
  | none => latestOf ((db.userCompletions pair type item).map fun e => some e.watchedAt)

/-- `partial_progress`. -/
def partialProgress (type : ConnectorType) (item : Nat) : Nat :=
  match db.watchStates.get? (item, pair.id type) with
  | some state => if state.completed then 0 else state.progressMs.getD 0
  | none => 0

/-- `completion_dates` and `playback_dates`. -/
def knownDates (type : ConnectorType) (item : Nat) : Option Time × Option Time :=
  let state := db.watchStates.get? (item, pair.id type)
  let completion := state.bind fun s => if s.completed then s.lastWatchedAt else none
  let playback := state.bind fun s => s.lastPlayedAt <|> s.lastWatchedAt
  (db.userCompletions pair type item).foldl (fun known e =>
    let completion := latest known.1 (some e.watchedAt)
    (completion, latest known.2 completion)) (completion, playback)

/-- `grouped_refs`. -/
def groupRefs (scope : Option (List Nat)) (group : List Nat) (type : ConnectorType) :
    List SourceMediaRef :=
  (db.scannedRefs pair scope).filter fun r => r.sourceId == pair.id type &&
    group.contains r.mediaItemId

def watchedBySource (group : List Nat) (type : ConnectorType) : Option Time :=
  latestOf (group.map (db.watched pair type))

def progressBySource (group : List Nat) (type : ConnectorType) : Nat :=
  (group.map (db.partialProgress pair type)).foldl max 0

/-- `(last_seen_at, id)`, the greatest first. -/
def moreRecent (r r' : SourceMediaRef) : Bool :=
  decide (r'.lastSeenAt < r.lastSeenAt ∨ r'.lastSeenAt = r.lastSeenAt ∧ r'.id ≤ r.id)

def watchSyncTarget (r : SourceMediaRef) : WatchSyncTarget :=
  ⟨r.mediaItemId, r.id, r.externalId, r.lastSeenAt⟩

/-- A completion goes with its date, if there is one, never with the time it was collected. -/
def candidate (scope : Option (List Nat)) (group : List Nat) (decision : PropagationDecision) :
    WatchSyncCandidate where
  targetSourceId := pair.id decision.target
  targets :=
    ((db.groupRefs pair scope group decision.target).mergeSort moreRecent).map watchSyncTarget
  watchedAt :=
    if decision.completed then latestOf
      (group.map fun item => (db.knownDates pair decision.target.other item).1) else none
  progressMs := decision.progressMs
  completed := decision.completed
  lastPlayedAt := latestOf (group.map fun item => (db.knownDates pair decision.target.other item).2)

/-- The groups with a reference on both servers. -/
def scannedGroups (scope : Option (List Nat)) : List (List Nat) :=
  (db.matchingItemGroups (db.scannedItems pair scope)).filter fun group =>
    !(db.groupRefs pair scope group .plex).isEmpty &&
      !(db.groupRefs pair scope group .jellyfin).isEmpty

def groupDecision (direction : Direction) (group : List Nat) : Option PropagationDecision :=
  propagationDecision direction (db.watchedBySource pair group) (db.progressBySource pair group)

/-- `_prepare` once its scope is known. -/
def prepareIn (direction : Direction) (scope : Option (List Nat)) : Prepared where
  candidates := (db.scannedGroups pair scope).filterMap fun group =>
    (db.groupDecision pair direction group).map (db.candidate pair scope group)
  scanned := (db.scannedGroups pair scope).length
  skipped :=
    (db.scannedGroups pair scope).countP fun group => (db.groupDecision pair direction group).isNone

/-- `changed_ids` before it is extended. -/
def changedItems (direction : Direction) (cutoff : Time) : List Nat :=
  (db.watchStates.rows.filter fun s =>
    (pair.relevantSources direction).contains s.sourceId && decide (cutoff ≤ s.updatedAt)).map
      (·.mediaItemId) ++
  (db.watchEvents.rows.filter fun e =>
    (pair.relevantSources direction).contains e.sourceId && decide (cutoff ≤ e.updatedAt)).map
      (·.mediaItemId) ++
  (db.sourceMediaRefs.rows.filter fun r =>
    (r.sourceId == pair.id .plex || r.sourceId == pair.id .jellyfin) &&
      decide (cutoff ≤ r.updatedAt)).map (·.mediaItemId) ++
  (db.mediaIdentifiers.rows.filter fun i =>
    identityProviders.contains i.provider && decide (cutoff ≤ i.createdAt)).map (·.mediaItemId)

/-- `matching_ids`: items with an identifier of one of these. -/
def identifiedWith (items : List Nat) : List Nat :=
  (db.mediaIdentifiers.rows.filter fun i => db.mediaIdentifiers.rows.any fun candidate =>
    items.contains candidate.mediaItemId && identityProviders.contains candidate.provider &&
      candidate.provider == i.provider && candidate.externalId == i.externalId).map (·.mediaItemId)

/-- `_incremental_scope`: the items, if not all of them, and whether it is a full scan. -/
def incrementalScope (direction : Direction) (scanStartedAt : Time) : Option (List Nat) × Bool :=
  match db.settings.lastSuccessAt.lookup direction, db.settings.lastFullAt.lookup direction with
  | some cutoff, some lastFull =>
    if watchScanInterval ≤ scanStartedAt - lastFull then (none, true)
    else
      let changed := db.changedItems pair direction cutoff
      (some (changed ++ db.identifiedWith changed), false)
  | _, _ => (none, true)

end Database

/-- `_prepare`. -/
def WatchSyncService.prepare (service : WatchSyncService) (db : Database) (direction : Direction)
    (scanStartedAt : Time) :
    Prepared :=
  match service.pair? db with
  | some pair =>
    let (scope, fullScan) := db.incrementalScope pair direction scanStartedAt
    { db.prepareIn pair direction scope with incremental := some (direction, fullScan) }
  | none => {}

/-! ### Who is told a resume position -/

/-- A resume position is positive, and nobody has completed anything. -/
theorem propagationDecision_progress {direction : Direction} {watched : ConnectorType → Option Time}
    {progress : ConnectorType → Nat}
    {d : PropagationDecision} (h : propagationDecision direction watched progress = some d)
    (hd : d.completed = false) :
    (∃ p, d.progressMs = some p ∧ 0 < p) ∧ ∀ type, watched type = none := by
  unfold propagationDecision at h
  split at h
  next requested =>
    split at h
    · cases h; cases hd
    split at h
    · cases h
    next hnone =>
      split at h
      · cases h
      cases h
      simp only [not_or, Bool.not_eq_true, Option.isSome_eq_false_iff,
        Option.isNone_iff_eq_none] at hnone
      obtain ⟨hrequested, hother, hpos, -⟩ := hnone
      refine ⟨⟨_, rfl, by omega⟩, fun type => ?_⟩
      cases requested <;> cases type <;> assumption
  next =>
    split at h
    · cases h; cases hd
    split at h
    · cases h; cases hd
    split at h
    · cases h
    next hnone =>
      simp only [not_or, Bool.not_eq_true, Option.isSome_eq_false_iff,
        Option.isNone_iff_eq_none] at hnone
      have hall : ∀ type, watched type = none := by
        intro type
        cases type with
        | plex => exact hnone.1
        | jellyfin => exact hnone.2
      split at h
      next hplex =>
        cases h
        exact ⟨⟨_, rfl, hplex.1⟩, hall⟩
      split at h
      next hjellyfin =>
        cases h
        exact ⟨⟨_, rfl, hjellyfin⟩, hall⟩
      · cases h

namespace Database
variable {db : Database} {pair : WatchPair} {direction : Direction} {scope : Option (List Nat)}
  {group : List Nat} {item : Nat}
  {type : ConnectorType} {d : PropagationDecision} {c : WatchSyncCandidate}

/-- What is not known to be watched has no completed state. -/
theorem completed_eq_false_of_watched (h : db.watched pair type item = none) {s : WatchState}
    (hs : db.watchStates.get? (item, pair.id type) = some s) : s.completed = false := by
  unfold watched at h
  rw [hs] at h
  dsimp only at h
  split at h
  · cases h
  next hc => simpa using hc

theorem watched_of_watchedBySource (h : db.watchedBySource pair group type = none)
    (hi : item ∈ group) :
    db.watched pair type item = none :=
  latestOf_eq_none.1 h _ (List.mem_map_of_mem hi)

theorem mem_targets_candidate {t : WatchSyncTarget}
    (h : t ∈ (db.candidate pair scope group d).targets) :
    ∃ r ∈ db.groupRefs pair scope group d.target, t = watchSyncTarget r := by
  obtain ⟨r, hr, rfl⟩ := List.mem_map.1 h
  exact ⟨r, List.mem_mergeSort.1 hr, rfl⟩

theorem mediaItemId_mem_group {t : WatchSyncTarget}
    (h : t ∈ (db.candidate pair scope group d).targets) : t.mediaItemId ∈ group := by
  obtain ⟨r, hr, rfl⟩ := mem_targets_candidate h
  have := (List.mem_filter.1 hr).2
  simp only [Bool.and_eq_true, List.contains_iff_mem] at this
  exact this.2

/-- A candidate is the decision about a group. -/
theorem mem_candidates : c ∈ (db.prepareIn pair direction scope).candidates ↔
    ∃ group ∈ db.scannedGroups pair scope, ∃ d, db.groupDecision pair direction group = some d ∧
    c = db.candidate pair scope group d := by
  unfold prepareIn
  rw [List.mem_filterMap]
  simp only [Option.map_eq_some_iff, eq_comm (b := c)]

/-- Who is told the resume position of a group has completed no item of it, nor has who tells it. -/
theorem candidates_keep_completed (hd : db.groupDecision pair direction group = some d)
    (hc : d.completed = false) :
    (∃ p, d.progressMs = some p ∧ 0 < p) ∧
      ∀ type, ∀ item ∈ group, ∀ s, db.watchStates.get? (item, pair.id type) = some s →
      s.completed = false := by
  obtain ⟨hpos, hnone⟩ := propagationDecision_progress hd hc
  exact ⟨hpos, fun type item hi s hs =>
    completed_eq_false_of_watched (watched_of_watchedBySource (hnone type) hi) hs⟩

end Database

end Euvieouvi
