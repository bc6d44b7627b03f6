import Euvieouvi.Persist.Trace
import Euvieouvi.WatchSync.Prepare

/-!
# Instant updates

`AsyncTaskExecutor._apply_watch_update` (`sync/async_tasks.py`) on one payload. The item is found by
its reference on the origin, which is fetched and cataloged if it is missing. Each other server that
has the item is told, unless it has completed it, and its watch state is written when all its
references were called. A repair commits what the session holds; an error leaves what was committed.
What the servers answer is an input.
-/

namespace Euvieouvi

inductive RemoteAnswer
  | success
  | notFound
  | raises (error : String)
deriving DecidableEq, Repr

/-- One remote call: `set_progress`, or `mark_watched` without a position. -/
structure RemoteCall where
  reference : SourceMediaRef
  progressMs : Option Int
  /-- The state of the item on the server as it was read before the calls to it. -/
  state : Option WatchState
deriving DecidableEq, Repr

structure AsyncTaskExecutor where
  py : PyLib
  dumpsItem : MediaFields → String
  dumpsEvent : EventPayload → String

/-- What happens during one execution. -/
structure ExecutionInputs where
  now : Time
  /-- `get_media_item` of the origin, given the id and the library. -/
  getMediaItem : String → String → Except String ExternalMediaItem := fun _ _ => .error ""
  /-- The error of `connector_for`. -/
  connectionError : Nat → Option String := fun _ => none
  /-- The answer about a reference. -/
  answer : Nat → RemoteAnswer := fun _ => .success

inductive ApplyError
  | noSource
  | noReference
  | staleTargets
  | staleSource
  | noLibrary
  | recovery (error : String)
  | remote (error : String)
deriving DecidableEq, Repr

/-- The session of an execution. -/
structure Applying where
  committed : Database
  db : Database
  calls : List RemoteCall := []
  changed : Bool := false
  error : Option ApplyError := none

structure Applied where
  db : Database
  calls : List RemoteCall
  outcome : Except ApplyError Bool

namespace WatchUpdate
variable (u : WatchUpdate)

/-- The position a payload is about, if it is about one. -/
def position : Option Int := if u.completed then none else u.progressMs

/-- The assignments to the state of a server that was told. -/
def assign (s : WatchState) : WatchState :=
  let s :=
    if u.completed then
      { s with
        viewCount := max s.viewCount 1, completed := true, lastWatchedAt := some u.watchedAt,
        progressMs := none }
    else { s with completed := false, progressMs := u.progressMs.map Int.toNat }
  { s with lastPlayedAt := latest s.lastPlayedAt (some u.watchedAt), observedAt := u.watchedAt }

theorem key_assign (s : WatchState) : (u.assign s).key = s.key := by
  unfold assign
  dsimp only
  split <;> rfl

/-- The row of a server that has no state of the item, before the assignments. -/
def newState (now : Time) (key : Nat × Nat) : WatchState where
  mediaItemId := key.1
  sourceId := key.2
  viewCount := if u.completed then 1 else 0
  completed := u.completed
  observedAt := u.watchedAt
  updatedAt := now

end WatchUpdate

namespace Database

/-- The flush of a state that was loaded or added. -/
def putWatchState (now : Time) (key : Nat × Nat) (new : WatchState) (f : Assignment WatchState.key)
    (db : Database) : Database :=
  match db.watchStates.get? key with
  | some _ => db.saveWatchState now key f
  | none => db.insertWatchState (f new)

theorem putWatchState_frame (now : Time) (key : Nat × Nat) (new : WatchState)
    (f : Assignment WatchState.key) (db : Database) :
    Frame [.watchStates, .dirtyItems] db (db.putWatchState now key new f) := by
  unfold putWatchState
  split
  · exact updateWatchStates_frame _ _
  · exact insertWatchState_frame _

/-- The references of the item on other servers that are enabled. -/
def otherReferences (db : Database) (item source : Nat) (available : Bool) : List SourceMediaRef :=
  db.sourceMediaRefs.rows.filter fun r => r.mediaItemId == item && r.sourceId != source &&
    r.available == available &&
    (db.sources.get? r.sourceId).any (·.enabled)

/-- `_origin_reference` without a repair. -/
def availableReference (db : Database) (source : Nat) (externalId : String) :
    Option SourceMediaRef :=
  db.sourceMediaRefs.rows.find? fun r => r.sourceId == source &&
    r.externalId == externalId && r.available

end Database

/-- `wanted_type`. -/
def MediaKind.wantedLibrary : MediaKind → Option LibraryMediaType
  | .movie => some .movie
  | .episode => some .show
  | .track => some .artist
  | _ => none

namespace AsyncTaskExecutor
variable (executor : AsyncTaskExecutor) (inputs : ExecutionInputs)

/-- `MediaPersistenceService(…, source_id, library_id)`. -/
def persistence (db : Database) (source library : Nat) : MediaPersistenceService where
  py := executor.py
  dumpsItem := executor.dumpsItem
  dumpsEvent := executor.dumpsEvent
  sourceId := source
  libraryId := library
  pathRoots := db.loadRoots source
  now := inputs.now

/-- The enabled and available libraries of the origin, by id. -/
def recoveryLibraries (db : Database) (source : Nat) : List Library :=
  (db.libraries.rows.filter fun l => l.sourceId == source && l.enabled && l.available).mergeSort
    fun l l' => decide (l.id ≤ l'.id)

/-- The item under the id of a library. -/
def inLibrary (item : ExternalMediaItem) (library : String) : ExternalMediaItem :=
  ⟨{ item.toMediaFields with libraryExternalId := library }, item.complete⟩

/-- The library that a fetched item belongs to. -/
def libraryOf (libraries : List Library) (probe : Library) (item : ExternalMediaItem)
    (wanted : LibraryMediaType) : Library :=
  ((libraries.find? (·.externalId == item.libraryExternalId)).or
    (libraries.find? (·.mediaType == wanted))).getD probe

/-- `_repair_missing_origin_reference`. -/
def repairMissingOriginReference (origin : Source) (u : WatchUpdate) (db : Database) :
    Except ApplyError Database :=
  match recoveryLibraries db origin.id with
  | [] => .error .noLibrary
  | first :: rest =>
    let libraries := first :: rest
    let requested := executor.py.strip (u.libraryExternalId.getD "")
    let probe := (libraries.find? (·.externalId == requested)).getD first
    match inputs.connectionError origin.id, inputs.getMediaItem u.externalId probe.externalId with
    | some error, _ => .error (.recovery error)
    | none, .error error => .error (.recovery error)
    | none, .ok item =>
      match item.kind.wantedLibrary with
      | none => .error (.recovery "KeyError")
      | some wanted =>
        let library := libraryOf libraries probe item wanted
        let service := executor.persistence inputs db origin.id library.id
        match (service.persistMedia (inLibrary item library.externalId) inputs.now).run
          { store := db, cache := [] } with
        | (.ok _, session) => .ok session.store
        | (.error error, _) => .error (.recovery error.text)

/-- `_origin_reference`, and the database after it. -/
def originReference (origin : Source) (u : WatchUpdate) (db : Database) :
    Database × Except ApplyError SourceMediaRef :=
  match db.availableReference origin.id u.externalId with
  | some reference => (db, .ok reference)
  | none =>
    match executor.repairMissingOriginReference inputs origin u db with
    | .error error => (db, .error error)
    | .ok db =>
      match db.availableReference origin.id u.externalId with
      | some reference => (db, .ok reference)
      | none => (db, .error .noReference)

/-- The calls to one server, with how many succeeded. -/
def callEach (position : Option Int) (state : Option WatchState) :
    List SourceMediaRef → Applying × Nat → Applying × Nat
  | [], s => s
  | r :: rs, (s, successful) =>
    let s := { s with calls := s.calls ++ [⟨r, position, state⟩] }
    match inputs.answer r.id with
    | .success => callEach position state rs (s, successful + 1)
    | .notFound =>
      let db := s.db.saveSourceMediaRef inputs.now r.id
        ⟨fun r => { r with available := false, unavailableSince := some inputs.now }, fun _ => rfl⟩
      callEach position state rs ({ s with db := db, committed := db }, successful)
    | .raises error => ({ s with error := some (.remote error) }, successful)

/-- The server need not be told. -/
def leaves (origin : Source) (u : WatchUpdate) (db : Database) (source : Nat)
    (state : Option WatchState) : Bool :=
  state.any (·.completed) || !u.completed && (
    (state.bind (·.progressMs)).map Int.ofNat == u.progressMs ||
      origin.connectorType == .jellyfin &&
        (db.sources.get? source).any (·.connectorType == .plex) &&
        decide (0 < (state.bind (·.progressMs)).getD 0))

/-- One server with its references. -/
def visit (origin : Source) (u : WatchUpdate) (s : Applying)
    (group : Nat × List SourceMediaRef) : Applying :=
  match s.error, group.2.mergeSort Database.moreRecent with
  | some _, _ | none, [] => s
  | none, target :: others =>
    let key := (target.mediaItemId, target.sourceId)
    let state := s.db.watchStates.get? key
    if leaves origin u s.db group.1 state then s
    else match inputs.connectionError group.1 with
      | some error => { s with error := some (.remote error) }
      | none =>
        let (s, successful) := callEach inputs u.position state (target :: others) (s, 0)
        if s.error.isSome then s
        else if successful = 0 then { s with error := some .staleSource }
        else { s with
          db :=
            s.db.putWatchState inputs.now key (u.newState inputs.now key) ⟨u.assign, u.key_assign⟩
          changed := true }

/-- `_apply_watch_update`. -/
def applyWatchUpdate (u : WatchUpdate) (db : Database) : Applied :=
  if u.completed = false ∧ (u.progressMs.all (· ≤ 0)) then ⟨db, [], .ok false⟩
  else match db.sources.get? u.sourceId with
    | none => ⟨db, [], .error .noSource⟩
    | some origin =>
      match executor.originReference inputs origin u db with
      | (db, .error error) => ⟨db, [], .error error⟩
      | (db, .ok reference) =>
        match groupBy (·.sourceId) (db.otherReferences reference.mediaItemId origin.id true) with
        | [] =>
          if (db.otherReferences reference.mediaItemId origin.id false).isEmpty
            then ⟨db, [], .ok false⟩
          else ⟨db, [], .error .staleTargets⟩
        | groups =>
          let s := groups.foldl (visit inputs origin u) { committed := db, db := db }
          match s.error with
          | some error => ⟨s.committed, s.calls, .error error⟩
          | none => ⟨s.db, s.calls, .ok s.changed⟩

/-! ### What an update writes -/

/-- One write of an update, after what its origin was asked for. -/
inductive UpdateWrite (now : Time) (u : WatchUpdate) : Database → Database → Prop
  | invalidate {db : Database} (reference : Nat) :
    UpdateWrite now u db (db.saveSourceMediaRef now reference
      ⟨fun r => { r with available := false, unavailableSince := some now }, fun _ => rfl⟩)
  | put {db : Database} (key : Nat × Nat) :
    (∀ s, db.watchStates.get? key = some s → s.completed = false) →
      UpdateWrite now u db (db.putWatchState now key (u.newState now key) ⟨u.assign, u.key_assign⟩)

abbrev UpdateWrites (now : Time) (u : WatchUpdate) : Database → Database → Prop :=
  Relation.ReflTransGen (UpdateWrite now u)

/-- The reference of the origin was there, or the item that the origin gives was cataloged. -/
inductive Recovered (inputs : ExecutionInputs) (u : WatchUpdate) : Database → Database → Prop
  | there (db : Database) : Recovered inputs u db db
  | cataloged {db : Database} (service : MediaPersistenceService) (found : ExternalMediaItem)
    (probe library : String)
      (result : PersistResult) (session : PersistSession) :
        inputs.getMediaItem u.externalId probe = .ok found →
      service.sourceId = u.sourceId → found.kind.isContainer = false →
      (service.persistMedia (inLibrary found library) inputs.now).run ⟨db, []⟩ =
        (.ok result, session) →
      Recovered inputs u db session.store

section Writes
variable {executor : AsyncTaskExecutor} {inputs : ExecutionInputs} {origin : Source}
  {u : WatchUpdate} {db db' db₀ : Database}

theorem watchStates_saveSourceMediaRef (now : Time) (i : Nat) (f : Assignment SourceMediaRef.id)
    (db : Database) :
    (db.saveSourceMediaRef now i f).watchStates = db.watchStates :=
  db.saveSourceMediaRef_frame now i f .watchStates (by decide)

theorem isContainer_of_wantedLibrary {kind : MediaKind} {wanted : LibraryMediaType}
    (h : kind.wantedLibrary = some wanted) :
    kind.isContainer = false := by
  cases kind <;> first | rfl | cases h

theorem recovered_repair (horigin : origin.id = u.sourceId)
    (h : executor.repairMissingOriginReference inputs origin u db = .ok db') :
    Recovered inputs u db db' := by
  unfold repairMissingOriginReference at h
  split at h
  · cases h
  · dsimp only at h
    split at h
    · cases h
    · cases h
    next found _ hfound =>
      split at h
      · cases h
      next wanted hwanted =>
        split at h
        next result session hrun =>
          cases h
          exact .cataloged _ _ _ _ result session hfound horigin
            (isContainer_of_wantedLibrary hwanted) hrun
        · cases h

theorem recovered_originReference (horigin : origin.id = u.sourceId) :
    Recovered inputs u db (executor.originReference inputs origin u db).1 := by
  unfold originReference
  split
  · exact .there db
  · split
    · exact .there db
    next hrepair =>
      split
      · exact recovered_repair horigin hrepair
      · exact recovered_repair horigin hrepair

/-- What a session holds and what it has committed were written after `db₀`. -/
structure Written (now : Time) (u : WatchUpdate) (db₀ : Database) (s : Applying) : Prop where
  db : UpdateWrites now u db₀ s.db
  committed : UpdateWrites now u db₀ s.committed

theorem written_callEach (position : Option Int) (state : Option WatchState)
    (rs : List SourceMediaRef) (s : Applying × Nat)
    (h : Written inputs.now u db₀ s.1) :
    Written inputs.now u db₀ (callEach inputs position state rs s).1 ∧
      (callEach inputs position state rs s).1.db.watchStates = s.1.db.watchStates := by
  induction rs generalizing s with
  | nil => exact ⟨h, rfl⟩
  | cons r rs ih =>
    obtain ⟨s, n⟩ := s
    unfold callEach
    dsimp only
    split
    · exact ih _ ⟨h.db, h.committed⟩
    · have hdb := h.db.tail (.invalidate r.id)
      have hstates := watchStates_saveSourceMediaRef inputs.now r.id
        ⟨fun r => { r with available := false, unavailableSince := some inputs.now },
          fun _ => rfl⟩ s.db
      generalize s.db.saveSourceMediaRef inputs.now r.id
        ⟨fun r => { r with available := false, unavailableSince := some inputs.now }, fun _ =>
          rfl⟩ = invalidated at hdb hstates ⊢
      obtain ⟨hwritten, hlater⟩ := ih ({ s with
        calls := s.calls ++ [⟨r, position, state⟩], db := invalidated, committed := invalidated },
        n) ⟨hdb, hdb⟩
      exact ⟨hwritten, hlater.trans hstates⟩
    · exact ⟨⟨h.db, h.committed⟩, rfl⟩

theorem written_visit {s : Applying} (h : Written inputs.now u db₀ s)
    (group : Nat × List SourceMediaRef) :
    Written inputs.now u db₀ (visit inputs origin u s group) := by
  unfold visit
  split
  · exact h
  · exact h
  next target others _ _ =>
    dsimp only
    split
    · exact h
    next hgo =>
      split
      · exact ⟨h.db, h.committed⟩
      · obtain ⟨hwritten, hstates⟩ :=
          written_callEach u.position (s.db.watchStates.get? (target.mediaItemId, target.sourceId))
          (target :: others) (s, 0) h
        split
        · exact hwritten
        · split
          · exact ⟨hwritten.db, hwritten.committed⟩
          · refine ⟨hwritten.db.tail (.put _ fun st hst => ?_), hwritten.committed⟩
            rw [hstates] at hst
            unfold leaves at hgo
            rw [hst] at hgo
            simp only [Option.any_some, Bool.or_eq_true, not_or] at hgo
            simpa using hgo.1

theorem written_foldl (inputs : ExecutionInputs) (origin : Source) {s : Applying}
    (h : Written inputs.now u db₀ s) (groups : List (Nat × List SourceMediaRef)) :
    Written inputs.now u db₀ (groups.foldl (visit inputs origin u) s) := by
  induction groups generalizing s with
  | nil => exact h
  | cons group groups ih => exact ih (written_visit h group)

/-- What is written after the reference of the origin was looked for. -/
theorem applyWatchUpdate_origin (executor : AsyncTaskExecutor) (inputs : ExecutionInputs)
    (u : WatchUpdate) (db : Database) :
    (executor.applyWatchUpdate inputs u db).db = db ∨
    ∃ origin, db.sources.get? u.sourceId = some origin ∧
      UpdateWrites inputs.now u (executor.originReference inputs origin u db).1
        (executor.applyWatchUpdate inputs u db).db := by
  unfold applyWatchUpdate
  split
  · exact .inl rfl
  · split
    · exact .inl rfl
    next origin horigin =>
      refine .inr ⟨origin, horigin, ?_⟩
      generalize executor.originReference inputs origin u db = found
      obtain ⟨recovered, error | reference⟩ := found
      · exact .refl
      · dsimp only
        split
        · split
          · exact .refl
          · exact .refl
        · have hstart : Written inputs.now u
              recovered { committed := recovered, db := recovered } := ⟨.refl, .refl⟩
          have hwritten := written_foldl inputs origin hstart
            (groupBy (·.sourceId) (recovered.otherReferences reference.mediaItemId origin.id true))
          split
          · exact hwritten.committed
          · exact hwritten.db

/-- An update catalogs the item of its origin if it has to, and then tells the other servers. -/
theorem applyWatchUpdate_writes (executor : AsyncTaskExecutor) (inputs : ExecutionInputs)
    (u : WatchUpdate) (db : Database) :
    ∃ recovered, Recovered inputs u db recovered ∧
    UpdateWrites inputs.now u recovered (executor.applyWatchUpdate inputs u db).db := by
  rcases executor.applyWatchUpdate_origin inputs u db with heq | ⟨origin, horigin, hwrites⟩
  · rw [heq]
    exact ⟨db, .there db, .refl⟩
  · exact ⟨_, recovered_originReference (Table.key_of_get? horigin), hwrites⟩

end Writes

/-! ### Who is told a resume position -/

section Calls
variable {executor : AsyncTaskExecutor} {inputs : ExecutionInputs} {origin : Source}
  {u : WatchUpdate} {db : Database}
  {position : Option Int} {state : Option WatchState} {s : Applying} {call : RemoteCall}

/-- A resume position goes to a server that had not completed the item when its state was read. -/
def KeepsCompleted (call : RemoteCall) : Prop :=
  ∀ p, call.progressMs = some p → 0 < p ∧ ∀ s, call.state = some s → s.completed = false

theorem mem_callEach (rs : List SourceMediaRef) (s : Applying × Nat)
    (h : call ∈ (callEach inputs position state rs s).1.calls) :
    call ∈ s.1.calls ∨ call.progressMs = position ∧ call.state = state := by
  induction rs generalizing s with
  | nil => exact .inl h
  | cons r rs ih =>
    obtain ⟨s, n⟩ := s
    unfold callEach at h
    dsimp only at h
    have hlogged : call ∈ s.calls ++ [⟨r, position, state⟩] → call ∈ s.calls ∨
        call.progressMs = position ∧ call.state = state := by
      intro h
      rcases List.mem_append.1 h with h | h
      · exact .inl h
      · obtain rfl := List.mem_singleton.1 h
        exact .inr ⟨rfl, rfl⟩
    split at h
    · rcases ih _ h with h | h
      exacts [hlogged h, .inr h]
    · rcases ih _ h with h | h
      exacts [hlogged h, .inr h]
    · exact hlogged h

theorem position_pos (hu : ¬ (u.completed = false ∧ (u.progressMs.all (· ≤ 0)) = true)) {p : Int}
    (hp : u.position = some p) : 0 < p := by
  unfold WatchUpdate.position at hp
  split at hp
  · cases hp
  next hc =>
    by_contra hle
    refine hu ⟨by simpa using hc, ?_⟩
    rw [hp]
    simp only [Option.all_some, decide_eq_true_eq]
    omega

theorem keepsCompleted_visit (hu : ∀ p, u.position = some p → 0 < p)
    (hs : ∀ call ∈ s.calls, KeepsCompleted call)
    (group : Nat × List SourceMediaRef) :
    ∀ call ∈ (visit inputs origin u s group).calls, KeepsCompleted call := by
  unfold visit
  split
  · exact hs
  · exact hs
  next target others _ _ =>
    dsimp only
    split
    · exact hs
    next hgo =>
      have hstate : ∀ st, s.db.watchStates.get? (target.mediaItemId, target.sourceId) = some st →
          st.completed = false := by
        intro st hst
        unfold leaves at hgo
        rw [hst] at hgo
        simp only [Option.any_some, Bool.or_eq_true, not_or] at hgo
        simpa using hgo.1
      split
      · exact hs
      · have hcalls : ∀ call ∈ (callEach inputs u.position
            (s.db.watchStates.get? (target.mediaItemId, target.sourceId))
            (target :: others) (s, 0)).1.calls, KeepsCompleted call := by
          intro call hcall
          rcases mem_callEach _ _ hcall with h | ⟨hp, hst⟩
          · exact hs call h
          · exact fun p hp' => ⟨hu p (hp ▸ hp'), fun st hst' => hstate st (hst ▸ hst')⟩
        split
        · exact hcalls
        · split
          · exact hcalls
          · exact hcalls

theorem keepsCompleted_foldl (hu : ∀ p, u.position = some p → 0 < p)
    (groups : List (Nat × List SourceMediaRef))
    (hs : ∀ call ∈ s.calls, KeepsCompleted call) :
    ∀ call ∈ (groups.foldl (visit inputs origin u) s).calls, KeepsCompleted call := by
  induction groups generalizing s with
  | nil => exact hs
  | cons group groups ih => exact ih (keepsCompleted_visit hu hs group)

theorem keepsCompleted_applyWatchUpdate (h : call ∈ (executor.applyWatchUpdate inputs u db).calls) :
    KeepsCompleted call := by
  unfold applyWatchUpdate at h
  split at h
  · cases h
  next hu =>
    split at h
    · cases h
    split at h
    · cases h
    split at h
    · split at h
      · cases h
      · cases h
    · dsimp only at h
      have hall : ∀ c ∈ ([] : List RemoteCall), KeepsCompleted c := fun _ hc => by cases hc
      split at h
      · exact keepsCompleted_foldl (fun p hp => position_pos hu hp) _ hall call h
      · exact keepsCompleted_foldl (fun p hp => position_pos hu hp) _ hall call h

end Calls

end AsyncTaskExecutor

/-- Neither way of propagation tells a server to unwatch an item: a candidate is a completion, or a
positive position of a group of which neither server has completed anything; an instant update tells
a position only where the item was not completed. -/
theorem propagation_keeps_completed (pair : WatchPair) (direction : Direction)
    (scope : Option (List Nat))
    (executor : AsyncTaskExecutor) (inputs : ExecutionInputs) (u : WatchUpdate) (db : Database) :
    (∀ c ∈ (db.prepareIn pair direction scope).candidates,
      ∃ group ∈ db.scannedGroups pair scope, ∃ d, db.groupDecision pair direction group = some d ∧
        c = db.candidate pair scope group d ∧
        (c.completed = true ∨ (∃ p, c.progressMs = some p ∧ 0 < p) ∧
          (∀ t ∈ c.targets, ∀ s, db.watchStates.get? (t.mediaItemId, c.targetSourceId) = some s →
            s.completed = false) ∧
          ∀ item ∈ group, ∀ s, db.watchStates.get? (item, pair.id d.target.other) = some s →
            s.completed = false)) ∧
    ∀ call ∈ (executor.applyWatchUpdate inputs u db).calls, ∀ p, call.progressMs = some p →
      0 < p ∧ ∀ s, call.state = some s → s.completed = false := by
  refine ⟨fun c hc => ?_, fun call hcall => AsyncTaskExecutor.keepsCompleted_applyWatchUpdate hcall⟩
  obtain ⟨group, hgroup, d, hd, rfl⟩ := Database.mem_candidates.1 hc
  refine ⟨group, hgroup, d, hd, rfl, ?_⟩
  cases hcompleted : d.completed with
  | true => exact .inl hcompleted
  | false =>
    obtain ⟨hpos, hnone⟩ := Database.candidates_keep_completed hd hcompleted
    exact .inr ⟨hpos, fun t ht => hnone d.target _ (Database.mediaItemId_mem_group ht),
      fun item hi => hnone d.target.other item hi⟩

end Euvieouvi
