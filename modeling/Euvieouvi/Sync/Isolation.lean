import Euvieouvi.Sync.NewServer
import Euvieouvi.WatchSync.Prepare

/-!
# A new server and the rows of the old one

`new_server_isolated`: after the retirement, calls of `persist_media` and `persist_event` with the
data of the new server leave the references and events of the old one as they are, find none of
them, and every id that is sent to the new server is one that it gave, if no event that is handed on
has the id or the digest of an old event and no item the id of a retired reference. Events are not
retired, so a history id that the new server uses again finds the old event: it is changed
(`old_event_overwritten`), or the call is refused.
-/

namespace Euvieouvi

open Database Program

/-- The event would be known as the other one. -/
def MediaPersistenceService.Reuses (service : MediaPersistenceService) (event : ExternalWatchEvent)
    (e : WatchEvent) : Prop :=
  event.sourceEventId ≠ none ∧ event.sourceEventId = e.sourceEventId ∨
    service.eventDedupKey event = e.dedupKey

instance (service : MediaPersistenceService) (event : ExternalWatchEvent) (e : WatchEvent) :
    Decidable (service.Reuses event e) :=
  inferInstanceAs (Decidable (_ ∨ _))

/-- The rows that are left of the old server are unchanged; the ids of the other references of the
source, and those of the updates that wait for it, were given. -/
structure NewData (source : Nat) (old : Database) (given : List String) (db : Database) : Prop where
  references : ∀ r ∈ old.sourceMediaRefs.rows, r.sourceId = source → r ∈ db.sourceMediaRefs.rows
  events : ∀ e ∈ old.watchEvents.rows, e.sourceId = source → e ∈ db.watchEvents.rows
  ids : ∀ r ∈ db.sourceMediaRefs.rows, r.sourceId = source → r ∈ old.sourceMediaRefs.rows ∨
    r.externalId ∈ given
  tasks : ∀ t ∈ db.asyncTasks.rows, ∀ u, (u = t.payload ∨ t.pendingPayload = some u) →
    u.sourceId = source → u.externalId ∈ given

namespace NewData
variable {source : Nat} {old db db' : Database} {given : List String}
  {service : MediaPersistenceService}
  {event : ExternalWatchEvent} {origin : EventOrigin}

theorem mono {given' : List String} (h : NewData source old given db)
    (hgiven : ∀ id ∈ given, id ∈ given') :
    NewData source old given' db where
  references := h.references
  events := h.events
  ids r hr hsource := (h.ids r hr hsource).imp_right (hgiven _)
  tasks t ht u hu hsource := hgiven _ (h.tasks t ht u hu hsource)

/-- Writes under ids that no old reference has. -/
theorem served {ids : List String} (h : NewData source old given db)
    (hw : ServedWith service.sourceId ids db db')
    (hids : service.sourceId = source → ∀ id ∈ ids, id ∈ given ∧ ∀ r ∈ old.sourceMediaRefs.rows,
      r.sourceId = source → r.externalId ≠ id) :
    NewData source old given db' where
  references r hr hsource := hw.kept r (h.references r hr hsource) fun hin =>
    (hids (hin.1.symm.trans hsource) _ hin.2).2 r hr hsource rfl
  events := hw.events ▸ h.events
  ids r hr hsource := by
    rcases hw.rows r hr with hr | ⟨hserved, hid⟩
    exacts [h.ids r hr hsource, .inr (hids (hserved.symm.trans hsource) _ hid).1]
  tasks := hw.tasks ▸ h.tasks

/-- Writes of other tables. -/
theorem of_frame {written : List TableName} (h : NewData source old given db)
    (hw : Frame written db db')
    (hwritten : ∀ table ∈ [TableName.watchEvents, .webhookEvents, .asyncTasks, .sourceMediaRefs],
      table ∉ written) :
    NewData source old given db' := by
  have hserved : ServedWith source [] db db' := .of_frame hw hwritten
  refine ⟨fun r hr hsource => ?_, hserved.events ▸ h.events, fun r hr hsource => ?_,
    hserved.tasks ▸ h.tasks⟩
  · exact hserved.kept r (h.references r hr hsource) fun hin => List.not_mem_nil hin.2
  · exact (hserved.rows r hr).elim (fun hr => h.ids r hr hsource) fun hin =>
      absurd hin.2 List.not_mem_nil

/-- The update of a webhook names the item of its event. -/
theorem enqueued {now : Time} {py : PyLib} {u : WatchUpdate} (h : NewData source old given db)
    (hu : u.sourceId = source → u.externalId ∈ given) :
    NewData source old
      given { db with asyncTasks := Tasks.enqueueWatchUpdate py now u db.asyncTasks } where
  references := h.references
  events := h.events
  ids := h.ids
  tasks t ht u' hu' hsource := by
    unfold Tasks.enqueueWatchUpdate at ht
    split at ht
    next t₀ _ =>
      obtain ⟨t₁, ht₁, rfl⟩ := Table.mem_update.1 ht
      split at hu'
      · unfold AsyncTask.requeue at hu'
        dsimp only at hu'
        split at hu'
        · rcases hu' with rfl | hu'
          · exact h.tasks t₁ ht₁ _ (.inl rfl) hsource
          · obtain rfl := Option.some_inj.1 hu'
            exact hu hsource
        · rcases hu' with rfl | hu'
          · exact hu hsource
          · exact h.tasks t₁ ht₁ u' (.inr hu') hsource
      · exact h.tasks t₁ ht₁ u' hu' hsource
    next =>
      rcases Table.mem_insert ht with ht | rfl
      · exact h.tasks t ht u' hu' hsource
      · rcases hu' with rfl | hu'
        · exact hu hsource
        · cases hu'

theorem refreshed {existing : WatchEvent} (h : NewData source old given db)
    (hmem : existing ∈ db.watchEvents.rows)
    (hnew : existing.sourceId = source → existing ∉ old.watchEvents.rows) :
    NewData source old given (service.refreshStored event origin existing.id db) := by
  set after := service.refreshStored event origin existing.id db with hafter
  have hframe : Frame [.watchEvents, .dirtyItems] db after := updateWatchEvents_frame _ _
  have hrefs : after.sourceMediaRefs = db.sourceMediaRefs := hframe .sourceMediaRefs (by decide)
  have htasks : after.asyncTasks = db.asyncTasks := hframe .asyncTasks (by decide)
  refine ⟨hrefs ▸ h.references, fun e he hsource => ?_, hrefs ▸ h.ids, htasks ▸ h.tasks⟩
  rw [hafter, MediaPersistenceService.rows_saveRefresh]
  refine List.mem_map.2
    ⟨e, h.events e he hsource, MediaPersistenceService.refreshRow_of_ne fun hid => ?_⟩
  have heq := db.watchEvents.eq_of_key_eq (h.events e he hsource) hmem hid
  exact hnew (heq ▸ hsource) (heq ▸ he)

theorem recorded {i : Nat} (h : NewData source old given db)
    (hid : service.sourceId = source → event.mediaExternalId ∈ given) :
    NewData source old given (service.recordEvent i event origin db) := by
  have happlied : NewData source old given (service.applyEventToWatchState i event
      (db.insertWatchEvent (service.newEvent db.watchEvents.nextId i event origin))) := by
    refine NewData.of_frame ?_ (service.saveState_frame i _ _ _) (by decide)
    set inserted :=
      db.insertWatchEvent (service.newEvent db.watchEvents.nextId i event origin) with hinserted
    have hframe : Frame [.watchEvents, .dirtyItems] db inserted := insertWatchEvent_frame _
    have hrefs : inserted.sourceMediaRefs = db.sourceMediaRefs :=
      hframe .sourceMediaRefs (by decide)
    have htasks : inserted.asyncTasks = db.asyncTasks := hframe .asyncTasks (by decide)
    refine ⟨hrefs ▸ h.references, fun e he hsource => ?_, hrefs ▸ h.ids, htasks ▸ h.tasks⟩
    rw [hinserted, watchEvents_insertWatchEvent]
    exact Table.mem_insert_of_mem (h.events e he hsource)
  unfold MediaPersistenceService.recordEvent
  dsimp only
  split
  exacts [happlied.enqueued hid, happlied]

end NewData

namespace MediaPersistenceService
variable (service : MediaPersistenceService) {source : Nat} {old db : Database}
  {given : List String}

/-- The new data, and the webhooks that a call started with. -/
abbrev Isolating (source : Nat) (old : Database) (given : List String)
    (webhooks : Table WebhookEvent.id) (db : Database) : Prop :=
  NewData source old given db ∧ db.webhookEvents = webhooks

variable {webhooks : Table WebhookEvent.id}

/-- An event that is handed on has an id that was given, and is known as no old one. -/
def Handed (service : MediaPersistenceService) (source : Nat) (old : Database) (given : List String)
    (event : ExternalWatchEvent) : Prop :=
  service.sourceId = source → event.mediaExternalId ∈ given ∧
    ∀ e ∈ old.watchEvents.rows, e.sourceId = source → ¬ service.Reuses event e

theorem isolating_persistEvent (event : ExternalWatchEvent) (origin : EventOrigin)
    (hevent : event.completed = true → service.Handed source old given event) :
    Stays (Isolating source old given webhooks) (service.persistEvent event origin) := by
  refine .ite (fun _ => .pure _) fun hc => Always.read_bind (fun _ h => h) fun db hdb => ?_
  have hcompleted : event.completed = true := by simpa using hc
  split
  · exact (Stays.fail _).start hdb
  next r _ =>
    refine .read_bind (by rintro _ rfl; exact hdb) ?_
    rintro db rfl
    split
    next existing hknown =>
      obtain ⟨hmem, hsource, hid⟩ := mem_of_knownEvent hknown
      split
      · exact (Stays.fail _).start hdb
      refine .read_bind (by rintro _ rfl; exact hdb) ?_
      rintro db rfl
      split
      · exact (Stays.fail _).start hdb
      refine .write_bind (by rintro _ rfl; exact hdb) ?_
      rintro db rfl
      refine (Stays.pure _).start ⟨hdb.1.refreshed hmem fun hsame hold => ?_, ?_⟩
      · -- the row that the id finds would be an old one
        obtain ⟨text, htext, -⟩ := Option.bind_eq_some_iff.1 hknown
        refine (hevent hcompleted (hsource.symm.trans hsame)).2 existing hold hsame
          (.inl ⟨?_, hid.symm⟩)
        rw [htext]
        exact Option.some_ne_none _
      · exact (updateWatchEvents_frame _ _ .webhookEvents (by decide)).trans hdb.2
    next =>
      refine .read_bind (by rintro _ rfl; exact hdb) ?_
      rintro db rfl
      split
      · exact (Stays.pure _).start hdb
      refine .write_bind (by rintro _ rfl; exact hdb) ?_
      rintro db rfl
      exact (Stays.pure _).start ⟨hdb.1.recorded fun hown => (hevent hcompleted hown).1,
        (service.recordEvent_frame _ _ _ _ .webhookEvents (by decide)).trans hdb.2⟩

/-- The completions that wait for the item, its state and the event of its last play. -/
theorem isolating_persistPlayback (item : MediaFields) (observedAt : Time) (persisted : Persisted)
    (hevents : ∀ event ∈ service.handledEvents item { db with webhookEvents := webhooks },
      service.Handed source old given event) :
    Stays (Isolating source old given webhooks)
    (service.persistPlayback item observedAt persisted) := by
  refine .bind (Always.read_bind (fun _ h => h) fun db hdb => ?_) fun _ =>
    .bind (.read _) fun regression => ?_
  · refine (Stays.forM _ fun w hw =>
      .bind (service.isolating_persistEvent _ _ fun _ => hevents _ ?_) fun _ => .pure _).start hdb
    rw [hdb.2] at hw
    exact List.mem_append_left _ (List.mem_map_of_mem hw)
  refine .bind (.write fun db hdb => ?_) fun _ => .bind ?_ fun _ => .pure _
  · have hframe := @syncWatchState_frame service item persisted.media observedAt db
    exact ⟨hdb.1.of_frame hframe (by decide), (hframe .webhookEvents (by decide)).trans hdb.2⟩
  · unfold persistStateEvent
    split
    next event hevent =>
      refine service.isolating_persistEvent _ _ fun _ => hevents _ (List.mem_append_right _ ?_)
      rw [hevent]
      exact List.mem_singleton.2 rfl
    next => exact .pure _

theorem mediaExternalId_handledEvents {service : MediaPersistenceService} {item : MediaFields}
    {event : ExternalWatchEvent}
    (h : event ∈ service.handledEvents item db) : event.mediaExternalId = item.externalId := by
  rcases List.mem_append.1 h with h | h
  · obtain ⟨w, -, rfl⟩ := List.mem_map.1 h
    rfl
  · exact service.stateEvent_mediaExternalId (Option.mem_toList.1 h)

theorem always_persistMedia (item : ExternalMediaItem) (observedAt : Time)
    (h : NewData source old given db)
    (hids : service.sourceId = source → ∀ id ∈ item.externalId :: item.containerIds,
      id ∈ given ∧ ∀ r ∈ old.sourceMediaRefs.rows, r.sourceId = source → r.externalId ≠ id)
    (hevents : ∀ event ∈ service.handledEvents item.toMediaFields db,
      service.Handed source old given event) :
    (service.persistMedia item observedAt).Always (· = db) (NewData source old given) := by
  have hserved : ∀ db', ServedWith service.sourceId (item.externalId :: item.containerIds) db db' →
      NewData source old given db' :=
    fun db' hw => h.served hw hids
  refine .read_bind (by rintro _ rfl; exact h) ?_
  rintro db rfl
  refine Always.mono (P := ServedWith service.sourceId (item.externalId :: item.containerIds) db) ?_
    (by rintro _ rfl; exact .refl _)
    fun _ h => h
  have hstep : ∀ {α : Type} {p : Persist α} {q : α → Persist PersistResult},
      Stays (ServedWith service.sourceId (item.externalId :: item.containerIds) db) p →
      (∀ a, (q a).Always (ServedWith service.sourceId (item.externalId :: item.containerIds) db)
        (NewData source old given)) →
      (p >>= q).Always (ServedWith service.sourceId (item.externalId :: item.containerIds) db)
        (NewData source old given) :=
    fun hp hq => .bind_stays hserved hp hp.ensures hq
  refine hstep (service.serves_matchMedia _ _ db) fun matched => ?_
  refine hstep (service.serves_ensureHierarchy item.toMediaFields matched
    (fun id hid => List.mem_cons_of_mem _ hid) db) fun parent => ?_
  refine hstep (service.serves_syncShowMetadata item parent db) fun _ => ?_
  refine hstep (service.stays_storeMedia item.toMediaFields matched parent List.mem_cons_self rfl)
    fun persisted => ?_
  refine hstep (service.serves_persistDetails item.toMediaFields persisted db) fun _ => ?_
  have hplayback := @isolating_persistPlayback service source old db given db.webhookEvents
    item.toMediaFields observedAt persisted hevents
  exact hplayback.mono (fun db' hw => ⟨hserved db' hw, hw.webhooks⟩) fun _ h => h.1

end MediaPersistenceService

/-! ### Calls -/

/-- A call that writes what a server says, or the arrival of webhooks. -/
inductive PersistCall
  | persistMedia (service : MediaPersistenceService) (cache : List CacheKey)
    (item : ExternalMediaItem) (observedAt : Time)
  | persistEvent (service : MediaPersistenceService) (cache : List CacheKey)
    (event : ExternalWatchEvent) (origin : EventOrigin)
  | webhooks (received : Table WebhookEvent.id)

namespace PersistCall

def apply (db : Database) : PersistCall → Database
  | persistMedia service cache item observedAt =>
    (service.persistMedia item observedAt).commit cache db
  | persistEvent service cache event origin => (service.persistEvent event origin).commit cache db
  | webhooks received => { db with webhookEvents := received }

/-- The databases that the call goes through. -/
def stores (db : Database) : PersistCall → List Database
  | persistMedia service cache item observedAt =>
    (service.persistMedia item observedAt).stores ⟨db, cache⟩
  | persistEvent service cache event origin =>
    (service.persistEvent event origin).stores ⟨db, cache⟩
  | webhooks _ => [db]

/-- The ids under which the call looks for references of the source. -/
def ids (source : Nat) : PersistCall → List String
  | persistMedia service _ item _ =>
    if service.sourceId = source then item.externalId :: item.containerIds else []
  | persistEvent service _ event _ =>
    if service.sourceId = source then [event.mediaExternalId] else []
  | webhooks _ => []

/-- The completed events of the source that the call hands to `persist_event`. -/
def events (source : Nat) (db : Database) :
    PersistCall → List (MediaPersistenceService × ExternalWatchEvent)
  | persistMedia service _ item _ =>
    if service.sourceId =
      source then (service.handledEvents item.toMediaFields db).map (service, ·) else []
  | persistEvent service _ event _ =>
    if service.sourceId = source ∧ event.completed = true then [(service, event)] else []
  | webhooks _ => []

/-- No id of the call is that of a reference of the old server, and no event is known as an event of
it. -/
structure Unreused (source : Nat) (old db : Database) (call : PersistCall) : Prop where
  ids : ∀ id ∈ call.ids source, ∀ r ∈ old.sourceMediaRefs.rows, r.sourceId = source →
    r.externalId ≠ id
  events : ∀ x ∈ call.events source db, ∀ e ∈ old.watchEvents.rows, e.sourceId = source →
    ¬ x.1.Reuses x.2 e

instance (source : Nat) (old db : Database) (call : PersistCall) :
    Decidable (call.Unreused source old db) :=
  decidable_of_iff (_ ∧ _) ⟨fun h => ⟨h.1, h.2⟩, fun h => ⟨h.1, h.2⟩⟩

/-- In this database the call finds no row of the old server, and the rows of the old server are
what they were. -/
structure Isolated (source : Nat) (old start : Database) (call : PersistCall)
    (db : Database) : Prop where
  references : ∀ r ∈ old.sourceMediaRefs.rows, r.sourceId = source → r ∈ db.sourceMediaRefs.rows
  events : ∀ e ∈ old.watchEvents.rows, e.sourceId = source → e ∈ db.watchEvents.rows
  foundReference : ∀ id ∈ call.ids source, ∀ r, db.byExternalIdentity source id = some r →
    ∀ r₀ ∈ old.sourceMediaRefs.rows, r₀.sourceId = source → r₀.id ≠ r.id
  foundEvent : ∀ x ∈ call.events source start, ∀ e,
    x.1.knownEvent db x.2 = some e ∨ db.byDedupKey source (x.1.eventDedupKey x.2) = some e →
      ∀ e₀ ∈ old.watchEvents.rows, e₀.sourceId = source → e₀.id ≠ e.id

variable {source : Nat} {old db : Database} {given : List String} {call : PersistCall}

/-- Every database of a call has the new data only. -/
theorem newData_stores (h : NewData source old given db) (hcall : call.Unreused source old db) :
    ∀ db' ∈ call.stores db, NewData source old (given ++ call.ids source) db' := by
  have hmono : NewData source old (given ++ call.ids source) db :=
    h.mono fun id hid => List.mem_append_left _ hid
  obtain ⟨hids, hevents⟩ := hcall
  cases call with
  | persistMedia service cache item observedAt =>
    refine service.always_persistMedia item observedAt hmono (fun hsource id hid => ?_)
      (fun event hevent hsource => ?_) ⟨db, cache⟩ rfl
    · dsimp only [ids] at hids ⊢
      rw [if_pos hsource] at hids ⊢
      exact ⟨List.mem_append_right _ hid, hids id hid⟩
    · dsimp only [ids, events] at hids hevents ⊢
      rw [if_pos hsource] at hids hevents ⊢
      refine ⟨List.mem_append_right _ ?_, hevents (service, event) (List.mem_map_of_mem hevent)⟩
      rw [MediaPersistenceService.mediaExternalId_handledEvents hevent]
      exact List.mem_cons_self
  | persistEvent service cache event origin =>
    have hstays : Stays (MediaPersistenceService.Isolating source old
        (given ++ PersistCall.ids source (.persistEvent service cache event origin))
        db.webhookEvents) (service.persistEvent event origin) := by
      refine service.isolating_persistEvent event origin fun hc hsource => ?_
      dsimp only [ids, events] at hids hevents ⊢
      rw [if_pos hsource] at hids ⊢
      rw [if_pos ⟨hsource, hc⟩] at hevents
      exact ⟨List.mem_append_right _ List.mem_cons_self,
        hevents (service, event) List.mem_cons_self⟩
    exact fun db' hdb' => (hstays ⟨db, cache⟩ ⟨hmono, rfl⟩ db' hdb').1
  | webhooks received =>
    intro db' hdb'
    rw [List.mem_singleton.1 hdb']
    exact hmono

/-- The database after a call is one that it goes through, or the one before. -/
theorem commit_mem_stores {α : Type} (p : Persist α) (cache : List CacheKey) (db : Database) :
    p.commit cache db = db ∨ p.commit cache db ∈ p.stores ⟨db, cache⟩ := by
  have hmem := p.mem_stores_run ⟨db, cache⟩
  unfold Persist.commit
  split
  next result s hrun =>
    rw [hrun] at hmem
    exact .inr hmem
  next => exact .inl rfl

theorem newData_apply (h : NewData source old given db) (hcall : call.Unreused source old db) :
    NewData source old (given ++ call.ids source) (call.apply db) := by
  have hmono : NewData source old (given ++ call.ids source) db :=
    h.mono fun id hid => List.mem_append_left _ hid
  have hstores := newData_stores h hcall
  cases call with
  | persistMedia service cache item observedAt =>
    rcases commit_mem_stores (service.persistMedia item observedAt) cache db with heq | hmem
    · dsimp only [apply]
      rw [heq]
      exact hmono
    · exact hstores _ hmem
  | persistEvent service cache event origin =>
    rcases commit_mem_stores (service.persistEvent event origin) cache db with heq | hmem
    · dsimp only [apply]
      rw [heq]
      exact hmono
    · exact hstores _ hmem
  | webhooks received => exact ⟨hmono.references, hmono.events, hmono.ids, hmono.tasks⟩

theorem newData_run {calls : List PersistCall} (h : NewData source old given db)
    (hcalls : Along apply (Unreused source old) db calls) :
    NewData source old (given ++ calls.flatMap (·.ids source)) (calls.foldl apply db) := by
  induction calls generalizing db given with
  | nil => rwa [List.flatMap_nil, List.append_nil]
  | cons call calls ih =>
    have hrest := ih (newData_apply h hcalls.1) hcalls.2
    rwa [List.append_assoc, ← List.flatMap_cons] at hrest

theorem isolated_of_newData {start : Database} (h : NewData source old given db)
    (hcall : call.Unreused source old start) :
    Isolated source old start call db where
  references := h.references
  events := h.events
  foundReference id hid r hr r₀ hr₀ hsource hsame := by
    obtain ⟨hrow, -, hrid⟩ := mem_of_byExternalIdentity hr
    have heq := db.sourceMediaRefs.eq_of_key_eq (h.references r₀ hr₀ hsource) hrow hsame
    exact hcall.ids id hid r₀ hr₀ hsource (by rw [heq, hrid])
  foundEvent x hx e he e₀ he₀ hsource hsame := by
    refine hcall.events x hx e₀ he₀ hsource ?_
    have hrow : e ∈ db.watchEvents.rows :=
      he.elim (fun he => (MediaPersistenceService.mem_of_knownEvent he).1)
      fun he => (MediaPersistenceService.mem_of_byDedupKey he).1
    rw [db.watchEvents.eq_of_key_eq (h.events e₀ he₀ hsource) hrow hsame]
    rcases he with he | he
    · obtain ⟨text, htext, -⟩ := Option.bind_eq_some_iff.1 he
      refine .inl ⟨?_, (MediaPersistenceService.mem_of_knownEvent he).2.2.symm⟩
      rw [htext]
      exact Option.some_ne_none _
    · exact .inr (MediaPersistenceService.mem_of_byDedupKey he).2.2.symm

end PersistCall

/-! ### What is sent to the server -/

namespace AsyncTaskExecutor
variable {executor : AsyncTaskExecutor} {inputs : ExecutionInputs} {origin : Source}
  {u : WatchUpdate} {db : Database}
  {position : Option Int} {state : Option WatchState} {call : RemoteCall}

theorem reference_callEach (rs : List SourceMediaRef) (s : Applying × Nat)
    (h : call ∈ (callEach inputs position state rs s).1.calls) :
    call ∈ s.1.calls ∨ call.reference ∈ rs := by
  induction rs generalizing s with
  | nil => exact .inl h
  | cons r rs ih =>
    obtain ⟨s, n⟩ := s
    have hlogged : call ∈ s.calls ++ [⟨r, position, state⟩] → call ∈ s.calls ∨
        call.reference ∈ r :: rs := by
      intro h
      rcases List.mem_append.1 h with h | h
      · exact .inl h
      · rw [List.mem_singleton.1 h]
        exact .inr List.mem_cons_self
    unfold callEach at h
    dsimp only at h
    split at h
    · rcases ih _ h with h | h
      exacts [hlogged h, .inr (List.mem_cons_of_mem _ h)]
    · rcases ih _ h with h | h
      exacts [hlogged h, .inr (List.mem_cons_of_mem _ h)]
    · exact hlogged h

theorem reference_visit {s : Applying} (group : Nat × List SourceMediaRef)
    (h : call ∈ (visit inputs origin u s group).calls) :
    call ∈ s.calls ∨ call.reference ∈ group.2 := by
  unfold visit at h
  split at h
  · exact .inl h
  · exact .inl h
  next target others _ hsorted =>
    have hcalls : call ∈
        (callEach inputs u.position (s.db.watchStates.get? (target.mediaItemId, target.sourceId))
        (target :: others) (s, 0)).1.calls → call ∈ s.calls ∨ call.reference ∈ group.2 := by
      intro h
      refine (reference_callEach _ _ h).imp_right fun hr => ?_
      rw [← hsorted] at hr
      exact List.mem_mergeSort.1 hr
    dsimp only at h
    split at h
    · exact .inl h
    split at h
    · exact .inl h
    split at h
    · exact hcalls h
    split at h
    · exact hcalls h
    · exact hcalls h

theorem reference_foldl (groups : List (Nat × List SourceMediaRef)) {s : Applying}
    (h : call ∈ (groups.foldl (visit inputs origin u) s).calls) :
    call ∈ s.calls ∨ ∃ group ∈ groups, call.reference ∈ group.2 := by
  induction groups generalizing s with
  | nil => exact .inl h
  | cons group groups ih =>
    rcases ih h with h | ⟨group', hgroup, hr⟩
    · exact (reference_visit group h).imp_right fun hr => ⟨group, List.mem_cons_self, hr⟩
    · exact .inr ⟨group', List.mem_cons_of_mem _ hgroup, hr⟩

/-- A call goes to another server than that of the update, under an id that is available there. -/
theorem reference_of_call (h : call ∈ (executor.applyWatchUpdate inputs u db).calls) :
    ∃ recovered, Recovered inputs u db recovered ∧ call.reference ∈ recovered.sourceMediaRefs.rows ∧
      call.reference.available = true ∧ call.reference.sourceId ≠ u.sourceId := by
  unfold applyWatchUpdate at h
  split at h
  · cases h
  split at h
  · cases h
  next origin horigin =>
    have hrecovered : Recovered inputs u db (executor.originReference inputs origin u db).1 :=
      recovered_originReference (Table.key_of_get? horigin)
    generalize executor.originReference inputs origin u db = found at hrecovered h
    obtain ⟨recovered, error | reference⟩ := found
    · cases h
    dsimp only at hrecovered h
    have hcall : call ∈ ((groupBy (·.sourceId)
        (recovered.otherReferences reference.mediaItemId origin.id true)).foldl
        (visit inputs origin u) { committed := recovered, db := recovered }).calls := by
      split at h
      next hnone =>
        split at h
        · cases h
        · cases h
      next =>
        split at h
        exacts [h, h]
    rcases reference_foldl _ hcall with hin | ⟨group, hgroup, hr⟩
    · cases hin
    obtain ⟨hrefs, -⟩ := mem_groupBy (l := group.2) (k := group.1) hgroup
    rw [hrefs] at hr
    obtain ⟨hrow, hsel⟩ := List.mem_filter.1 (List.mem_filter.1 hr).1
    simp only [Bool.and_eq_true, beq_iff_eq, bne_iff_ne] at hsel
    refine ⟨recovered, hrecovered, hrow, hsel.1.2, ?_⟩
    rw [← Table.key_of_get? horigin]
    exact hsel.1.1.2

end AsyncTaskExecutor

/-- The ids that are sent to the server of the source: by a propagation, by an instant update of
another server, and to ask for the item of an update that waits. -/
structure SendsGiven (source : Nat) (given : List String) (db : Database) : Prop where
  candidates : ∀ pair direction scope, ∀ c ∈ (db.prepareIn pair direction scope).candidates,
    c.targetSourceId = source →
    ∀ t ∈ c.targets, t.externalId ∈ given
  calls : ∀ (executor : AsyncTaskExecutor) inputs u,
    ∀ call ∈ (executor.applyWatchUpdate inputs u db).calls,
    call.reference.sourceId = source → call.reference.externalId ∈ given
  waiting : ∀ t ∈ db.asyncTasks.rows, ∀ u, (u = t.payload ∨ t.pendingPayload = some u) →
    u.sourceId = source → u.externalId ∈ given

namespace NewData
variable {source : Nat} {old db : Database} {given : List String}

/-- The references of the old server are not available. -/
theorem given_of_available (h : NewData source old given db)
    (hold : ∀ r ∈ old.sourceMediaRefs.rows, r.sourceId = source → r.available = false)
    {r : SourceMediaRef}
    (hr : r ∈ db.sourceMediaRefs.rows) (hsource : r.sourceId = source) (hav : r.available = true) :
    r.externalId ∈ given := by
  rcases h.ids r hr hsource with hr | hr
  · rw [hold r hr hsource] at hav
    cases hav
  · exact hr

theorem sendsGiven (h : NewData source old given db)
    (hold : ∀ r ∈ old.sourceMediaRefs.rows, r.sourceId = source → r.available = false) :
    SendsGiven source given db where
  candidates pair direction scope c hc hsource t ht := by
    obtain ⟨group, -, d, -, rfl⟩ := mem_candidates.1 hc
    obtain ⟨r, hr, rfl⟩ := mem_targets_candidate ht
    obtain ⟨hscanned, hsel⟩ := List.mem_filter.1 hr
    obtain ⟨hrow, hav⟩ := List.mem_filter.1 hscanned
    simp only [Bool.and_eq_true, beq_iff_eq] at hsel hav
    exact h.given_of_available hold hrow (hsel.1.trans hsource) hav.1.2
  calls executor inputs u call hcall hsource := by
    obtain ⟨recovered, hrecovered, hrow, hav, hother⟩ := AsyncTaskExecutor.reference_of_call hcall
    have hnew : NewData source old given recovered := by
      cases hrecovered with
      | there => exact h
      | cataloged service found probe library result session _ hservice _ hrun =>
        have hne : service.sourceId ≠ source :=
          fun heq => hother (hsource.trans (heq.symm.trans hservice))
        have hmem := (service.persistMedia (AsyncTaskExecutor.inLibrary found library)
          inputs.now).mem_stores_run ⟨db, []⟩
        rw [hrun] at hmem
        exact service.always_persistMedia _ _ h (fun heq => absurd heq hne)
          (fun event _ heq => absurd heq hne) ⟨db, []⟩ rfl _ hmem
    exact hnew.given_of_available hold hrow hsource hav
  waiting := h.tasks

end NewData

namespace ServerRows
variable {py : PyLib} {s after : ServerRows} {source : Nat} {serverIdentifier : Option String}
  {now flushedAt : Time}

/-- What the retirement leaves of the source. -/
theorem newData_replaced (hs : s.Proper py)
    (hreplaced : s.applyServerIdentity py source serverIdentifier now flushedAt =
      some (after, true)) :
    NewData source after.db [] after.db ∧
    (∀ r ∈ after.db.sourceMediaRefs.rows, r.sourceId = source → r.available = false) ∧
      after.db.watchEvents = s.db.watchEvents := by
  obtain ⟨after', changed, hcall, hid⟩ :=
    @applyServerIdentity_eq py s source serverIdentifier now flushedAt hs.toUniqueIds
  rw [hreplaced, Option.some_inj, Prod.mk.injEq] at hcall
  obtain ⟨rfl, rfl⟩ := hcall
  refine ⟨⟨fun _ h _ => h, fun _ h _ => h, fun _ h _ => .inl h, fun t ht u hu hsource => ?_⟩,
    fun r hr hsource => ?_, ?_⟩
  · obtain ⟨hpayload, hpending⟩ := (hid.retired hs rfl).tasks t ht
    rcases hu with rfl | hu
    exacts [absurd hsource hpayload, absurd hsource (hpending u hu)]
  · cases hid with
    | replaced =>
      obtain ⟨r₀, -, -, hrs, -, hown⟩ := mem_references_retire hr
      exact (hown (hrs.symm.trans hsource)).2.1
  · cases hid with
    | replaced => exact retireReferences_frame s.db .watchEvents (by decide)

end ServerRows

/-- A server is replaced, and then calls with what servers say come in any order and number. In
every database that a call goes through, the rows of the old server are what they were, and no
lookup of the call finds one of them; no event of the old server is changed, and whatever is sent to
the new server has an id that it gave: if no id of a call is that of a retired reference, and no
event that it hands on has the id or the digest of an event of the old server. -/
theorem new_server_isolated {py : PyLib} {s after : ServerRows} (hs : s.Proper py) {source : Nat}
    {serverIdentifier : Option String}
    {now flushedAt : Time} (hreplaced :
      s.applyServerIdentity py source serverIdentifier now flushedAt = some (after, true))
    (calls : List PersistCall)
    (hcalls : Along PersistCall.apply (PersistCall.Unreused source after.db) after.db calls) :
    ∀ pre, pre <+: calls →
      (∀ call, pre ++ [call] <+: calls → ∀ db ∈ call.stores (pre.foldl PersistCall.apply after.db),
        call.Isolated source after.db (pre.foldl PersistCall.apply after.db) db) ∧
      (∀ e ∈ s.db.watchEvents.rows, e.sourceId = source →
        e ∈ (pre.foldl PersistCall.apply after.db).watchEvents.rows) ∧
      SendsGiven source (pre.flatMap (·.ids source)) (pre.foldl PersistCall.apply after.db) := by
  obtain ⟨hstart, hold, hevents⟩ := ServerRows.newData_replaced hs hreplaced
  intro pre hpre
  have halong : Along PersistCall.apply (PersistCall.Unreused source after.db) after.db pre := by
    obtain ⟨rest, rfl⟩ := hpre
    exact (Along.append.1 hcalls).1
  have hnew := PersistCall.newData_run hstart halong
  rw [List.nil_append] at hnew
  refine ⟨fun call hcall db hdb => ?_, fun e he hsource => hnew.events e (hevents ▸ he) hsource,
    hnew.sendsGiven hold⟩
  have hunreused := Along.iff_forall_prefix.1 hcalls pre call hcall
  exact PersistCall.isolated_of_newData (PersistCall.newData_stores hnew hunreused db hdb) hunreused

section Example

open MediaPersistenceService

/-- A movie with its identifiers, and a play of it that the first server has recorded. -/
def firstServer : ServerRows where
  db := { Database.empty with
    mediaItems := Table.empty.insert { id := 1, kind := .movie, title := "A" }
    mediaIdentifiers := Table.empty.insert ⟨1, 1, "imdb", "tt1", 0⟩
    sourceMediaRefs := Table.empty.insert ⟨1, 1, 1, 1, "500", none, none, 0, true, none, none, 0⟩
    watchEvents := Table.empty.insert ((plainService 1).newEvent 1 1 { playedAt "9" 0 with
      mediaExternalId := "500" } .synchronization) }
  serverIdentifier source := if source = 1 then some "first" else none
  checkpoints := .empty

def secondServer : ServerRows := firstServer.retire .plain 1 "second" 10 10

/-- The same movie on the second server. -/
def sameMovie : ExternalMediaItem where
  externalId := "7"
  libraryExternalId := "1"
  kind := .movie
  title := "A"
  identifiers := [⟨"imdb", "tt1"⟩]
  complete := by simp [MediaFields.Complete]

/-- It is listed, and then played under this history id. -/
def playedOnSecond (id : String) : List PersistCall :=
  [.persistMedia (plainService 1) [] sameMovie 20,
    .persistEvent (plainService 1) [] { playedAt id (Time.minutes 10) with
      mediaExternalId := "7" } .synchronization]

theorem proper_firstServer : firstServer.Proper .plain := by
  have hrefs : firstServer.db.sourceMediaRefs.rows =
      [⟨1, 1, 1, 1, "500", none, none, 0, true, none, none, 0⟩] := rfl
  refine ⟨⟨fun r hr r' hr' _ _ => ?_, fun l hl => ?_⟩, fun r hr => ?_, fun l hl => ?_,
    fun t ht => ?_⟩
  · rw [hrefs, List.mem_singleton] at hr hr'
    rw [hr, hr']
  · cases hl
  · rw [hrefs, List.mem_singleton] at hr
    rw [hr]
    exact .inl (by decide)
  · cases hl
  · cases ht

theorem replaced_firstServer :
    firstServer.applyServerIdentity .plain 1 (some "second") 10 10 = some (secondServer, true) := by
  have hstrip : PyLib.plain.strip "second" = "second" := by decide +kernel
  have hids : (firstServer.retire .plain 1 "second" 10 10).db.UniqueIds := by decide +kernel
  unfold ServerRows.applyServerIdentity
  dsimp only [Option.getD_some]
  rw [hstrip, if_neg (by decide), if_neg (by decide), if_pos hids]
  rfl

theorem new_server_isolated_movie :
    Along PersistCall.apply (PersistCall.Unreused 1 secondServer.db) secondServer.db
      (playedOnSecond "10") ∧
      ∀ pre, pre <+: playedOnSecond "10" →
        (∀ call, pre ++ [call] <+: playedOnSecond "10" →
          ∀ db ∈ call.stores (pre.foldl PersistCall.apply secondServer.db),
          call.Isolated 1 secondServer.db (pre.foldl PersistCall.apply secondServer.db) db) ∧
        (∀ e ∈ firstServer.db.watchEvents.rows, e.sourceId = 1 →
          e ∈ (pre.foldl PersistCall.apply secondServer.db).watchEvents.rows) ∧
        SendsGiven 1 (pre.flatMap (·.ids 1)) (pre.foldl PersistCall.apply secondServer.db) := by
  have hcalls : Along PersistCall.apply (PersistCall.Unreused 1 secondServer.db) secondServer.db
      (playedOnSecond "10") := by
    decide +kernel
  exact ⟨hcalls, new_server_isolated proper_firstServer replaced_firstServer _ hcalls⟩

/-- The second server uses the history id of the first one again, for a play of the same movie: no
id of an item is that of a retired reference, but the event of the first server is overwritten. -/
theorem old_event_overwritten : firstServer.Proper .plain ∧
    firstServer.applyServerIdentity .plain 1 (some "second") 10 10 = some (secondServer, true) ∧
    (∀ call ∈ playedOnSecond "9", ∀ id ∈ call.ids 1, ServerId id) ∧
    ∃ e ∈ firstServer.db.watchEvents.rows, e.sourceId = 1 ∧
      e ∉ ((playedOnSecond "9").foldl PersistCall.apply secondServer.db).watchEvents.rows := by
  refine ⟨proper_firstServer, replaced_firstServer, by decide +kernel, ?_⟩
  decide +kernel

end Example

end Euvieouvi
