import Euvieouvi.Lib.Runs
import Euvieouvi.Persist.References
import Euvieouvi.WatchSync.Record
import Euvieouvi.Webhooks.Activity

/-!
# Completions of items that are not cataloged yet

What `persist_media` makes of the stored completions of its item (`_reconcile_webhook_events`).
Handling an event leaves a completed event of the item near its time (`persistEvent_near`), and a
completed state of the item on the source unless the event was known or another one is near
(`Fresh`). A completion that the activity view retains until its item is cataloged is therefore not
lost (`completion_kept`).
-/

namespace Euvieouvi

open Database

/-- The item has a completed state on the source. -/
abbrev Database.PlayedOn (db : Database) (i source : Nat) : Prop := db.HasState (i, source) True

namespace MediaPersistenceService
variable {service : MediaPersistenceService} {db db' : Database} {event : ExternalWatchEvent}
  {origin : EventOrigin}
  {r : SourceMediaRef} {i j source : Nat} {t : Time}

theorem hasNearby_iff : hasNearby db i t = true ↔ ∃ e ∈ db.watchEvents.rows, e.mediaItemId = i ∧
    e.completed = true ∧
    t - Time.minutes 2 ≤ e.watchedAt ∧ e.watchedAt ≤ t + Time.minutes 2 := by
  simp [hasNearby, and_assoc]

theorem minutes_two_nonneg : (0 : Time) ≤ Time.minutes 2 := by decide

theorem hasNearby_self {e : WatchEvent} (he : e ∈ db.watchEvents.rows) (hi : e.mediaItemId = i)
    (hc : e.completed = true) :
    hasNearby db i e.watchedAt = true :=
  hasNearby_iff.2 ⟨e, he, hi, hc, Int.sub_le_self _ minutes_two_nonneg,
    Int.le_add_of_nonneg_right minutes_two_nonneg⟩

theorem playedOn_saveState {new : WatchState} {f : Assignment WatchState.key}
    (hnew : new.mediaItemId = i ∧ new.sourceId = service.sourceId)
    (hf : ∀ s, (f s).completed = true) :
    (service.saveState i new f db).PlayedOn i service.sourceId := by
  unfold saveState
  split
  next s hs =>
    exact hasState_saveWatchState (p := False) ⟨s, hs, False.elim⟩ (fun _ s _ _ => hf s) fun hne =>
      absurd rfl hne
  next hs =>
    have hkey : (f new).key = (i, service.sourceId) :=
      (f.key_apply new).trans (Prod.ext hnew.1 hnew.2)
    have hfree : db.watchStates.get? (f new).key = none := by rw [hkey]; exact hs
    have h := hasState_insertWatchState hfree
    rw [hkey] at h
    exact h.mono fun _ => hf new

theorem PlayedOn.saveState {new : WatchState} {f : Assignment WatchState.key}
    (h : db.PlayedOn j source)
    (hnew : new.mediaItemId = i ∧ new.sourceId = service.sourceId)
    (hf : ∀ s, s.completed = true → (f s).completed = true) :
    (service.saveState i new f db).PlayedOn j source := by
  unfold MediaPersistenceService.saveState
  split
  next => exact hasState_saveWatchState h (fun _ s hp hq => hf s (hp hq)) fun _ hq => hq
  next hs =>
    obtain ⟨s, hget, hs'⟩ := h
    have hkey : (f new).key = (i, service.sourceId) :=
      (f.key_apply new).trans (Prod.ext hnew.1 hnew.2)
    refine ⟨s, ?_, hs'⟩
    rw [watchStates_insertWatchState, Table.get?_insert_ne, hget]
    rw [hkey]
    intro heq
    unfold byItemAndSource at hs
    rw [heq, hget] at hs
    cases hs

theorem playedOn_of_states (h : db.PlayedOn i source) (heq : db'.watchStates = db.watchStates) :
    db'.PlayedOn i source := by
  unfold Database.PlayedOn HasState
  rw [heq]; exact h

/-- A new event makes the state of its item completed. -/
theorem playedOn_recordEvent :
    (service.recordEvent i event origin db).PlayedOn i service.sourceId := by
  unfold recordEvent
  dsimp only
  have happlied : (service.applyEventToWatchState i event
      (db.insertWatchEvent (service.newEvent db.watchEvents.nextId i event origin))).PlayedOn i
        service.sourceId :=
    playedOn_saveState ⟨rfl, rfl⟩ fun _ => rfl
  split
  · exact playedOn_of_states happlied rfl
  · exact happlied

theorem watchEvents_recordEvent : (service.recordEvent i event origin db).watchEvents =
    db.watchEvents.insert (service.newEvent db.watchEvents.nextId i event origin) := by
  have happlied : (service.applyEventToWatchState i event
      (db.insertWatchEvent (service.newEvent db.watchEvents.nextId i event origin))).watchEvents =
        db.watchEvents.insert (service.newEvent db.watchEvents.nextId i event origin) :=
    (service.saveState_frame _ _ _ _ .watchEvents (by decide)).trans
      (watchEvents_insertWatchEvent _)
  unfold recordEvent
  dsimp only
  split
  · exact happlied
  · exact happlied

theorem mem_recordEvent {e : WatchEvent} :
    e ∈ (service.recordEvent i event origin db).watchEvents.rows ↔
    e ∈ db.watchEvents.rows ∨ e = service.newEvent db.watchEvents.nextId i event origin := by
  have hfree : db.watchEvents.get? (service.newEvent db.watchEvents.nextId i event origin).id =
      none := Table.get?_nextId _
  rw [watchEvents_recordEvent, Table.rows_insert_of_get?_none hfree, List.mem_append,
    List.mem_singleton]

/-! ### One event -/

variable {item : MediaFields} {events : List ExternalWatchEvent} {existing e : WatchEvent}

theorem mem_of_knownEvent (h : service.knownEvent db event = some existing) :
    existing ∈ db.watchEvents.rows ∧ existing.sourceId = service.sourceId ∧
    existing.sourceEventId = event.sourceEventId := by
  obtain ⟨text, htext, hfind⟩ := Option.bind_eq_some_iff.1 h
  have hp := List.find?_some hfind
  simp only [Bool.and_eq_true, beq_iff_eq] at hp
  exact ⟨List.mem_of_find?_eq_some hfind, hp.1, hp.2.trans htext.symm⟩

theorem knownEvent_eq_none (hid : event.sourceEventId ≠ none) : service.knownEvent db event = none ↔
    ∀ e ∈ db.watchEvents.rows, e.sourceId = service.sourceId →
    e.sourceEventId ≠ event.sourceEventId := by
  obtain ⟨text, htext⟩ := Option.ne_none_iff_exists'.1 hid
  simp [knownEvent, htext, bySourceEventId]

theorem mem_of_byDedupKey {key : String} (h : db.byDedupKey source key = some e) :
    e ∈ db.watchEvents.rows ∧ e.sourceId = source ∧ e.dedupKey = key := by
  have hp := List.find?_some h
  simp only [Bool.and_eq_true, beq_iff_eq] at hp
  exact ⟨List.mem_of_find?_eq_some h, hp⟩

/-- The events that a call handles: they are of one item, and their ids and digests tell them
apart. -/
structure Handled (service : MediaPersistenceService) (item : MediaFields)
    (events : List ExternalWatchEvent) : Prop where
  completed : ∀ event ∈ events, event.completed = true
  media : ∀ event ∈ events, event.mediaExternalId = item.externalId
  identified : ∀ event ∈ events, event.sourceEventId ≠ none
  ids : ∀ event ∈ events, ∀ event' ∈ events, event.sourceEventId = event'.sourceEventId →
    event = event'
  digests : ∀ event ∈ events, ∀ event' ∈ events,
    service.eventDedupKey event = service.eventDedupKey event' → event = event'

/-- What the source knows of these events: by the id of one of them only an event at its time, and
by its digest only one of that id. -/
structure OwnEvents (service : MediaPersistenceService) (events : List ExternalWatchEvent)
    (db : Database) : Prop where
  times : ∀ e ∈ db.watchEvents.rows, e.sourceId = service.sourceId → ∀ event ∈ events,
    e.sourceEventId = event.sourceEventId → e.watchedAt = event.watchedAt ∧ e.completed = true
  digests : ∀ e ∈ db.watchEvents.rows, e.sourceId = service.sourceId → ∀ event ∈ events,
    e.dedupKey = service.eventDedupKey event → e.sourceEventId = event.sourceEventId

/-- Nothing is known of the event, and no other one of the item is near. -/
def Fresh (service : MediaPersistenceService) (i : Nat) (event : ExternalWatchEvent)
    (db : Database) : Prop :=
  service.knownEvent db event = none ∧ hasNearby db i event.watchedAt = false

instance (service : MediaPersistenceService) (i : Nat) (event : ExternalWatchEvent)
    (db : Database) :
    Decidable (Fresh service i event db) := inferInstanceAs (Decidable (_ ∧ _))

/-- What handling these events for the item `i` keeps. -/
structure Grown (service : MediaPersistenceService) (i : Nat) (events : List ExternalWatchEvent)
    (db db' : Database) : Prop where
  references : db'.sourceMediaRefs = db.sourceMediaRefs
  near : ∀ t, hasNearby db i t = true → hasNearby db' i t = true
  played : db.PlayedOn i service.sourceId → db'.PlayedOn i service.sourceId
  fresh : ∀ event ∈ events, Fresh service i event db → Fresh service i event db' ∨
    db'.PlayedOn i service.sourceId

theorem Grown.refl (db : Database) : Grown service i events db db :=
  ⟨rfl, fun _ h => h, id, fun _ _ h => .inl h⟩

theorem Grown.trans {db'' : Database} (h : Grown service i events db db')
    (h' : Grown service i events db' db'') :
    Grown service i events db db'' := by
  refine ⟨h'.references.trans h.references, fun t ht => h'.near t (h.near t ht), fun hp =>
    h'.played (h.played hp),
    fun event hev hf => ?_⟩
  rcases h.fresh event hev hf with hf | hp
  · exact h'.fresh event hev hf
  · exact .inr (h'.played hp)

/-- Two events that differ in nothing that recognizes them. -/
structure SameEvent (e e' : WatchEvent) : Prop where
  mediaItemId : e'.mediaItemId = e.mediaItemId
  sourceId : e'.sourceId = e.sourceId
  sourceEventId : e'.sourceEventId = e.sourceEventId
  watchedAt : e'.watchedAt = e.watchedAt
  completed : e'.completed = e.completed

/-- A known event is refreshed to what it says already, apart from its digest. -/
theorem sameEvent_refresh (htime : e.watchedAt = event.watchedAt)
    (hcompleted : e.completed = event.completed) :
    SameEvent e (service.refreshEvent event origin e) := by
  refine ⟨rfl, rfl, rfl, ?_, hcompleted.symm⟩
  unfold refreshEvent
  dsimp only
  split
  · rfl
  · exact htime.symm

section Refresh
variable (service origin) (hexisting : existing ∈ db.watchEvents.rows)
  (htime : existing.watchedAt = event.watchedAt)
  (hcompleted : existing.completed = event.completed)
include hexisting htime hcompleted

/-- The rows after the refresh, each with the row it was. -/
theorem rows_refresh : ∀ e' ∈ (service.refreshStored event origin existing.id db).watchEvents.rows,
    ∃ e ∈ db.watchEvents.rows, SameEvent e e' ∧
      (e'.dedupKey = e.dedupKey ∨ e = existing ∧ e'.dedupKey = service.eventDedupKey event) := by
  intro e' he'
  unfold refreshStored saveWatchEvent at he'
  rw [watchEvents_updateWatchEvents, Table.mem_update] at he'
  obtain ⟨e, he, rfl⟩ := he'
  refine ⟨e, he, ?_⟩
  split
  next hp =>
    simp only [Bool.and_eq_true, beq_iff_eq] at hp
    obtain rfl := db.watchEvents.eq_of_key_eq he hexisting hp.1
    have hsame : SameEvent e (service.refreshEvent event origin e) :=
      sameEvent_refresh htime hcompleted
    exact ⟨⟨hsame.mediaItemId, hsame.sourceId, hsame.sourceEventId, hsame.watchedAt,
      hsame.completed⟩, .inr ⟨rfl, rfl⟩⟩
  next => exact ⟨⟨rfl, rfl, rfl, rfl, rfl⟩, .inl rfl⟩

theorem rows_before_refresh : ∀ e ∈ db.watchEvents.rows,
    ∃ e' ∈ (service.refreshStored event origin existing.id db).watchEvents.rows,
    SameEvent e e' := by
  intro e he
  unfold refreshStored saveWatchEvent
  rw [watchEvents_updateWatchEvents]
  refine ⟨_, Table.mem_update.2 ⟨e, he, rfl⟩, ?_⟩
  split
  next hp =>
    simp only [Bool.and_eq_true, beq_iff_eq] at hp
    obtain rfl := db.watchEvents.eq_of_key_eq he hexisting hp.1
    have hsame : SameEvent e (service.refreshEvent event origin e) :=
      sameEvent_refresh htime hcompleted
    exact ⟨hsame.mediaItemId, hsame.sourceId, hsame.sourceEventId, hsame.watchedAt, hsame.completed⟩
  next => exact ⟨rfl, rfl, rfl, rfl, rfl⟩

theorem hasNearby_refresh (j : Nat) (t : Time) :
    hasNearby (service.refreshStored event origin existing.id db) j t = hasNearby db j t := by
  rw [Bool.eq_iff_iff, hasNearby_iff, hasNearby_iff]
  constructor
  · rintro ⟨e', he', hi, hc, hlow, hhigh⟩
    obtain ⟨e, he, hsame, -⟩ := rows_refresh service origin hexisting htime hcompleted e' he'
    rw [hsame.watchedAt] at hlow hhigh
    exact ⟨e, he, hsame.mediaItemId ▸ hi, hsame.completed ▸ hc, hlow, hhigh⟩
  · rintro ⟨e, he, hi, hc, hlow, hhigh⟩
    obtain ⟨e', he', hsame⟩ := rows_before_refresh service origin hexisting htime hcompleted e he
    rw [← hsame.watchedAt] at hlow hhigh
    exact ⟨e', he', hsame.mediaItemId.trans hi, hsame.completed.trans hc, hlow, hhigh⟩

end Refresh

/-- What one event leaves: a near event of the item, and its completed state if it was fresh. -/
abbrev Reconciled (service : MediaPersistenceService) (i : Nat) (events : List ExternalWatchEvent)
    (event : ExternalWatchEvent) (db db' : Database) : Prop :=
  Grown service i events db db' ∧ OwnEvents service events db' ∧
    hasNearby db' i event.watchedAt = true ∧
    (Fresh service i event db → db'.PlayedOn i service.sourceId)

theorem reconciled_refresh (hev : Handled service item events) (hown : OwnEvents service events db)
    (hevent : event ∈ events)
    (hknown : service.knownEvent db event = some existing) (hitem : existing.mediaItemId = i) :
    Reconciled service i events event db
      (service.refreshStored event origin existing.id db) := by
  obtain ⟨hexisting, hsource, hid⟩ := mem_of_knownEvent hknown
  obtain ⟨htime, hdone⟩ := hown.times existing hexisting hsource event hevent hid
  have hcompleted : existing.completed = event.completed :=
    hdone.trans (hev.completed event hevent).symm
  have hrows := rows_refresh service origin hexisting htime hcompleted
  have hnear := hasNearby_refresh service origin hexisting htime hcompleted
  refine ⟨⟨updateWatchEvents_frame _ _ .sourceMediaRefs (by decide), fun t ht => by
    rw [hnear]; exact ht,
    fun hp => playedOn_of_states hp (updateWatchEvents_frame _ _ .watchStates (by decide)),
      fun event' hevent' hf => ?_⟩,
    ⟨?_, ?_⟩, ?_, fun hf => ?_⟩
  · refine .inl ⟨?_, by rw [hnear]; exact hf.2⟩
    have hnone := (knownEvent_eq_none (hev.identified event' hevent')).1 hf.1
    refine (knownEvent_eq_none (hev.identified event' hevent')).2 fun e' he' hsource' => ?_
    obtain ⟨e, he, hsame, -⟩ := hrows e' he'
    rw [hsame.sourceEventId]
    exact hnone e he (hsame.sourceId ▸ hsource')
  · intro e' he' hsource' event' hevent' hid'
    obtain ⟨e, he, hsame, -⟩ := hrows e' he'
    obtain ⟨ht, hc⟩ :=
      hown.times e he (hsame.sourceId ▸ hsource') event' hevent' (hsame.sourceEventId ▸ hid')
    exact ⟨hsame.watchedAt.trans ht, hsame.completed.trans hc⟩
  · intro e' he' hsource' event' hevent' hkey
    obtain ⟨e, he, hsame, hdedup⟩ := hrows e' he'
    rw [hsame.sourceEventId]
    rcases hdedup with hdedup | ⟨rfl, hdedup⟩
    · exact hown.digests e he (hsame.sourceId ▸ hsource') event' hevent' (hdedup ▸ hkey)
    · rw [← hev.digests event hevent event' hevent' (hdedup.symm.trans hkey)]
      exact hid
  · rw [hnear, ← htime]
    exact hasNearby_self hexisting hitem hdone
  · rw [hf.1] at hknown
    cases hknown

theorem reconciled_record (hev : Handled service item events) (hown : OwnEvents service events db)
    (hevent : event ∈ events) :
    Reconciled service i events event db (service.recordEvent i event origin db) := by
  have hplayed : (service.recordEvent i event origin db).PlayedOn i service.sourceId :=
    playedOn_recordEvent
  have hnew : service.newEvent db.watchEvents.nextId i event origin ∈
      (service.recordEvent i event origin db).watchEvents.rows :=
    mem_recordEvent.2 (.inr rfl)
  refine ⟨⟨service.recordEvent_frame _ _ _ _ .sourceMediaRefs (by decide), fun t ht => ?_,
    fun _ => hplayed,
    fun _ _ _ => .inr hplayed⟩, ⟨?_, ?_⟩, hasNearby_self hnew rfl (hev.completed event hevent),
      fun _ => hplayed⟩
  · obtain ⟨e, he, hnear⟩ := hasNearby_iff.1 ht
    exact hasNearby_iff.2 ⟨e, mem_recordEvent.2 (.inl he), hnear⟩
  · intro e he hsource event' hevent' hid
    rcases mem_recordEvent.1 he with he | rfl
    · exact hown.times e he hsource event' hevent' hid
    · obtain rfl := hev.ids event hevent event' hevent' hid
      exact ⟨rfl, hev.completed event hevent⟩
  · intro e he hsource event' hevent' hkey
    rcases mem_recordEvent.1 he with he | rfl
    · exact hown.digests e he hsource event' hevent' hkey
    · obtain rfl := hev.digests event hevent event' hevent' hkey
      rfl

/-- `persist_event` on one of the events. -/
theorem persistEvent_near (hev : Handled service item events) (hown : OwnEvents service events db)
    (hevent : event ∈ events)
    (hr : db.byExternalIdentity service.sourceId item.externalId = some r)
    (hi : r.mediaItemId = i) :
    (service.persistEvent event origin).Ensures (· = db) fun _ db' =>
      Reconciled service i events event db db' := by
  refine .ite (fun hc => ?_) fun _ => .read_bind ?_
  · rw [hev.completed event hevent] at hc
    cases hc
  rintro db rfl
  rw [hev.media event hevent, hr]
  refine .read_bind ?_
  rintro db rfl
  split
  next existing hknown =>
    refine .ite (fun _ => .fail _) fun hsame => .read_bind ?_
    rintro db rfl
    refine .ite (fun _ => .fail _) fun _ => ?_
    refine .bind (M := fun _ db' => Reconciled service i events event db db') (.write ?_) fun _ =>
      .pure fun _ h => h
    rintro _ rfl
    exact reconciled_refresh hev hown hevent hknown ((not_not.1 hsame).trans hi)
  next hknown =>
    have hunknown := (knownEvent_eq_none (hev.identified event hevent)).1 hknown
    refine .read_bind ?_
    rintro db rfl
    refine .ite (fun hskip => .pure ?_) fun _ => ?_
    · rintro db rfl
      have hnear : hasNearby db i event.watchedAt = true := by
        rcases Bool.or_eq_true_iff.1 hskip with hdedup | hnear
        · obtain ⟨e, he⟩ := Option.isSome_iff_exists.1 hdedup
          obtain ⟨hmem, hsource, hkey⟩ := mem_of_byDedupKey he
          exact absurd (hown.digests e hmem hsource event hevent hkey) (hunknown e hmem hsource)
        · rw [← hi]; exact hnear
      exact ⟨.refl db, hown, hnear, fun hf => by rw [hf.2] at hnear; cases hnear⟩
    · refine .bind (M := fun _ db' => Reconciled service i events event db db') (.write ?_) fun _ =>
        .pure fun _ h => h
      rintro _ rfl
      rw [hi]
      exact reconciled_record hev hown hevent

/-- The completions of the item that are stored. -/
def pendingCompletions (service : MediaPersistenceService) (item : MediaFields) (db : Database) :
    List ExternalWatchEvent :=
  (db.webhookEvents.rows.filter fun w => w.sourceId == service.sourceId &&
    w.externalId == item.externalId && w.completed).map
    (webhookEvent item)

/-- The events that `persist_media` handles. -/
def handledEvents (service : MediaPersistenceService) (item : MediaFields) (db : Database) :
    List ExternalWatchEvent :=
  service.pendingCompletions item db ++ (service.stateEvent item).toList

theorem reconcileEach_near {ws : List WebhookEvent} (hev : Handled service item events)
    (hsub : ∀ w ∈ ws, webhookEvent item w ∈ events) (hown : OwnEvents service events db)
    (hr : db.byExternalIdentity service.sourceId item.externalId = some r)
    (hi : r.mediaItemId = i) :
    (ws.forM fun w => do
      let _ ← service.persistEvent (webhookEvent item w) .webhook
      return () : Persist Unit).Ensures (· = db) fun _ db' =>
        Grown service i events db db' ∧ OwnEvents service events db' ∧
          ∀ w ∈ ws, hasNearby db' i w.occurredAt = true ∧
            (Fresh service i (webhookEvent item w) db → db'.PlayedOn i service.sourceId) := by
  induction ws generalizing db with
  | nil =>
    refine .pure ?_
    rintro db rfl
    exact ⟨.refl db, hown, fun w hw => by cases hw⟩
  | cons w ws ih =>
    refine .bind (M := fun _ db' => Reconciled service i events (webhookEvent item w) db db')
      (.bind (persistEvent_near hev hown (hsub w List.mem_cons_self) hr hi) fun _ =>
        .pure fun _ h => h) fun _ => ?_
    refine .of_forall fun db₁ hdb₁ => ?_
    obtain ⟨hgrown, hown₁, hnear, hplayed⟩ := hdb₁
    have hr₁ : db₁.byExternalIdentity service.sourceId item.externalId = some r := by
      unfold byExternalIdentity at hr ⊢
      rw [hgrown.references]; exact hr
    refine (ih (fun w' hw' => hsub w' (List.mem_cons_of_mem _ hw')) hown₁ hr₁).mono
      (fun _ h => h) ?_
    rintro _ db₂ ⟨hgrown₂, hown₂, hrest⟩
    refine ⟨hgrown.trans hgrown₂, hown₂, fun w' hw' => ?_⟩
    rcases List.mem_cons.1 hw' with rfl | hw'
    · exact ⟨hgrown₂.near _ hnear, fun hf => hgrown₂.played (hplayed hf)⟩
    · obtain ⟨hnear', hplayed'⟩ := hrest w' hw'
      refine ⟨hnear', fun hf => ?_⟩
      rcases hgrown.fresh _ (hsub w' (List.mem_cons_of_mem _ hw')) hf with hf | hp
      · exact hplayed' hf
      · exact hgrown₂.played hp

theorem append_toString_inj {p : String} {m n : Nat}
    (h : p ++ toString m = p ++ toString n) : m = n := by
  have hlist := congrArg String.toList h
  simp only [String.toList_append, List.append_cancel_left_eq] at hlist
  have hrepr : Nat.toDigits 10 m = Nat.toDigits 10 n := by
    simpa [Nat.toString_eq_repr, Nat.repr] using hlist
  rw [← Nat.ofDigitChars_toDigits (n := m) (b := 10) (by decide) le_rfl, hrepr,
    Nat.ofDigitChars_toDigits (by decide) le_rfl]

theorem webhookEvent_inj {w w' : WebhookEvent} (hw : w ∈ db.webhookEvents.rows)
    (hw' : w' ∈ db.webhookEvents.rows)
    (h : (webhookEvent item w).sourceEventId = (webhookEvent item w').sourceEventId) : w = w' := by
  have htext : "webhook:" ++ toString w.id = "webhook:" ++ toString w'.id := by
    simpa [webhookEvent] using h
  exact db.webhookEvents.eq_of_key_eq hw hw' (append_toString_inj htext)

theorem webhookEvent_ne_stateEvent {w : WebhookEvent}
    (hstate : service.stateEvent item = some event) :
    (webhookEvent item w).sourceEventId ≠ event.sourceEventId := by
  unfold stateEvent at hstate
  split at hstate
  next count at' _ _ =>
    cases hstate
    intro h
    have htext : "webhook:" ++ toString w.id =
        "state:" ++ item.externalId ++ ":" ++ service.py.isoformat at' :=
      Option.some.inj h
    have hhead := congrArg (fun text : String => text.toList.head?) htext
    simp [String.toList_append] at hhead
  next => cases hstate

theorem completed_stateEvent (hstate : service.stateEvent item = some event) :
    event.completed = true ∧ event.mediaExternalId = item.externalId ∧
    event.sourceEventId ≠ none := by
  unfold stateEvent at hstate
  split at hstate
  · cases hstate; exact ⟨rfl, rfl, by simp⟩
  · cases hstate

theorem mem_handledEvents : event ∈ service.handledEvents item db ↔
    (∃ w ∈ db.webhookEvents.rows,
      (w.sourceId = service.sourceId ∧ w.externalId = item.externalId ∧ w.completed = true) ∧
      webhookEvent item w = event) ∨ service.stateEvent item = some event := by
  simp [handledEvents, pendingCompletions, and_assoc]

/-- The ids tell the handled events apart; that their digests do is left to the caller. -/
theorem handled_handledEvents (hdigests : ∀ event ∈ service.handledEvents item db,
      ∀ event' ∈ service.handledEvents item db,
    service.eventDedupKey event = service.eventDedupKey event' → event = event') :
    Handled service item (service.handledEvents item db) := by
  refine ⟨fun event hevent => ?_, fun event hevent => ?_, fun event hevent => ?_,
    fun event hevent event' hevent' hid => ?_, hdigests⟩
  · rcases mem_handledEvents.1 hevent with ⟨w, -, -, rfl⟩ | hstate
    · rfl
    · exact (completed_stateEvent hstate).1
  · rcases mem_handledEvents.1 hevent with ⟨w, -, -, rfl⟩ | hstate
    · rfl
    · exact (completed_stateEvent hstate).2.1
  · rcases mem_handledEvents.1 hevent with ⟨w, -, -, rfl⟩ | hstate
    · simp [webhookEvent]
    · exact (completed_stateEvent hstate).2.2
  · rcases mem_handledEvents.1 hevent with ⟨w, hw, -, rfl⟩ | hstate
    · rcases mem_handledEvents.1 hevent' with ⟨w', hw', -, rfl⟩ | hstate'
      · rw [webhookEvent_inj hw hw' hid]
      · exact absurd hid (webhookEvent_ne_stateEvent hstate')
    · rcases mem_handledEvents.1 hevent' with ⟨w', hw', -, rfl⟩ | hstate'
      · exact absurd hid.symm (webhookEvent_ne_stateEvent hstate)
      · exact Option.some.inj (hstate.symm.trans hstate')

/-- The server reports the item as played. -/
def reportsPlayed (item : MediaFields) : Bool :=
  hasPlayback item && (item.completed.getD false || decide (0 < item.viewCount.getD 0))

/-- The item has a completed state on the source once its stored completions are handled. -/
def WillBePlayed (service : MediaPersistenceService) (item : MediaFields) (i : Nat)
    (db : Database) : Prop :=
  db.PlayedOn i service.sourceId ∨ reportsPlayed item = true ∨
    ∃ event ∈ service.pendingCompletions item db, Fresh service i event db

theorem grown_syncWatchState {observedAt : Time} :
    Grown service i events db (service.syncWatchState i item observedAt db) := by
  have hframe : Frame [.watchStates, .dirtyItems] db
      (service.syncWatchState i item observedAt db) :=
    service.syncWatchState_frame i observedAt db
  have hevents : (service.syncWatchState i item observedAt db).watchEvents = db.watchEvents :=
    hframe .watchEvents (by decide)
  have hnear : ∀ t, hasNearby (service.syncWatchState i item observedAt db) i t =
      hasNearby db i t := fun t => by
    unfold hasNearby; rw [hevents]
  refine ⟨hframe .sourceMediaRefs (by decide), fun t ht => by
    rw [hnear]; exact ht, fun hp => ?_, fun event _ hf => .inl ?_⟩
  · unfold syncWatchState
    split
    · exact PlayedOn.saveState hp ⟨rfl, rfl⟩ fun s hs => by simp [observeState, hs]
    · exact hp
  · refine ⟨?_, by rw [hnear]; exact hf.2⟩
    have hknown := hf.1
    unfold knownEvent bySourceEventId at hknown ⊢
    rw [hevents]; exact hknown

theorem playedOn_syncWatchState {observedAt : Time} (h : reportsPlayed item = true) :
    (service.syncWatchState i item observedAt db).PlayedOn i service.sourceId := by
  obtain ⟨hplayback, hreported⟩ := Bool.and_eq_true_iff.1 h
  unfold syncWatchState
  rw [if_pos hplayback]
  refine playedOn_saveState ⟨rfl, rfl⟩ fun s => ?_
  rcases Bool.or_eq_true_iff.1 hreported with hc | hc
  · simp [observeState, hc]
  · simp only [observeState, hc, Bool.or_true]

theorem stateEvent_near {events : List ExternalWatchEvent} (hev : Handled service item events)
    (hown : OwnEvents service events db)
    (hsub : ∀ event, service.stateEvent item = some event → event ∈ events)
    (hr : db.byExternalIdentity service.sourceId item.externalId = some r)
    (hi : r.mediaItemId = i) :
    (service.persistStateEvent item).Ensures (· = db) fun _ db' =>
      Grown service i events db db' := by
  unfold persistStateEvent
  split
  next event hstate =>
    exact (persistEvent_near hev hown (hsub event hstate) hr hi).mono (fun _ h => h)
      fun _ _ h => h.1
  next =>
    refine .pure ?_
    rintro db rfl
    exact .refl db

/-- The stored completions of the item are events afterwards, and the item is completed if it will
be. -/
theorem persistPlayback_near {observedAt : Time} {persisted : Persisted}
    (hev : Handled service item (service.handledEvents item db))
    (hown : OwnEvents service (service.handledEvents item db) db)
    (hr : db.byExternalIdentity service.sourceId item.externalId = some r)
    (hi : r.mediaItemId = persisted.media) :
    (service.persistPlayback item observedAt persisted).Ensures (· = db) fun result db' =>
      result.mediaItemId = persisted.media ∧
        (∀ event ∈ service.pendingCompletions item db,
          hasNearby db' persisted.media event.watchedAt = true) ∧
        (WillBePlayed service item persisted.media db →
          db'.PlayedOn persisted.media service.sourceId) := by
  set events := service.handledEvents item db with hevents
  have hpending : ∀ event ∈ service.pendingCompletions item db, event ∈ events :=
    fun _ h => List.mem_append_left _ h
  refine .bind (M := fun _ db₁ => Grown service persisted.media events db db₁ ∧
    OwnEvents service events db₁ ∧
    ∀ event ∈ service.pendingCompletions item db,
      hasNearby db₁ persisted.media event.watchedAt = true ∧
      (Fresh service persisted.media event db → db₁.PlayedOn persisted.media service.sourceId))
        (.read_bind ?_) fun _ => ?_
  · rintro db rfl
    refine (reconcileEach_near hev (fun w hw => hpending _ (List.mem_map_of_mem hw)) hown hr
      hi).mono (fun _ h => h) ?_
    rintro _ db₁ ⟨hgrown, hown₁, hrest⟩
    refine ⟨hgrown, hown₁, fun event hevent => ?_⟩
    obtain ⟨w, hw, rfl⟩ := List.mem_map.1 hevent
    exact hrest w hw
  refine .of_forall fun db₁ hdb₁ => .read_bind ?_
  obtain ⟨hgrown₁, hown₁, hrest⟩ := hdb₁
  rintro db₁ rfl
  refine .bind (M := fun _ => (· = service.syncWatchState persisted.media item observedAt db₁))
    (.write (by rintro _ rfl; rfl)) fun _ => ?_
  have hgrown₂ : Grown service persisted.media events db₁
      (service.syncWatchState persisted.media item observedAt db₁) :=
    grown_syncWatchState
  have hwatch : (service.syncWatchState persisted.media item observedAt db₁).watchEvents =
      db₁.watchEvents :=
    service.syncWatchState_frame persisted.media observedAt db₁ .watchEvents (by decide)
  have hown₂ :
      OwnEvents service events (service.syncWatchState persisted.media item observedAt db₁) :=
    ⟨by rw [hwatch]; exact hown₁.times, by rw [hwatch]; exact hown₁.digests⟩
  have hr₂ : (service.syncWatchState persisted.media item observedAt db₁).byExternalIdentity
      service.sourceId item.externalId =
      some r := by
    unfold byExternalIdentity at hr ⊢
    rw [hgrown₂.references, hgrown₁.references]; exact hr
  have hstate := stateEvent_near hev hown₂
    (fun event h => List.mem_append_right _ (by rw [h]; exact List.mem_singleton_self _)) hr₂ hi
  refine .bind hstate fun _ => .pure fun db₃ hgrown₃ =>
    ⟨rfl, fun event hevent => ?_, fun hplayed => ?_⟩
  · exact hgrown₃.near _ (hgrown₂.near _ (hrest event hevent).1)
  · refine hgrown₃.played ?_
    rcases hplayed with hp | hreported | ⟨event, hevent, hf⟩
    · exact hgrown₂.played (hgrown₁.played hp)
    · exact playedOn_syncWatchState hreported
    · exact hgrown₂.played ((hrest event hevent).2 hf)

/-! ### The catalog part of `persist_media` -/

/-- The rows of playback and of the stored webhooks are the same. -/
structure SamePlayback (db db' : Database) : Prop where
  watchEvents : db'.watchEvents = db.watchEvents
  watchStates : db'.watchStates = db.watchStates
  webhookEvents : db'.webhookEvents = db.webhookEvents

namespace SamePlayback
variable {db'' : Database} {written : List TableName}

theorem refl (db : Database) : SamePlayback db db := ⟨rfl, rfl, rfl⟩

theorem trans (h : SamePlayback db db') (h' : SamePlayback db' db'') : SamePlayback db db'' :=
  ⟨h'.watchEvents.trans h.watchEvents, h'.watchStates.trans h.watchStates,
    h'.webhookEvents.trans h.webhookEvents⟩

theorem of_frame (h : Frame written db db')
    (hw : .watchEvents ∉ written ∧ .watchStates ∉ written ∧ .webhookEvents ∉ written) :
    SamePlayback db db' :=
  ⟨h .watchEvents hw.1, h .watchStates hw.2.1, h .webhookEvents hw.2.2⟩

theorem of_hierarchy (h : HierarchyWrites service item db db') : SamePlayback db db' :=
  .of_frame (HierarchyWrites.frame h) (by decide)

theorem handledEvents (h : SamePlayback db db') :
    service.handledEvents item db' = service.handledEvents item db := by
  simp [MediaPersistenceService.handledEvents, pendingCompletions, h.webhookEvents]

theorem pendingCompletions (h : SamePlayback db db') :
    service.pendingCompletions item db' = service.pendingCompletions item db := by
  simp [MediaPersistenceService.pendingCompletions, h.webhookEvents]

theorem ownEvents (h : SamePlayback db db') (hown : OwnEvents service events db) :
    OwnEvents service events db' :=
  ⟨by rw [h.watchEvents]; exact hown.times, by rw [h.watchEvents]; exact hown.digests⟩

theorem fresh (h : SamePlayback db db') : Fresh service i event db' ↔ Fresh service i event db := by
  simp [Fresh, knownEvent, bySourceEventId, hasNearby, h.watchEvents]

theorem willBePlayed (h : SamePlayback db db') : WillBePlayed service item i db' ↔
    WillBePlayed service item i db := by
  simp [WillBePlayed, PlayedOn, HasState, h.watchStates, h.pendingCompletions, h.fresh]

end SamePlayback

variable {observedAt : Time} {parent : Option Nat} {matched : Option MediaItem}

theorem updateMedia_samePlayback : SamePlayback db (service.updateMedia item parent i db) :=
  .of_frame (service.updateMedia_frame item parent i db) (by decide)

/-- The source knows the item under its id, and playback is as it was. -/
abbrev Catalogued (service : MediaPersistenceService) (item : MediaFields) (db : Database) (i : Nat)
    (db' : Database) : Prop :=
  SamePlayback db db' ∧ ∃ r, db'.byExternalIdentity service.sourceId item.externalId = some r ∧
    r.mediaItemId = i

/-- `_ensure_hierarchy`; an item that is a container itself has none. -/
theorem ensureHierarchy_writes (item : ExternalMediaItem) (matched : Option MediaItem) :
    (service.ensureHierarchy item.toMediaFields observedAt matched).Ensures (· = db) fun _ =>
      HierarchyWrites service item.toMediaFields db := by
  rcases hleaf : item.kind.isContainer with - | -
  · exact (service.ensureHierarchy_ensures item hleaf matched).mono (fun _ h => h) fun _ _ h => h.1
  · have htrack : item.track? = none := by
      unfold MediaFields.track?
      rw [if_neg]
      rintro hk
      rw [hk] at hleaf; cases hleaf
    have hepisode : item.episode? = none := by
      unfold MediaFields.episode?
      rw [if_neg]
      rintro hk
      rw [hk] at hleaf; cases hleaf
    unfold ensureHierarchy
    rw [htrack, hepisode]
    refine .pure ?_
    rintro db rfl
    exact .refl

theorem addMedia_catalogued :
    (service.addMedia item observedAt matched parent).Ensures (· = db) fun persisted =>
    Catalogued service item db persisted.media := by
  have hrefer : ∀ (db₁ : Database) (i : Nat) (c : ItemClassification), SamePlayback db db₁ →
      (do let reference ← addReference (service.leafReference item i observedAt)
          return (⟨c, i, reference⟩ : Persisted) : Persist Persisted).Ensures (· = db₁)
        fun persisted => Catalogued service item db persisted.media := by
    intro db₁ i c hsame
    refine .bind (addReference_ensures _ db₁) fun reference => .pure ?_
    rintro _ ⟨hfree, rfl, rfl⟩
    refine ⟨hsame.trans (.of_frame (insertSourceMediaRef_frame _) (by decide)), ?_⟩
    obtain ⟨r, hr, -, hi⟩ := shown_insert
      (r := { service.leafReference item i observedAt with id := db₁.sourceMediaRefs.nextId })
      hfree rfl rfl
    exact ⟨r, hr, hi⟩
  unfold addMedia
  rcases matched with - | m
  · refine .read_bind ?_
    rintro db rfl
    refine .bind (M := fun _ => SamePlayback db) (.write ?_) fun _ => .of_forall fun db₁ hdb₁ =>
      hrefer db₁ _ _ hdb₁
    rintro _ rfl
    exact .of_frame (insertMediaItem_frame _) (by decide)
  · refine .bind (M := fun _ => SamePlayback db) (.write ?_) fun _ => .of_forall fun db₁ hdb₁ =>
      hrefer db₁ _ _ hdb₁
    rintro _ rfl
    exact updateMedia_samePlayback

theorem observeMedia_catalogued
    (hr : Refers db service.sourceId item.externalId r.id r.mediaItemId) :
    (service.observeMedia item observedAt r parent).Ensures (· = db) fun persisted =>
      Catalogued service item db persisted.media := by
  refine .bind (requiredMedia_ensures _ db) fun media => .of_forall ?_
  rintro db ⟨rfl, hmedia⟩
  have hid : media.id = r.mediaItemId := Table.key_of_get? hmedia
  obtain ⟨r', hr', -, hri⟩ := hr
  refine .bind (M := fun _ db₁ => SamePlayback db db₁ ∧ db₁.sourceMediaRefs = db.sourceMediaRefs)
    (.write ?_) fun _ => ?_
  · rintro _ rfl
    split
    · exact ⟨.refl _, rfl⟩
    · exact ⟨updateMedia_samePlayback,
        service.updateMedia_frame item parent _ _ .sourceMediaRefs (by decide)⟩
  refine .of_forall fun db₁ hdb₁ => ?_
  have hr₁ : db₁.byExternalIdentity service.sourceId item.externalId = some r' := by
    unfold byExternalIdentity at hr' ⊢
    rw [hdb₁.2]; exact hr'
  refine .bind (M := fun _ => Catalogued service item db media.id) (.write ?_) fun _ =>
    .pure fun _ h => h
  rintro _ rfl
  refine ⟨hdb₁.1.trans (.of_frame (updateSourceMediaRefs_frame _ _) (by decide)), _,
    (byExternalIdentity_save _ _ _ fun _ => ⟨rfl, rfl⟩).trans (congrArg _ hr₁), ?_⟩
  dsimp only
  split
  · exact hri.trans hid.symm
  · exact hri.trans hid.symm

/-- What `persist_media` makes of the stored completions. -/
theorem persistMedia_near {item : ExternalMediaItem}
    (hown : OwnEvents service (service.handledEvents item.toMediaFields db) db)
    (hdigests : ∀ event ∈ service.handledEvents item.toMediaFields db,
      ∀ event' ∈ service.handledEvents item.toMediaFields db,
      service.eventDedupKey event = service.eventDedupKey event' → event = event') :
    (service.persistMedia item observedAt).Ensures (· = db) fun result db' =>
      (∀ event ∈ service.pendingCompletions item.toMediaFields db,
        hasNearby db' result.mediaItemId event.watchedAt = true) ∧
        (WillBePlayed service item.toMediaFields result.mediaItemId db →
          db'.PlayedOn result.mediaItemId service.sourceId) := by
  refine .read_bind ?_
  rintro db rfl
  refine .bind (service.matchMedia_ensures _ db) fun matched => .of_forall ?_
  rintro db ⟨⟨rfl, -⟩, -⟩
  refine .bind (ensureHierarchy_writes item matched) fun parent => .of_forall fun db₁ hw₁ => ?_
  refine .bind (service.syncShowMetadata_writes item parent db₁) fun _ =>
    .of_forall fun db₂ hw₂ => ?_
  have hw := hw₁.trans hw₂
  refine .bind (M := fun persisted => Catalogued service item.toMediaFields db₂ persisted.media) ?_
      fun persisted =>
    .of_forall fun db₃ hdb₃ => ?_
  · unfold storeMedia
    split
    next => exact addMedia_catalogued
    next r hr =>
      refine observeMedia_catalogued ?_
      exact HierarchyWrites.refers service hw ⟨r, hr, rfl, rfl⟩
  refine .bind (service.persistDetails_writes persisted db₃) fun _ => .of_forall fun db₄ hw₄ => ?_
  have hsame : SamePlayback db db₄ :=
    ((SamePlayback.of_hierarchy hw).trans hdb₃.1).trans (.of_hierarchy hw₄)
  obtain ⟨r₃, hr₃, hi₃⟩ := hdb₃.2
  obtain ⟨r, hr, -, hi⟩ := HierarchyWrites.refers service hw₄ ⟨r₃, hr₃, rfl, hi₃⟩
  refine (persistPlayback_near (by rw [hsame.handledEvents]; exact handled_handledEvents hdigests)
    (by rw [hsame.handledEvents]; exact hsame.ownEvents hown) hr hi).mono (fun _ h => h)
      fun result db₅ h => ?_
  rw [hsame.pendingCompletions, hsame.willBePlayed] at h
  rw [h.1]
  exact h.2

end MediaPersistenceService

/-! ### From the webhook to the catalog -/

open MediaPersistenceService WebhookEvents

/-- What happens until the item is cataloged: webhooks, each with the limit of the view then, and
changes of the other tables. -/
inductive ActivityStep
  | webhook (limit : Nat) (a : WebhookActivity)
  | elsewhere (db : Database)

namespace ActivityStep
variable (unescape : String → String)

def step (db : Database) : ActivityStep → Database
  | webhook limit a =>
    { db with webhookEvents := recordWebhookActivity unescape limit a db.webhookEvents }
  | elsewhere db' => { db' with webhookEvents := db.webhookEvents }

/-- The completion `w` is not pushed out of the view. -/
def Allowed (w : Completion) (db : Database) : ActivityStep → Prop
  | webhook limit a => Retains unescape limit a w db.webhookEvents
  | elsewhere _ => True

instance (w : Completion) (db : Database) : ∀ s : ActivityStep, Decidable (Allowed unescape w db s)
  | webhook limit a => inferInstanceAs (Decidable (Retains unescape limit a w db.webhookEvents))
  | elsewhere _ => inferInstanceAs (Decidable True)

variable {unescape} {w : Completion} {db : Database} {steps : List ActivityStep}

theorem holds_step {s : ActivityStep} (h : Holds w db.webhookEvents)
    (hs : Allowed unescape w db s) :
    Holds w (step unescape db s).webhookEvents := by
  cases s with
  | webhook => exact holds_recordWebhookActivity h hs
  | elsewhere => exact h

theorem holds_steps (h : Holds w db.webhookEvents)
    (hsteps : Along (step unescape) (Allowed unescape w) db steps) :
    Holds w (steps.foldl (step unescape) db).webhookEvents :=
  hsteps.invariant (I := fun db => Holds w db.webhookEvents) (fun _ _ h hs => holds_step h hs) h

end ActivityStep

/-- A completion that no later one pushes out of the view becomes an event of its item, which is
then completed on the source unless all its stored completions are near an event that was known
before. -/
theorem completion_kept {service : MediaPersistenceService} {unescape : String → String}
    {a : WebhookActivity} {limit : Nat}
    {db before : Database} {steps : List ActivityStep} {cache : List CacheKey}
    {item : ExternalMediaItem} {observedAt : Time}
    {result : PersistResult} {after : PersistSession}
    (hadds : WebhookEvents.adds a db.webhookEvents = true)
    (hcompleted : a.completed = true) (hsource : a.sourceId = service.sourceId)
    (hitem : a.externalId = item.externalId)
    (hretained : Along (ActivityStep.step unescape)
      (ActivityStep.Allowed unescape (completionOf a db.webhookEvents)) db
      (.webhook limit a :: steps))
    (hbefore : before =
      (ActivityStep.webhook limit a :: steps).foldl (ActivityStep.step unescape) db)
    (hpersist : (service.persistMedia item observedAt).Returns ⟨before, cache⟩ result after)
    (hown : OwnEvents service (service.handledEvents item.toMediaFields before) before)
    (hdigests : ∀ event ∈ service.handledEvents item.toMediaFields before,
      ∀ event' ∈ service.handledEvents item.toMediaFields before,
      service.eventDedupKey event = service.eventDedupKey event' → event = event')
    (hplayed : WillBePlayed service item.toMediaFields result.mediaItemId before) :
    (∃ s ∈ after.store.watchStates.rows, s.key = (result.mediaItemId, service.sourceId) ∧
      s.completed = true) ∧
      ∃ e ∈ after.store.watchEvents.rows, e.mediaItemId = result.mediaItemId ∧ e.completed = true ∧
        a.occurredAt - Time.minutes 2 ≤ e.watchedAt ∧
        e.watchedAt ≤ a.occurredAt + Time.minutes 2 := by
  have hrecorded : Holds (completionOf a db.webhookEvents)
      (recordWebhookActivity unescape limit a db.webhookEvents) :=
    holds_recorded hadds hcompleted hretained.1
  have hholds : Holds (completionOf a db.webhookEvents) before.webhookEvents := by
    rw [hbefore]
    exact @ActivityStep.holds_steps unescape _ (ActivityStep.step unescape db (.webhook limit a))
      steps hrecorded hretained.2
  obtain ⟨w, hw, -, hwsource, hwitem, hwtime, hwcompleted⟩ := hholds
  have hpending : webhookEvent item.toMediaFields w ∈
      service.pendingCompletions item.toMediaFields before := by
    refine List.mem_map_of_mem (List.mem_filter.2 ⟨hw, ?_⟩)
    simp [hwsource, hwitem, hwcompleted, completionOf, hsource, hitem]
  obtain ⟨hnear, hstate⟩ :=
    persistMedia_near hown hdigests ⟨before, cache⟩ result after rfl hpersist
  obtain ⟨s, hs, hscompleted⟩ := hstate hplayed
  refine ⟨⟨s, Table.mem_of_get? hs, Table.key_of_get? hs, hscompleted trivial⟩, ?_⟩
  obtain ⟨e, he, hi, hc, hlow, hhigh⟩ := hasNearby_iff.1 (hnear _ hpending)
  rw [← show w.occurredAt = a.occurredAt from hwtime]
  exact ⟨e, he, hi, hc, hlow, hhigh⟩

section Example

def scrobble (externalId : String) (occurredAt : Time) : WebhookActivity where
  sourceId := 1
  externalId := externalId
  eventType := "media.scrobble"
  occurredAt := occurredAt
  completed := true

/-- The webhook of the film, then that of another item. -/
def twoScrobbles (limit : Nat) : List ActivityStep :=
  [.webhook limit (scrobble "film" 0), .webhook limit (scrobble "other" 1)]

def afterScrobbles (limit : Nat) : Database :=
  (twoScrobbles limit).foldl (ActivityStep.step id) .empty

def unplayedFilm : ExternalMediaItem where
  externalId := "film"
  libraryExternalId := "1"
  kind := .movie
  title := "film"
  complete := by simp [MediaFields.Complete]

def filmScan (limit : Nat) : Except PersistError PersistResult × PersistSession :=
  ((plainService 1).persistMedia unplayedFilm 2).run ⟨afterScrobbles limit, []⟩

def insertedFilm : PersistResult where
  classification := .inserted
  mediaItemId := 1
  viewCountRegression := false
  eventInserted := false

theorem filmScan_ok : (filmScan 2).1 = .ok insertedFilm := by decide +kernel

theorem film_handled :
    ((plainService 1).handledEvents unplayedFilm.toMediaFields (afterScrobbles 2)).length = 1 := by
    decide +kernel

/-- With room for two completions the film is completed. -/
theorem completion_kept_film :
    (∃ s ∈ (filmScan 2).2.store.watchStates.rows, s.key = (1, 1) ∧ s.completed = true) ∧
      ∃ e ∈ (filmScan 2).2.store.watchEvents.rows, e.mediaItemId = 1 ∧ e.completed = true ∧
        0 - Time.minutes 2 ≤ e.watchedAt ∧ e.watchedAt ≤ 0 + Time.minutes 2 := by
  have hnone : (afterScrobbles 2).watchEvents.rows = [] := by decide +kernel
  refine @completion_kept (plainService 1) id (scrobble "film" 0) 2 .empty (afterScrobbles 2)
    [.webhook 2 (scrobble "other" 1)]
    [] unplayedFilm 2 insertedFilm (filmScan 2).2 (by decide) rfl rfl rfl (by decide +kernel) rfl
      (Prod.ext filmScan_ok rfl)
    ?_ ?_ ?_
  · constructor
    · rw [hnone]; intro e he; cases he
    · rw [hnone]; intro e he; cases he
  · obtain ⟨event, hone⟩ := List.length_eq_one_iff.1 film_handled
    rw [hone]
    intro e he e' he' _
    rw [List.mem_singleton.1 he, List.mem_singleton.1 he']
  · refine .inr (.inr ?_)
    decide +kernel

/-- With room for one, the webhook of the other item deletes the completion of the film. -/
theorem pruned_completion_is_lost :
    WebhookEvents.adds (scrobble "film" 0) Database.empty.webhookEvents = true ∧
      (filmScan 1).1.toOption.map (·.mediaItemId) = some 1 ∧
      (filmScan 1).2.store.watchStates.get? (1, 1) = none ∧
      (filmScan 1).2.store.watchEvents.rows = [] := by decide +kernel

end Example

end Euvieouvi
