import Euvieouvi.Playback.Calls
import Euvieouvi.Webhooks.Completions

/-!
# What a completion leaves

`returns_persistEvent` says in one place what a call of `persist_event` that ends normally has done:
refreshed the event known by its id, found an equal or a near one and done nothing, or recorded a
new event. A repeated call finds what the first one left (`repeat_persistEvent`). A new event is
away from every other one of its item, but a refreshed one goes where its source says, so the events
written by a run stay apart exactly when no refresh brings two of them together
(`recorded_once_iff`). Only a new event changes the state of its item, so an event that is
recognised needs a state that knew of it (`reflected_iff`).
-/

namespace Euvieouvi

open Database Program

/-- The moments are at most two minutes apart. -/
def Near (t t' : Time) : Prop := t - Time.minutes 2 ≤ t' ∧ t' ≤ t + Time.minutes 2

theorem Near.symm {t t' : Time} (h : Near t t') : Near t' t :=
  ⟨Int.sub_right_le_of_le_add h.2, Int.le_add_of_sub_right_le h.1⟩

namespace MediaPersistenceService
variable {service : MediaPersistenceService} {event : ExternalWatchEvent} {origin : EventOrigin}
  {db : Database}

/-! ### One call -/

/-- The digest of the event is that of another event of the source than this one. -/
def DigestTaken (service : MediaPersistenceService) (db : Database) (event : ExternalWatchEvent)
    (existing : WatchEvent) : Prop :=
  ∃ other, db.byDedupKey service.sourceId (service.eventDedupKey event) = some other ∧
    other.id ≠ existing.id

/-- The event is stored under its digest, or another completed event of the item is near. -/
def Recognised (service : MediaPersistenceService) (db : Database) (item : Nat)
    (event : ExternalWatchEvent) : Prop :=
  (db.byDedupKey service.sourceId (service.eventDedupKey event)).isSome = true ∨
    hasNearby db item event.watchedAt = true

/-- What a call that ends normally has done. -/
inductive EventOutcome (service : MediaPersistenceService) (event : ExternalWatchEvent)
    (origin : EventOrigin) (db : Database) :
    Bool → Database → Prop
  | incomplete : event.completed = false → EventOutcome service event origin db false db
  | refreshed (r : SourceMediaRef) (existing : WatchEvent) : event.completed = true →
      db.byExternalIdentity service.sourceId event.mediaExternalId = some r →
        service.knownEvent db event = some existing →
      existing.mediaItemId = r.mediaItemId → ¬ DigestTaken service db event existing →
      EventOutcome service event origin db false
        (service.refreshStored event origin existing.id db)
  | recognised (r : SourceMediaRef) : event.completed = true →
      db.byExternalIdentity service.sourceId event.mediaExternalId = some r →
        service.knownEvent db event = none →
      Recognised service db r.mediaItemId event → EventOutcome service event origin db false db
  | recorded (r : SourceMediaRef) : event.completed = true →
      db.byExternalIdentity service.sourceId event.mediaExternalId = some r →
        service.knownEvent db event = none →
      ¬ Recognised service db r.mediaItemId event →
      EventOutcome service event origin db true (service.recordEvent r.mediaItemId event origin db)

theorem digestTaken_iff {existing : WatchEvent} :
    (db.byDedupKey service.sourceId (service.eventDedupKey event)).any
    (·.id != existing.id) = true ↔ DigestTaken service db event existing := by
  simp [DigestTaken, Option.any_eq_true]

theorem recognised_iff {i : Nat} :
    ((db.byDedupKey service.sourceId (service.eventDedupKey event)).isSome ||
    hasNearby db i event.watchedAt) = true ↔ Recognised service db i event := by
  rw [Bool.or_eq_true, Recognised]

section Completed
variable {s s' : PersistSession} {b : Bool} {r : SourceMediaRef}

/-- A completed event of a known item whose event is stored. -/
theorem returns_known {existing : WatchEvent} (hc : event.completed = true)
    (hr : s.store.byExternalIdentity service.sourceId event.mediaExternalId = some r)
    (hknown : service.knownEvent s.store event = some existing) :
    (service.persistEvent event origin).Returns s b s' ↔
      existing.mediaItemId = r.mediaItemId ∧
      ¬ DigestTaken service s.store event existing ∧ b = false ∧
        s' = { s with store := service.refreshStored event origin existing.id s.store } := by
  unfold persistEvent
  rw [if_neg (by simp [hc]), returns_read_bind, hr]
  dsimp only
  rw [returns_read_bind, hknown]
  dsimp only
  rw [returns_ite, ← digestTaken_iff]
  constructor
  · rintro (⟨-, h⟩ | ⟨hsame, h⟩)
    · exact absurd h returns_fail
    · rw [returns_read_bind] at h
      rcases returns_ite.1 h with ⟨-, h⟩ | ⟨hfree, h⟩
      · exact absurd h returns_fail
      · obtain ⟨_, s₁, hwrite, h⟩ := returns_bind.1 h
        obtain ⟨rfl, rfl⟩ := returns_pure.1 h
        exact ⟨not_not.1 hsame, hfree, rfl, returns_write.1 hwrite⟩
  · rintro ⟨hsame, hfree, rfl, rfl⟩
    refine .inr ⟨not_not.2 hsame, ?_⟩
    rw [returns_read_bind]
    exact returns_ite.2
      (.inr ⟨hfree, returns_bind.2 ⟨(), _, returns_write.2 rfl, returns_pure.2 ⟨rfl, rfl⟩⟩⟩)

/-- A completed event of a known item that is not stored under its id. -/
theorem returns_unknown (hc : event.completed = true)
    (hr : s.store.byExternalIdentity service.sourceId event.mediaExternalId = some r)
    (hknown : service.knownEvent s.store event = none) :
    (service.persistEvent event origin).Returns s b s' ↔
      (Recognised service s.store r.mediaItemId event ∧ b = false ∧ s' = s) ∨
        (¬ Recognised service s.store r.mediaItemId event ∧ b = true ∧
          s' = { s with store := service.recordEvent r.mediaItemId event origin s.store }) := by
  unfold persistEvent
  rw [if_neg (by simp [hc]), returns_read_bind, hr]
  dsimp only
  rw [returns_read_bind, hknown]
  dsimp only
  rw [returns_read_bind, returns_ite, recognised_iff]
  refine or_congr (and_congr_right fun _ => returns_pure) (and_congr_right fun _ => ?_)
  constructor
  · intro h
    obtain ⟨_, s₁, hwrite, h⟩ := returns_bind.1 h
    obtain ⟨rfl, rfl⟩ := returns_pure.1 h
    exact ⟨rfl, returns_write.1 hwrite⟩
  · rintro ⟨rfl, rfl⟩
    exact returns_bind.2 ⟨(), _, returns_write.2 rfl, returns_pure.2 ⟨rfl, rfl⟩⟩

end Completed

theorem returns_persistEvent {s s' : PersistSession} {b : Bool} :
    (service.persistEvent event origin).Returns s b s' ↔
    EventOutcome service event origin s.store b s'.store ∧ s'.cache = s.cache := by
  constructor
  · intro h
    cases hc : event.completed with
    | false =>
      unfold persistEvent at h
      rw [if_pos (by simp [hc])] at h
      obtain ⟨rfl, rfl⟩ := returns_pure.1 h
      exact ⟨.incomplete hc, rfl⟩
    | true =>
      cases hr : s.store.byExternalIdentity service.sourceId event.mediaExternalId with
      | none =>
        unfold persistEvent at h
        rw [if_neg (by simp [hc]), returns_read_bind, hr] at h
        exact absurd h returns_fail
      | some r =>
        cases hknown : service.knownEvent s.store event with
        | some existing =>
          obtain ⟨hsame, hfree, rfl, rfl⟩ := (returns_known hc hr hknown).1 h
          exact ⟨.refreshed r existing hc hr hknown hsame hfree, rfl⟩
        | none =>
          rcases (returns_unknown hc hr hknown).1 h with ⟨hstored, rfl, rfl⟩ | ⟨hstored, rfl, rfl⟩
          exacts [⟨.recognised r hc hr hknown hstored, rfl⟩,
            ⟨.recorded r hc hr hknown hstored, rfl⟩]
  · obtain ⟨db, cache⟩ := s
    obtain ⟨db', cache'⟩ := s'
    rintro ⟨h, rfl⟩
    dsimp only at h ⊢
    cases h with
    | incomplete hc =>
      unfold persistEvent
      rw [if_pos (by simp [hc])]
      exact returns_pure.2 ⟨rfl, rfl⟩
    | refreshed r existing hc hr hknown hsame hfree =>
      exact (returns_known hc hr hknown).2 ⟨hsame, hfree, rfl, rfl⟩
    | recognised r hc hr hknown hstored =>
      exact (returns_unknown hc hr hknown).2 (.inl ⟨hstored, rfl, rfl⟩)
    | recorded r hc hr hknown hstored =>
      exact (returns_unknown hc hr hknown).2 (.inr ⟨hstored, rfl, rfl⟩)

/-! ### A call that is repeated -/

/-- The row after a refresh of the event `i`. -/
def refreshRow (service : MediaPersistenceService) (event : ExternalWatchEvent)
    (origin : EventOrigin) (i : Nat) (e : WatchEvent) :
    WatchEvent :=
  if e.id == i && (!isUndated event || decide (service.refreshEvent event origin e ≠ e)) then
    { service.refreshEvent event origin e with updatedAt := service.now } else e

theorem rows_saveRefresh (i : Nat) :
    (service.refreshStored event origin i db).watchEvents.rows =
      db.watchEvents.rows.map (service.refreshRow event origin i) := by
  unfold refreshStored saveWatchEvent
  rw [watchEvents_updateWatchEvents, Table.rows_update]
  rfl

theorem refreshStored_frame (i : Nat) :
    Frame [.watchEvents, .dirtyItems] db (service.refreshStored event origin i db) :=
  updateWatchEvents_frame _ _

/-- A statement that finds no event. -/
theorem updateWatchEvents_of_none {p : WatchEvent → Bool} {f : Assignment WatchEvent.id}
    (h : ∀ e ∈ db.watchEvents.rows, p e = false) :
    db.updateWatchEvents p f = db := by
  have hselected : db.watchEvents.rows.filter p = [] := List.filter_eq_nil_iff.2 fun e he => by
    rw [h e he]
    exact Bool.false_ne_true
  unfold updateWatchEvents
  rw [Table.update_of_none (List.any_eq_false.2 fun e he => by
    rw [h e he]; exact Bool.false_ne_true), hselected]
  rfl

/-- The refresh of an undated event that changes nothing writes nothing. -/
theorem refreshStored_of_same {i : Nat} (hundated : isUndated event = true)
    (h : ∀ e ∈ db.watchEvents.rows, e.id = i → service.refreshEvent event origin e = e) :
    service.refreshStored event origin i db = db := by
  refine updateWatchEvents_of_none fun e he => ?_
  by_cases hi : e.id = i
  · simp [hundated, h e he hi]
  · simp [hi]

/-- `UPDATE watch_events SET updated_at=:now` of one row. -/
def touchWatchEvent (now : Time) (i : Nat) (db : Database) : Database :=
  db.updateWatchEvents (·.id == i) ⟨fun e => { e with updatedAt := now }, fun _ => rfl⟩

/-- The refresh of a dated event that changes nothing writes the row again. -/
theorem refreshStored_of_dated {i : Nat} (hdated : isUndated event = false)
    (h : ∀ e ∈ db.watchEvents.rows, e.id = i → service.refreshEvent event origin e = e) :
    service.refreshStored event origin i db = touchWatchEvent service.now i db := by
  unfold refreshStored saveWatchEvent touchWatchEvent updateWatchEvents
  have hp : (fun e : WatchEvent => e.id == i && (!isUndated event ||
      decide ((⟨service.refreshEvent event origin, fun _ => rfl⟩ : Assignment WatchEvent.id) e ≠
        e))) = (·.id == i) := by
    funext e
    rw [hdated]
    exact Bool.and_true _
  have htable : db.watchEvents.update (·.id == i)
      ⟨fun e => { service.refreshEvent event origin e with updatedAt := service.now },
      fun _ => rfl⟩ = db.watchEvents.update (·.id == i)
        ⟨fun e => { e with updatedAt := service.now }, fun _ => rfl⟩ := by
    refine Table.ext_rows ?_
    rw [Table.rows_update, Table.rows_update]
    refine List.map_congr_left fun e he => ?_
    split
    next hi =>
      show { service.refreshEvent event origin e with updatedAt := service.now } = _
      rw [h e he (beq_iff_eq.1 hi)]
    next => rfl
  rw [hp]
  exact congrArg (fun table => activityTrigger _ { db with watchEvents := table }) htable

section Rows
variable {e : WatchEvent} {i : Nat}

@[simp] theorem refreshRow_id : (service.refreshRow event origin i e).id = e.id := by
  unfold refreshRow; split <;> rfl

@[simp] theorem refreshRow_mediaItemId :
    (service.refreshRow event origin i e).mediaItemId = e.mediaItemId := by
  unfold refreshRow; split <;> rfl

@[simp] theorem refreshRow_sourceId :
    (service.refreshRow event origin i e).sourceId = e.sourceId := by
  unfold refreshRow; split <;> rfl

@[simp] theorem refreshRow_sourceEventId :
    (service.refreshRow event origin i e).sourceEventId = e.sourceEventId := by
  unfold refreshRow; split <;> rfl

theorem refreshRow_of_ne (h : e.id ≠ i) : service.refreshRow event origin i e = e := by
  unfold refreshRow
  rw [if_neg (by simp [h])]

/-- What was refreshed says what the event says. -/
theorem refreshEvent_refreshRow (service' : MediaPersistenceService)
    (hkey : service'.eventDedupKey event = service.eventDedupKey event) (h : e.id = i) :
    service'.refreshEvent event origin (service.refreshRow event origin i e) =
      service.refreshRow event origin i e := by
  unfold refreshRow
  split
  next => simp only [refreshEvent, hkey]; split <;> rfl
  next hsame =>
    have heq : service.refreshEvent event origin e = e := by
      rw [h, beq_self_eq_true, Bool.true_and, Bool.not_eq_true, Bool.or_eq_false_iff] at hsame
      simpa using hsame.2
    rw [← heq]
    simp only [refreshEvent, hkey]
    split <;> rfl

theorem dedupKey_refreshRow (h : e.id = i) :
    (service.refreshRow event origin i e).dedupKey = service.eventDedupKey event := by
  rw [← refreshEvent_refreshRow service rfl h]
  rfl

end Rows

/-- The first row that meets a wider condition, and the narrower one, is the first that meets the
narrower one. -/
theorem find?_of_wider {α : Type} {p q : α → Bool} (hpq : ∀ a, p a = true → q a = true)
    {l : List α} {a : α} (h : l.find? q = some a) (hp : p a = true) : l.find? p = some a := by
  obtain ⟨-, before, after, rfl, hbefore⟩ := List.find?_eq_some_iff_append.1 h
  refine List.find?_eq_some_iff_append.2 ⟨hp, before, after, rfl, fun b hb => ?_⟩
  have hq := hbefore b hb
  simp only [Bool.not_eq_true'] at hq ⊢
  by_contra hpb
  rw [hpq b (by simpa using hpb)] at hq
  cases hq

section Repeat
variable {service' : MediaPersistenceService}

/-- After a refresh the event is known as the refreshed row, and its digest is that of no other
row. -/
theorem known_after_refresh {existing : WatchEvent}
    (hknown : service.knownEvent db event = some existing)
    (hfree : ¬ DigestTaken service db event existing) :
    let after := service.refreshStored event origin existing.id db
    service.knownEvent after event = some (service.refreshRow event origin existing.id existing) ∧
      ¬ DigestTaken service after event (service.refreshRow event origin existing.id existing) := by
  obtain ⟨hmem, hsource, hid⟩ := mem_of_knownEvent hknown
  obtain ⟨text, htext, hfind⟩ := Option.bind_eq_some_iff.1 hknown
  dsimp only
  constructor
  · unfold knownEvent
    rw [htext, Option.bind_some]
    unfold bySourceEventId at hfind ⊢
    rw [rows_saveRefresh, List.find?_map]
    have hp :
        ((fun e : WatchEvent => e.sourceId == service.sourceId && e.sourceEventId == some text) ∘
        service.refreshRow event origin existing.id) = fun e => e.sourceId == service.sourceId &&
          e.sourceEventId == some text := by
      funext e
      simp
    rw [hp, hfind]
    rfl
  · rintro ⟨other, hother, hne⟩
    unfold byDedupKey at hother
    rw [rows_saveRefresh, List.find?_map] at hother
    obtain ⟨row, hrow, rfl⟩ := Option.map_eq_some_iff.1 hother
    rw [refreshRow_id, refreshRow_id] at hne
    have hp := List.find?_some hrow
    simp only [Function.comp, refreshRow_of_ne hne, Bool.and_eq_true, beq_iff_eq] at hp
    refine hfree ⟨row, find?_of_wider (fun e he => ?_) hrow (by simp [hp.1, hp.2]), hne⟩
    simp only [Bool.and_eq_true, beq_iff_eq] at he
    by_cases hi : e.id = existing.id
    · simp [Function.comp, he.1, dedupKey_refreshRow hi]
    · simp [Function.comp, refreshRow_of_ne hi, he.1, he.2]

/-- After a new event it is known by its id, if it has one, and its digest is that of no other
row. -/
theorem known_after_record {i : Nat} (hknown : service.knownEvent db event = none)
    (hstored : ¬ Recognised service db i event) :
    let after := service.recordEvent i event origin db
    let new := service.newEvent db.watchEvents.nextId i event origin
    service.knownEvent after event = event.sourceEventId.map (fun _ => new) ∧
      after.byDedupKey service.sourceId (service.eventDedupKey event) = some new := by
  have hfree : db.watchEvents.get? (service.newEvent db.watchEvents.nextId i event origin).id =
      none := Table.get?_nextId _
  have hrows : (service.recordEvent i event origin db).watchEvents.rows =
      db.watchEvents.rows ++ [service.newEvent db.watchEvents.nextId i event origin] := by
    rw [watchEvents_recordEvent, Table.rows_insert_of_get?_none hfree]
  have hdigest : db.byDedupKey service.sourceId (service.eventDedupKey event) = none := by
    rw [← Option.not_isSome_iff_eq_none]
    exact fun h => hstored (.inl h)
  constructor
  · unfold knownEvent at hknown ⊢
    cases htext : event.sourceEventId with
    | none => rfl
    | some text =>
      rw [htext, Option.bind_some] at hknown
      rw [Option.bind_some, Option.map_some]
      unfold bySourceEventId at hknown ⊢
      rw [hrows, List.find?_append, hknown]
      simp [newEvent, htext]
  · unfold byDedupKey at hdigest ⊢
    rw [hrows, List.find?_append, hdigest]
    simp [newEvent]

/-- The event that is stored under the id of the event says what the event says, and its digest is
that of no other row. -/
def Holds (service : MediaPersistenceService) (event : ExternalWatchEvent) (origin : EventOrigin)
    (db : Database) (e : WatchEvent) :
    Prop :=
  service.knownEvent db event = some e ∧ service.refreshEvent event origin e = e ∧
    ¬ DigestTaken service db event e

/-- After a call that succeeded, the event is recognised or stored under its id. -/
theorem settled_outcome {b : Bool} {db' : Database} (h : EventOutcome service event origin db b db')
    (hc : event.completed = true) :
    ∃ r, db'.byExternalIdentity service.sourceId event.mediaExternalId = some r ∧
      ((service.knownEvent db' event = none ∧ Recognised service db' r.mediaItemId event) ∨
        ∃ e, Holds service event origin db' e ∧ e.mediaItemId = r.mediaItemId) := by
  have href : ∀ {written : List TableName} {after : Database} {r : SourceMediaRef},
      Frame written db after → .sourceMediaRefs ∉ written →
      db.byExternalIdentity service.sourceId event.mediaExternalId = some r →
      after.byExternalIdentity service.sourceId event.mediaExternalId = some r := by
    intro written after r hframe hw hr
    have hrefs : after.sourceMediaRefs = db.sourceMediaRefs := hframe .sourceMediaRefs hw
    unfold byExternalIdentity at hr ⊢
    rw [hrefs, hr]
  cases h with
  | incomplete hopen => rw [hc] at hopen; cases hopen
  | refreshed r existing _ hr hknown hsame hfree =>
    obtain ⟨hafter, hdigest⟩ := @known_after_refresh service event origin db existing hknown hfree
    refine ⟨r, href (refreshStored_frame _) (by decide) hr,
      .inr ⟨_, ⟨hafter, ?_, hdigest⟩, refreshRow_mediaItemId.trans hsame⟩⟩
    exact refreshEvent_refreshRow service rfl rfl
  | recognised r _ hr hknown hstored => exact ⟨r, hr, .inl ⟨hknown, hstored⟩⟩
  | recorded r _ hr hknown hstored =>
    obtain ⟨hafter, hdigest⟩ :=
      @known_after_record service event origin db r.mediaItemId hknown hstored
    refine ⟨r, href (service.recordEvent_frame _ _ _ _) (by decide) hr, ?_⟩
    cases hid : event.sourceEventId with
    | none =>
      rw [hid] at hafter
      exact .inl ⟨hafter, .inl (by rw [hdigest]; rfl)⟩
    | some text =>
      rw [hid, Option.map_some] at hafter
      refine .inr ⟨_, ⟨hafter, ?_, ?_⟩, rfl⟩
      · unfold refreshEvent newEvent
        dsimp only
        rw [ite_self]
      · rintro ⟨other, hother, hne⟩
        obtain rfl := Option.some_inj.1 (hdigest.symm.trans hother)
        exact hne rfl

/-- The call finds its event by its id at the source, and the id does not say that the event is
undated. -/
def Rewrites (service : MediaPersistenceService) (event : ExternalWatchEvent) (db : Database)
    (e : WatchEvent) : Prop :=
  event.completed = true ∧ isUndated event = false ∧ service.knownEvent db event = some e

/-- A call that succeeded, repeated at any time, writes `updated_at` of a dated event that is stored
under its id, and otherwise nothing. -/
theorem repeat_persistEvent {b : Bool} {db' : Database}
    (h : EventOutcome service event origin db b db') (now : Time) :
    ∃ db'', EventOutcome { service with now := now } event origin db' false db'' ∧
      ((∀ e, ¬ Rewrites service event db' e) ∧ db'' = db' ∨
        ∃ e, Rewrites service event db' e ∧ db'' = touchWatchEvent now e.id db') := by
  cases hc : event.completed with
  | false =>
    exact ⟨db', .incomplete hc, .inl ⟨fun e he => Bool.false_ne_true (hc.symm.trans he.1), rfl⟩⟩
  | true =>
    obtain ⟨r, hr, ⟨hknown, hstored⟩ | ⟨e, ⟨hknown, hsame, hfree⟩, hitem⟩⟩ := settled_outcome h hc
    · refine ⟨db', .recognised r hc hr hknown hstored, .inl ⟨fun e he => ?_, rfl⟩⟩
      cases hknown.symm.trans he.2.2
    · refine ⟨_, @EventOutcome.refreshed { service with now := now } event origin db' r e hc hr
        hknown hitem hfree, ?_⟩
      have hrow : ∀ e' ∈ db'.watchEvents.rows, e'.id = e.id →
          ({ service with now := now } : MediaPersistenceService).refreshEvent event origin
            e' = e' := by
        intro e' he' hid
        rw [db'.watchEvents.eq_of_key_eq he' (mem_of_knownEvent hknown).1 hid]
        exact hsame
      cases hundated : isUndated event with
      | true =>
        refine .inl ⟨fun e he => Bool.false_ne_true (he.2.1.symm.trans hundated), ?_⟩
        exact refreshStored_of_same hundated hrow
      | false => exact .inr ⟨e, ⟨hc, hundated, hknown⟩, refreshStored_of_dated hundated hrow⟩

/-- The row is written, whatever stood in it, as soon as the clock shows another moment. -/
theorem touchWatchEvent_ne {e : WatchEvent} (he : e ∈ db.watchEvents.rows) :
    touchWatchEvent (e.updatedAt + 1) e.id db ≠ db := by
  intro heq
  have hmem : { e with updatedAt := e.updatedAt + 1 } ∈ db.watchEvents.rows := by
    rw [← heq]
    unfold touchWatchEvent
    rw [watchEvents_updateWatchEvents]
    exact Table.mem_update.2 ⟨e, he, if_pos (beq_self_eq_true _)⟩
  have hsame := congrArg WatchEvent.updatedAt (db.watchEvents.eq_of_key_eq hmem he rfl)
  exact absurd hsame (Int.lt_add_one_iff.2 le_rfl).ne'

end Repeat

/-- The state of the item on the source is completed, and knows of a play at most two minutes before
this moment. -/
def Reflected (db : Database) (item source : Nat) (t : Time) : Prop :=
  ∃ s, db.watchStates.get? (item, source) = some s ∧ s.completed = true ∧
    NotLater (some (t - Time.minutes 2)) s.lastWatchedAt

theorem notLater_completeState (count : Nat) (s : WatchState) :
    NotLater (some (event.watchedAt - Time.minutes 2))
    (completeState count event s).lastWatchedAt := by
  obtain ⟨last, hlast, hle⟩ :=
    NotLater.latest_right s.lastWatchedAt (some event.watchedAt) event.watchedAt rfl
  rintro t ⟨⟩
  exact ⟨last, hlast, (Int.sub_le_self _ minutes_two_nonneg).trans hle⟩

theorem reflected_applyEventToWatchState (i : Nat) (event : ExternalWatchEvent) (db : Database) :
    Reflected (service.applyEventToWatchState i event db) i service.sourceId event.watchedAt := by
  unfold applyEventToWatchState saveState
  dsimp only
  split
  next s hs =>
    have hs : db.watchStates.get? (i, service.sourceId) = some s := hs
    refine ⟨_, (get?_saveWatchState _).trans (by rw [hs]; rfl), ?_⟩
    dsimp only
    split
    · exact ⟨rfl, notLater_completeState (service.eventCount db i event) s⟩
    next hsame =>
      have hfs := not_and_not_right.1 hsame (Table.key_of_get? hs)
      rw [← hfs]
      exact ⟨rfl, notLater_completeState _ s⟩
  next hs =>
    rw [Reflected, watchStates_insertWatchState]
    exact ⟨_, Table.get?_insert_self hs, rfl, notLater_completeState _ _⟩

theorem reflected_recordEvent {i : Nat} :
    Reflected (service.recordEvent i event origin db) i service.sourceId event.watchedAt := by
  have happlied := @reflected_applyEventToWatchState service i event
    (db.insertWatchEvent (service.newEvent db.watchEvents.nextId i event origin))
  unfold recordEvent
  dsimp only
  split
  · exact happlied
  · exact happlied

/-- A completion that is accepted shows in the state of its item exactly when nobody knew the event,
or when the state showed it before. -/
theorem reflected_iff (service : MediaPersistenceService) (event : ExternalWatchEvent)
    (origin : EventOrigin) {s s' : PersistSession}
    {b : Bool} {r : SourceMediaRef} (hc : event.completed = true)
    (hr : s.store.byExternalIdentity service.sourceId event.mediaExternalId = some r)
    (hrun : (service.persistEvent event origin).Returns s b s') :
    Reflected s'.store r.mediaItemId service.sourceId event.watchedAt ↔
      (service.knownEvent s.store event = none ∧ ¬ Recognised service s.store r.mediaItemId event) ∨
        Reflected s.store r.mediaItemId service.sourceId event.watchedAt := by
  have hout := (returns_persistEvent.1 hrun).1
  generalize s'.store = after at hout ⊢
  cases hout with
  | incomplete hopen => rw [hc] at hopen; cases hopen
  | refreshed r' existing _ hr' hknown =>
    have hstates : (service.refreshStored event origin existing.id s.store).watchStates =
        s.store.watchStates := updateWatchEvents_frame _ _ .watchStates (by decide)
    unfold Reflected
    rw [hstates, hknown]
    simp
  | recognised r' _ hr' _ hstored =>
    obtain rfl := Option.some_inj.1 (hr.symm.trans hr')
    exact ⟨.inr, fun h => h.resolve_left fun hnew => hnew.2 hstored⟩
  | recorded r' _ hr' hknown hstored =>
    obtain rfl := Option.some_inj.1 (hr.symm.trans hr')
    exact iff_of_true reflected_recordEvent (.inl ⟨hknown, hstored⟩)

section Example

/-- How a server shows the item. -/
def serverReference (source : Nat) : SourceMediaRef :=
  { id := source, sourceId := source, libraryId := 1, mediaItemId := 1, externalId := "a" }

/-- An item that two servers have. -/
def onTwoServers : Database :=
  { Database.empty with
    sourceMediaRefs := (Table.empty.insert (serverReference 1)).insert (serverReference 2) }

/-- The item is played to its end. -/
def playedAt (id : String) (t : Time) : ExternalWatchEvent where
  mediaExternalId := "a"
  libraryExternalId := "1"
  watchedAt := t
  completed := true
  sourceEventId := some id

def afterFirstServer : Database :=
  ((plainService 1).persistEvent (playedAt "x" 0) .webhook).commit [] onTwoServers

theorem reflected_iff_first :
    Reflected (((plainService 1).persistEvent (playedAt "x" 0) .webhook).run
      ⟨onTwoServers, []⟩).2.store 1 1 0 := by
  refine (reflected_iff (plainService 1) (playedAt "x" 0) .webhook
    (s := ⟨onTwoServers, []⟩) (b := true)
    (r := serverReference 1) rfl (by decide +kernel) ?_).2 (.inl ?_)
  · exact Prod.ext (by decide +kernel) rfl
  · exact ⟨rfl, by simp [Recognised, onTwoServers, hasNearby, byDedupKey, Database.empty]⟩

/-- The second server reports the same item one minute after the first: the call succeeds, and the
item has no state there. -/
theorem nearby_completion_dropped : ∃ r s, (playedAt "y" (Time.minutes 1)).completed = true ∧
    afterFirstServer.byExternalIdentity 2 "a" = some r ∧
    ((plainService 2).persistEvent (playedAt "y" (Time.minutes 1)) .webhook).Returns
      ⟨afterFirstServer, []⟩ false s ∧
    ¬ Reflected s.store r.mediaItemId 2 (Time.minutes 1) := by
  have hnear : hasNearby afterFirstServer 1 (Time.minutes 1) = true := by decide +kernel
  have hstates : afterFirstServer.watchStates.get? (1, 2) = none := by decide +kernel
  refine ⟨serverReference 2, ⟨afterFirstServer, []⟩, rfl, by decide +kernel,
    returns_persistEvent.2 ⟨.recognised (serverReference 2) rfl ?_ ?_ (.inr hnear), rfl⟩, ?_⟩
  · decide +kernel
  · decide +kernel
  · rintro ⟨s, hs, -⟩
    cases hstates.symm.trans hs

end Example

end MediaPersistenceService

/-! ### Runs -/

open MediaPersistenceService

structure EventCall where
  service : MediaPersistenceService
  cache : List CacheKey := []
  event : ExternalWatchEvent
  origin : EventOrigin := .synchronization

namespace EventCall

/-- The event that the call finds by its id at the source. -/
def found (call : EventCall) (db : Database) : Option WatchEvent :=
  if call.event.completed then
    (db.byExternalIdentity call.service.sourceId call.event.mediaExternalId).bind fun r =>
      (call.service.knownEvent db call.event).filter fun existing =>
        existing.mediaItemId == r.mediaItemId &&
        !(db.byDedupKey call.service.sourceId (call.service.eventDedupKey call.event)).any
          (·.id != existing.id)
  else none

/-- The item of an event that nobody knows. -/
def unknownTo (call : EventCall) (db : Database) : Option Nat :=
  if call.event.completed && (call.service.knownEvent db call.event).isNone then
    (db.byExternalIdentity call.service.sourceId call.event.mediaExternalId).bind fun r =>
      if (db.byDedupKey call.service.sourceId (call.service.eventDedupKey call.event)).isSome ||
        hasNearby db r.mediaItemId call.event.watchedAt then none else some r.mediaItemId
  else none

/-- The id of the event that the call creates or updates. -/
def writes (call : EventCall) (db : Database) : Option Nat :=
  match call.found db with
  | some existing =>
    if isUndated call.event &&
      decide (call.service.refreshEvent call.event call.origin existing = existing) then none
    else some existing.id
  | none => (call.unknownTo db).map fun _ => db.watchEvents.nextId

variable {call : EventCall} {db : Database} {existing : WatchEvent} {i : Nat}

theorem found_eq_some : call.found db = some existing ↔ call.event.completed = true ∧
    ∃ r, db.byExternalIdentity call.service.sourceId call.event.mediaExternalId = some r ∧
      call.service.knownEvent db call.event = some existing ∧ existing.mediaItemId = r.mediaItemId ∧
      ¬ DigestTaken call.service db call.event existing := by
  unfold found
  split
  next hc =>
    simp only [hc, true_and, Option.bind_eq_some_iff, Option.filter_eq_some_iff, Bool.and_eq_true,
      beq_iff_eq, Bool.not_eq_true',
      ← Bool.not_eq_true, digestTaken_iff]
  next hc => exact iff_of_false (by simp) fun h => hc h.1

theorem unknownTo_eq_some : call.unknownTo db = some i ↔ call.event.completed = true ∧
    ∃ r, db.byExternalIdentity call.service.sourceId call.event.mediaExternalId = some r ∧
      call.service.knownEvent db call.event = none ∧
      ¬ Recognised call.service db r.mediaItemId call.event ∧ r.mediaItemId = i := by
  unfold unknownTo
  split
  next h =>
    obtain ⟨hc, hknown⟩ := Bool.and_eq_true_iff.1 h
    rw [Option.isNone_iff_eq_none] at hknown
    rw [Option.bind_eq_some_iff]
    refine ⟨fun ⟨r, hr, hrest⟩ => ⟨hc, r, hr, hknown, ?_⟩, fun ⟨_, r, hr, _, hstored, hi⟩ =>
      ⟨r, hr, ?_⟩⟩
    · split at hrest
      · cases hrest
      next hstored => exact ⟨mt recognised_iff.2 hstored, Option.some.inj hrest⟩
    · rw [if_neg (mt recognised_iff.1 hstored), hi]
  next h =>
    refine iff_of_false (by simp) fun ⟨hc, r, _, hknown, _⟩ => h ?_
    rw [hc, hknown]
    rfl

/-- What a call leaves: a refreshed event, a new one, or what was there. -/
theorem commit_cases (call : EventCall) (db : Database) :
    let after := (call.service.persistEvent call.event call.origin).commit call.cache db
    (∃ existing, call.found db = some existing ∧ existing ∈ db.watchEvents.rows ∧
        after = call.service.refreshStored call.event call.origin existing.id db) ∨
      (∃ i, call.found db = none ∧ call.unknownTo db = some i ∧
        ¬ Recognised call.service db i call.event ∧
        after = call.service.recordEvent i call.event call.origin db) ∨
      call.writes db = none ∧ call.found db = none ∧ after = db := by
  intro after
  have hreturns : ∀ b db', EventOutcome call.service call.event call.origin db b db' →
      after = db' := by
    intro b db' hout
    have hrun : (call.service.persistEvent call.event call.origin).run ⟨db, call.cache⟩ =
        (.ok b, ⟨db', call.cache⟩) :=
      returns_persistEvent.2 ⟨hout, rfl⟩
    show Persist.commit _ _ _ = db'
    unfold Persist.commit
    rw [hrun]
  cases hfound : call.found db with
  | some existing =>
    obtain ⟨hc, r, hr, hknown, hitem, hfree⟩ := found_eq_some.1 hfound
    exact .inl ⟨existing, rfl, (mem_of_knownEvent hknown).1,
      hreturns _ _ (.refreshed r existing hc hr hknown hitem hfree)⟩
  | none =>
    cases hunknown : call.unknownTo db with
    | some i =>
      obtain ⟨hc, r, hr, hknown, hstored, rfl⟩ := unknownTo_eq_some.1 hunknown
      exact .inr (.inl ⟨_, rfl, rfl, hstored, hreturns _ _ (.recorded r hc hr hknown hstored)⟩)
    | none =>
      refine .inr (.inr ⟨?_, rfl, ?_⟩)
      · unfold writes
        rw [hfound, hunknown]
        rfl
      show Persist.commit _ _ _ = db
      unfold Persist.commit
      split
      next b s' hrun =>
        have hout := (returns_persistEvent.1 hrun).1
        generalize s'.store = db' at hout ⊢
        cases hout with
        | incomplete | recognised => rfl
        | refreshed r existing hc hr hknown hitem hfree =>
          cases hfound.symm.trans (found_eq_some.2 ⟨hc, r, hr, hknown, hitem, hfree⟩)
        | recorded r hc hr hknown hstored =>
          cases hunknown.symm.trans (unknownTo_eq_some.2 ⟨hc, r, hr, hknown, hstored, rfl⟩)
      next => rfl

end EventCall

/-- A database, and the ids of the events that calls have created or updated. -/
structure Recording where
  db : Database
  written : List Nat := []

namespace Recording
variable {s : Recording} {call : EventCall}

def step (s : Recording) (call : EventCall) : Recording where
  db := (call.service.persistEvent call.event call.origin).commit call.cache s.db
  written := s.written ++ (call.writes s.db).toList

/-- No two completed events of one item that calls have written are near each other. -/
def Spaced (s : Recording) : Prop :=
  ∀ e ∈ s.db.watchEvents.rows, ∀ e' ∈ s.db.watchEvents.rows, e.id ∈ s.written → e'.id ∈ s.written →
    e.id ≠ e'.id →
    e.mediaItemId = e'.mediaItemId → e.completed = true → e'.completed = true →
      ¬ Near e.watchedAt e'.watchedAt

/-- The events that calls have written, without this one. -/
def others (s : Recording) (i : Nat) : Database :=
  { s.db with
    watchEvents := s.db.watchEvents.delete fun e => e.id == i || !s.written.contains e.id }

/-- The search for a near event that a new one goes through finds none among the others that calls
have written: of a dated event that is found by its id, at the moment that the call gives it; of an
undated one that changes and that no call has written, at the moment that it has. -/
def Apart (s : Recording) (call : EventCall) : Prop :=
  ∀ existing, call.found s.db = some existing →
    (isUndated call.event = false →
      hasNearby (s.others existing.id) existing.mediaItemId call.event.watchedAt = false) ∧
    (isUndated call.event = true →
      call.service.refreshEvent call.event call.origin existing ≠ existing →
      existing.id ∉ s.written →
        hasNearby (s.others existing.id) existing.mediaItemId existing.watchedAt = false)

/-- No event is stored under the id that the call gives, or the id says that the event is undated:
neither does the call find one, nor is its event new. -/
def Quiet (s : Recording) (call : EventCall) : Prop :=
  call.event.sourceEventId = none ∨ isUndated call.event = true ∨ call.found s.db = none ∧
    call.unknownTo s.db = none

theorem hasNearby_others {i j : Nat} {t : Time} : hasNearby (s.others i) j t = false ↔
    ∀ e ∈ s.db.watchEvents.rows, e.id ∈ s.written → e.id ≠ i → e.mediaItemId = j →
    e.completed = true → ¬ Near t e.watchedAt := by
  have hmem : ∀ e, e ∈ (s.others i).watchEvents.rows ↔ e ∈ s.db.watchEvents.rows ∧ e.id ≠ i ∧
      e.id ∈ s.written := by
    intro e
    show e ∈ (s.db.watchEvents.delete _).rows ↔ _
    rw [Table.mem_delete]
    simp
  rw [← Bool.not_eq_true, hasNearby_iff]
  constructor
  · exact fun h e he hid hne hi hc hnear => h ⟨e, (hmem e).2 ⟨he, hne, hid⟩, hi, hc, hnear⟩
  · rintro h ⟨e, he, hi, hc, hnear⟩
    obtain ⟨he, hne, hid⟩ := (hmem e).1 he
    exact h e he hid hne hi hc hnear

/-- The events that calls have written are completed. -/
def Completed (s : Recording) : Prop :=
  ∀ e ∈ s.db.watchEvents.rows, e.id ∈ s.written → e.completed = true

theorem spaced_record {i : Nat} (h : s.Spaced)
    (hstored : ¬ Recognised call.service s.db i call.event) :
    Spaced { db := call.service.recordEvent i call.event call.origin s.db,
             written := s.written ++ [s.db.watchEvents.nextId] } := by
  have hold : ∀ e ∈ s.db.watchEvents.rows, e.id ∈ s.written ++ [s.db.watchEvents.nextId] →
      e.id ∈ s.written := by
    intro e he hid
    rcases List.mem_append.1 hid with hid | hid
    · exact hid
    · exact absurd (List.mem_singleton.1 hid) (Table.key_lt_nextId he).ne
  -- the new event is near no completed event of its item
  have hfar : ∀ e ∈ s.db.watchEvents.rows, e.mediaItemId = i → e.completed = true →
      ¬ Near call.event.watchedAt e.watchedAt :=
    fun e he hi hc hnear => hstored (.inr (hasNearby_iff.2 ⟨e, he, hi, hc, hnear⟩))
  intro e he e' he' hid hid' hne hi hc hc' hnear
  rcases mem_recordEvent.1 he with hmem | rfl <;> rcases mem_recordEvent.1 he' with hmem' | rfl
  · exact h e hmem e' hmem' (hold e hmem hid) (hold e' hmem' hid') hne hi hc hc' hnear
  · exact hfar e hmem hi hc hnear.symm
  · exact hfar e' hmem' hi.symm hc' hnear
  · exact hne rfl

section Refresh
variable {existing : WatchEvent}

/-- A refresh that writes the event it finds. -/
theorem spaced_refresh_iff (h : s.Spaced) (hc : call.event.completed = true)
    (hmem : existing ∈ s.db.watchEvents.rows)
    (hwrites : isUndated call.event = true →
      call.service.refreshEvent call.event call.origin existing ≠ existing) :
    Spaced { db := call.service.refreshStored call.event call.origin existing.id s.db,
             written := s.written ++ [existing.id] } ↔
      hasNearby (s.others existing.id) existing.mediaItemId
        (call.service.refreshEvent call.event call.origin existing).watchedAt = false := by
  set row := call.service.refreshRow call.event call.origin existing.id with hrow
  have hrows :
      (call.service.refreshStored call.event call.origin existing.id s.db).watchEvents.rows =
      s.db.watchEvents.rows.map row := rows_saveRefresh _
  have hfresh : row existing = { call.service.refreshEvent call.event call.origin existing with
      updatedAt := call.service.now } := by
    rw [hrow]
    unfold refreshRow
    rw [if_pos]
    cases hundated : isUndated call.event with
    | true => simp [hwrites hundated]
    | false => simp
  have hkept : ∀ e, e.id ≠ existing.id → row e = e := fun e he => refreshRow_of_ne he
  have hsame : ∀ e ∈ s.db.watchEvents.rows, e.id = existing.id → e = existing := fun e he hid =>
    s.db.watchEvents.eq_of_key_eq he hmem hid
  have hwritten : ∀ e, (row e).id ∈ s.written ++ [existing.id] ↔ e.id ∈ s.written ∨
      e.id = existing.id := by
    intro e
    rw [List.mem_append, List.mem_singleton, show (row e).id = e.id from refreshRow_id]
  rw [hasNearby_others]
  constructor
  · intro hspaced e he hid hne hi hce hnear
    have hpair := hspaced (row e) (hrows ▸ List.mem_map_of_mem he) (row existing)
      (hrows ▸ List.mem_map_of_mem hmem)
      ((hwritten e).2 (.inl hid)) ((hwritten existing).2 (.inr rfl))
    rw [hkept e hne, hfresh] at hpair
    exact hpair hne hi hce hc hnear.symm
  · intro hfar a ha a' ha' hid hid' hne hi hca hca' hnear
    obtain ⟨e, he, rfl⟩ := List.mem_map.1 (hrows ▸ ha)
    obtain ⟨e', he', rfl⟩ := List.mem_map.1 (hrows ▸ ha')
    have hid := (hwritten e).1 hid
    have hid' := (hwritten e').1 hid'
    by_cases hx : e.id = existing.id <;> by_cases hx' : e'.id = existing.id
    · rw [hsame e he hx, hsame e' he' hx'] at hne
      exact hne rfl
    · rw [hsame e he hx, hkept e' hx', hfresh] at hi hnear
      rw [hkept e' hx'] at hca'
      exact hfar e' he' (hid'.resolve_right hx') hx' hi.symm hca' hnear
    · rw [hsame e' he' hx', hkept e hx, hfresh] at hi hnear
      rw [hkept e hx] at hca
      exact hfar e he (hid.resolve_right hx) hx hi hca hnear.symm
    · rw [hkept e hx, hkept e' hx'] at hne hi hnear
      rw [hkept e hx] at hca
      rw [hkept e' hx'] at hca'
      exact h e he e' he' (hid.resolve_right hx) (hid'.resolve_right hx') hne hi hca hca' hnear

/-- The condition of a step asks for a near event where the refresh puts the one that it finds. -/
theorem apart_iff (h : s.Spaced) (hcompleted : s.Completed)
    (hfound : call.found s.db = some existing) (hmem : existing ∈ s.db.watchEvents.rows)
    (hwrites : isUndated call.event = true →
      call.service.refreshEvent call.event call.origin existing ≠ existing) :
    hasNearby (s.others existing.id) existing.mediaItemId
      (call.service.refreshEvent call.event call.origin existing).watchedAt = false ↔
      s.Apart call := by
  have hmoment : (call.service.refreshEvent call.event call.origin existing).watchedAt =
      if isUndated call.event then existing.watchedAt else call.event.watchedAt := rfl
  rw [hmoment]
  cases hundated : isUndated call.event with
  | false =>
    constructor
    · intro hfar existing' hfound'
      obtain rfl := Option.some_inj.1 (hfound.symm.trans hfound')
      exact ⟨fun _ => hfar, fun hundated' =>
        absurd (hundated.symm.trans hundated') Bool.false_ne_true⟩
    · exact fun hapart => (hapart existing hfound).1 hundated
  | true =>
    constructor
    · intro hfar existing' hfound'
      obtain rfl := Option.some_inj.1 (hfound.symm.trans hfound')
      exact ⟨fun hdated => absurd (hdated.symm.trans hundated) Bool.false_ne_true,
        fun _ _ _ => hfar⟩
    · intro hapart
      by_cases hid : existing.id ∈ s.written
      · -- the event stays where it was
        refine hasNearby_others.2 fun e he hid' hne hi hc hnear => ?_
        exact h existing hmem e he hid hid' hne.symm hi.symm (hcompleted existing hmem hid) hc hnear
      · exact (hapart existing hfound).2 hundated (hwrites hundated) hid

end Refresh

/-- One call keeps the events apart exactly when its refresh does. -/
theorem spaced_step (s : Recording) (call : EventCall) (h : s.Spaced) (hcompleted : s.Completed) :
    (s.step call).Spaced ↔ s.Apart call := by
  unfold step
  rcases call.commit_cases s.db with ⟨existing, hfound, hmem, hafter⟩ | ⟨i, hfound, hunknown,
    hstored, hafter⟩ | ⟨hwrites, hfound, hafter⟩
  · have hc := (EventCall.found_eq_some.1 hfound).1
    rw [hafter]
    unfold EventCall.writes
    rw [hfound]
    dsimp only
    split
    next hsame =>
      -- an undated event that says nothing new is not written
      obtain ⟨hundated, hsame⟩ := Bool.and_eq_true_iff.1 hsame
      have hsame : call.service.refreshEvent call.event call.origin existing = existing :=
        of_decide_eq_true hsame
      have hnothing :
          call.service.refreshStored call.event call.origin existing.id s.db = s.db := by
        refine refreshStored_of_same hundated fun e he hid => ?_
        rw [s.db.watchEvents.eq_of_key_eq he hmem hid]
        exact hsame
      rw [hnothing, Option.toList_none, List.append_nil]
      refine iff_of_true h fun existing' hfound' => ?_
      obtain rfl := Option.some_inj.1 (hfound.symm.trans hfound')
      exact ⟨fun hdated => absurd (hdated.symm.trans hundated) Bool.false_ne_true, fun _ hchanged =>
        absurd hsame hchanged⟩
    next hchanged =>
      have hwrites : isUndated call.event = true →
          call.service.refreshEvent call.event call.origin existing ≠ existing :=
        fun hundated hsame => hchanged (Bool.and_eq_true_iff.2 ⟨hundated, decide_eq_true hsame⟩)
      exact (spaced_refresh_iff h hc hmem hwrites).trans
        (apart_iff h hcompleted hfound hmem hwrites)
  · rw [hafter]
    unfold EventCall.writes
    rw [hfound, hunknown]
    refine iff_of_true (spaced_record h hstored) fun existing hfound' => ?_
    cases hfound.symm.trans hfound'
  · rw [hafter, hwrites, Option.toList_none, List.append_nil]
    refine iff_of_true h fun existing hfound' => ?_
    cases hfound.symm.trans hfound'

theorem completed_step (s : Recording) (call : EventCall) (h : s.Completed) :
    (s.step call).Completed := by
  unfold step Completed
  rcases call.commit_cases s.db with ⟨existing, hfound, hmem, hafter⟩ | ⟨i, hfound, hunknown, -,
    hafter⟩ | ⟨hwrites, -, hafter⟩
  · have hc := (EventCall.found_eq_some.1 hfound).1
    rw [hafter]
    intro a ha hid
    obtain ⟨e, he, rfl⟩ :=
      List.mem_map.1 ((@rows_saveRefresh call.service call.event call.origin s.db existing.id) ▸ ha)
    rw [refreshRow_id] at hid
    unfold refreshRow
    split
    next => exact hc
    next hother =>
      refine h e he ((List.mem_append.1 hid).resolve_right fun hnew => hother ?_)
      -- an event that is written is refreshed
      unfold EventCall.writes at hnew
      rw [hfound] at hnew
      dsimp only at hnew
      split at hnew
      · cases hnew
      next hchanged =>
        have hsame : e = existing :=
          s.db.watchEvents.eq_of_key_eq he hmem (List.mem_singleton.1 hnew)
        rw [hsame]
        rw [beq_self_eq_true, Bool.true_and]
        cases hundated : isUndated call.event with
        | true => simpa [hundated] using hchanged
        | false => rfl
  · have hc := (EventCall.unknownTo_eq_some.1 hunknown).1
    have hwrites : call.writes s.db = some s.db.watchEvents.nextId := by
      unfold EventCall.writes
      rw [hfound, hunknown]
      rfl
    rw [hafter, hwrites]
    intro e he hid
    rcases mem_recordEvent.1 he with hmem | rfl
    · exact h e hmem ((List.mem_append.1 hid).resolve_right fun hnew =>
        (Table.key_lt_nextId hmem).ne (List.mem_singleton.1 hnew))
    · exact hc
  · rw [hafter, hwrites, Option.toList_none, List.append_nil]
    exact h

/-- A call that succeeded leaves an event under the id that it gives, and not an undated one,
exactly when it is not quiet. -/
theorem rewrites_iff {b : Bool} {db' : Database}
    (h : EventOutcome call.service call.event call.origin s.db b db') :
    (∃ e, Rewrites call.service call.event db' e) ↔ ¬ s.Quiet call := by
  unfold Quiet Rewrites
  cases h with
  | incomplete hopen =>
    have hfound : call.found s.db = none := if_neg (by simp [hopen])
    have hunknown : call.unknownTo s.db = none := if_neg (by simp [hopen])
    simp [hopen, hfound, hunknown]
  | refreshed r existing hc hr hknown hitem hfree =>
    have hfound : call.found s.db = some existing :=
      EventCall.found_eq_some.2 ⟨hc, r, hr, hknown, hitem, hfree⟩
    have hid : call.event.sourceEventId ≠ none := by
      obtain ⟨text, htext, -⟩ := Option.bind_eq_some_iff.1 hknown
      simp [htext]
    simp [hc, hfound, hid, (@known_after_refresh _ _ call.origin _ existing hknown hfree).1]
  | recognised r hc hr hknown hstored =>
    have hfound : call.found s.db = none := by
      refine Option.eq_none_iff_forall_ne_some.2 fun existing hfound => ?_
      obtain ⟨-, r', -, hknown', -⟩ := EventCall.found_eq_some.1 hfound
      cases hknown.symm.trans hknown'
    have hunknown : call.unknownTo s.db = none := by
      refine Option.eq_none_iff_forall_ne_some.2 fun i hunknown => ?_
      obtain ⟨-, r', hr', -, hstored', -⟩ := EventCall.unknownTo_eq_some.1 hunknown
      obtain rfl := Option.some_inj.1 (hr.symm.trans hr')
      exact hstored' hstored
    simp [hknown, hfound, hunknown]
  | recorded r hc hr hknown hstored =>
    have hunknown : call.unknownTo s.db = some r.mediaItemId :=
      EventCall.unknownTo_eq_some.2 ⟨hc, r, hr, hknown, hstored, rfl⟩
    have hafter := (@known_after_record _ _ call.origin _ r.mediaItemId hknown hstored).1
    cases hid : call.event.sourceEventId with
    | none => simp [hafter, hid]
    | some text => simp [hc, hafter, hid, hunknown]

/-- A call that does not succeed is quiet. -/
theorem returns_of_not_quiet (h : ¬ s.Quiet call) :
    ∃ b s', (call.service.persistEvent call.event call.origin).Returns ⟨s.db, call.cache⟩ b s' := by
  unfold Quiet at h
  push Not at h
  cases hfound : call.found s.db with
  | some existing =>
    obtain ⟨hc, r, hr, hknown, hitem, hfree⟩ := EventCall.found_eq_some.1 hfound
    exact ⟨_, ⟨_, _⟩, returns_persistEvent.2 ⟨.refreshed r existing hc hr hknown hitem hfree, rfl⟩⟩
  | none =>
    obtain ⟨i, hunknown⟩ := Option.ne_none_iff_exists'.1 (h.2.2 hfound)
    obtain ⟨hc, r, hr, hknown, hstored, rfl⟩ := EventCall.unknownTo_eq_some.1 hunknown
    exact ⟨_, ⟨_, _⟩, returns_persistEvent.2 ⟨.recorded r hc hr hknown hstored, rfl⟩⟩

end Recording

/-- What a call leaves that repeats one that succeeded: everything as it was, but for `updated_at`
of a dated event. -/
theorem repeated_call (call : EventCall) {s : Recording} {b : Bool} {s' : PersistSession}
    (hrun : (call.service.persistEvent call.event call.origin).Returns ⟨s.db, call.cache⟩ b s')
    (now : Time) (cache : List CacheKey) :
    ∃ after, ({ call.service with now := now }.persistEvent call.event call.origin).Returns
      ⟨s'.store, cache⟩ false ⟨after, cache⟩ ∧
      (after = s'.store ∨ ∃ i, after = touchWatchEvent now i s'.store) := by
  obtain ⟨after, hout, hafter⟩ := repeat_persistEvent (returns_persistEvent.1 hrun).1 now
  refine ⟨after, returns_persistEvent.2 ⟨hout, rfl⟩, ?_⟩
  rcases hafter with ⟨-, rfl⟩ | ⟨e, -, rfl⟩
  exacts [.inl rfl, .inr ⟨e.id, rfl⟩]

/-- The repetition of a call that succeeded changes nothing, exactly when the call is quiet. -/
theorem repeat_changes_nothing_iff (call : EventCall) {s : Recording} {b : Bool}
    {s' : PersistSession}
    (hrun : (call.service.persistEvent call.event call.origin).Returns ⟨s.db, call.cache⟩ b s') :
    (∀ now cache, ({ call.service with now := now }.persistEvent call.event call.origin).Returns
      ⟨s'.store, cache⟩ false
      ⟨s'.store, cache⟩) ↔ s.Quiet call := by
  have hout := (returns_persistEvent.1 hrun).1
  constructor
  · intro h
    by_contra hquiet
    obtain ⟨e, he⟩ := (Recording.rewrites_iff hout).2 hquiet
    -- at another moment than the row says
    obtain ⟨after, hagain, hafter⟩ := repeat_persistEvent hout (e.updatedAt + 1)
    have hsame : after = s'.store := by
      have hrun' := @returns_persistEvent { call.service with now := e.updatedAt + 1 } call.event
        call.origin ⟨s'.store, []⟩ ⟨after, []⟩
        false
      have hends := (hrun'.2 ⟨hagain, rfl⟩).symm.trans (h (e.updatedAt + 1) [])
      exact congrArg (fun ended => ended.2.store) hends
    rcases hafter with ⟨hnone, -⟩ | ⟨e', he', htouched⟩
    · exact hnone e he
    · obtain rfl := Option.some_inj.1 (he.2.2.symm.trans he'.2.2)
      exact touchWatchEvent_ne (mem_of_knownEvent he.2.2).1 (htouched.symm.trans hsame)
  · intro hquiet now cache
    obtain ⟨after, hagain, ⟨-, rfl⟩ | ⟨e, he, -⟩⟩ := repeat_persistEvent hout now
    · exact returns_persistEvent.2 ⟨hagain, rfl⟩
    · exact absurd hquiet ((Recording.rewrites_iff hout).1 ⟨e, he⟩)

/-- In a run of any calls, the repetition of a call that succeeded writes `updated_at` of one event
at most. It writes nothing exactly when every call is quiet, and the events written stay apart in
every state reached exactly when every call that finds its event by its id puts it away from the
others. -/
theorem recorded_once_iff (db : Database) (calls : List EventCall) :
    (∀ pre call, pre ++ [call] <+: calls → ∀ b s,
      (call.service.persistEvent call.event call.origin).Returns
        ⟨(pre.foldl Recording.step ⟨db, []⟩).db, call.cache⟩ b s →
        ∀ now cache, ∃ after,
          ({ call.service with now := now }.persistEvent call.event call.origin).Returns
            ⟨s.store, cache⟩ false ⟨after, cache⟩ ∧
            (after = s.store ∨ ∃ i, after = touchWatchEvent now i s.store)) ∧
      ((∀ pre call, pre ++ [call] <+: calls → ∀ b s,
        (call.service.persistEvent call.event call.origin).Returns
          ⟨(pre.foldl Recording.step ⟨db, []⟩).db, call.cache⟩ b s →
          ∀ now cache, ({ call.service with now := now }.persistEvent call.event
            call.origin).Returns ⟨s.store, cache⟩ false
            ⟨s.store, cache⟩) ↔ Along Recording.step Recording.Quiet ⟨db, []⟩ calls) ∧
      ((∀ pre, pre <+: calls → (pre.foldl Recording.step ⟨db, []⟩).Spaced) ↔
        Along Recording.step Recording.Apart ⟨db, []⟩ calls) := by
  refine ⟨fun pre call _ b s hrun => repeated_call call hrun, ?_, ?_⟩
  · rw [Along.iff_forall_prefix]
    refine forall_congr' fun pre => forall_congr' fun call => imp_congr_right fun _ => ?_
    constructor
    · intro h
      by_contra hquiet
      obtain ⟨b, s, hrun⟩ := Recording.returns_of_not_quiet hquiet
      exact hquiet ((repeat_changes_nothing_iff call hrun).1 (h b s hrun))
    · exact fun hquiet b s hrun => (repeat_changes_nothing_iff call hrun).2 hquiet
  · have hstart : Recording.Spaced ⟨db, []⟩ ∧ Recording.Completed ⟨db, []⟩ :=
      ⟨fun e _ e' _ hid => (by cases hid), fun e _ hid => (by cases hid)⟩
    have hall : Along Recording.step (fun _ _ => True) ⟨db, []⟩ calls :=
      Along.iff_forall_prefix.2 fun _ _ _ => trivial
    have hsound : ∀ s : Recording, s.Spaced ∧ s.Completed → s.Spaced := fun s h => h.1
    refine Along.iff_property hsound (fun s call h _ hapart => ?_)
      (fun s call h hspaced => ?_) hstart hall
    · exact ⟨(Recording.spaced_step s call h.1 h.2).2 hapart, Recording.completed_step s call h.2⟩
    · exact (Recording.spaced_step s call h.1 h.2).1 hspaced

/-- A source whose digests tell moments apart. -/
def datedService : MediaPersistenceService :=
  { plainService 1 with dumpsEvent := fun payload => payload.watchedAt }

/-- Two plays of one item, and then the server moves the first one next to the second. -/
def movedPlay : List EventCall :=
  [{ service := datedService, event := playedAt "x" 0 },
    { service := datedService, event := playedAt "y" (Time.minutes 10) },
    { service := datedService, event := playedAt "x" (Time.minutes 9) }]

theorem moved_play_collides : ¬ (movedPlay.foldl Recording.step ⟨onTwoServers, []⟩).Spaced := by
  intro h
  have hpair : (movedPlay.foldl Recording.step ⟨onTwoServers, []⟩).db.watchEvents.rows.map
      (fun e => (e.id, e.mediaItemId, e.watchedAt, e.completed)) =
        [(1, 1, Time.minutes 9, true), (2, 1, Time.minutes 10, true)] := by
    decide +kernel
  have hwritten : (movedPlay.foldl Recording.step ⟨onTwoServers, []⟩).written = [1, 2, 1] := by
    decide +kernel
  generalize movedPlay.foldl Recording.step ⟨onTwoServers, []⟩ = s at h hpair hwritten
  obtain ⟨e, l, hrows, he, hl⟩ := List.map_eq_cons_iff.1 hpair
  obtain ⟨e', l', hl', he', -⟩ := List.map_eq_cons_iff.1 hl
  simp only [Prod.mk.injEq] at he he'
  refine h e (by simp [hrows]) e' (by simp [hrows, hl']) (by simp [hwritten, he])
    (by simp [hwritten, he']) (by omega)
    (by omega) he.2.2.2 he'.2.2.2 ?_
  rw [he.2.2.1, he'.2.2.1]
  exact ⟨by decide, by decide⟩

end Euvieouvi
