import Euvieouvi.Database
import Mathlib.Data.List.Sort

/-!
# Webhook activity

`_record_webhook_activity` and `_prune_webhook_events` (`web/routes.py`). One table serves the
activity view and keeps the completions of items that are not cataloged yet; each completion deletes
those beyond the limit of the view. `unescape` is `html.unescape`, and `parseDigits` gives the value
of a text for which `str.isdigit` holds.
-/

namespace Euvieouvi

/-- The arguments of `_record_webhook_activity`. -/
structure WebhookActivity where
  sourceId : Nat
  externalId : String
  title : String := ""
  playbackUser : Option String := none
  seriesTitle : Option String := none
  mediaKind : Option String := none
  eventType : String := ""
  occurredAt : Time
  progressPercent : Option Int := none
  completed : Bool := false
  active : Bool := false
  eventKey : Option String := none
deriving DecidableEq, Repr

/-- `text[:n]`. -/
def firstChars (n : Nat) (text : String) : String := String.ofList (text.toList.take n)

/-- `r` comes before `r'` in the activity view. -/
def WebhookEvent.newer (r r' : WebhookEvent) : Prop :=
  r'.occurredAt < r.occurredAt ∨ r.occurredAt = r'.occurredAt ∧ r'.id ≤ r.id

instance decidableWebhookNewer (r r' : WebhookEvent) :
    Decidable (r.newer r') := by unfold WebhookEvent.newer; infer_instance

abbrev WebhookEvents := Table WebhookEvent.id

namespace WebhookActivity
variable (a : WebhookActivity) (unescape : String → String)

/-- The text fields of a row. -/
def describe (r : WebhookEvent) : WebhookEvent :=
  { r with
    playbackUser := (a.playbackUser.filter (· ≠ "")).map (firstChars 255)
    title := firstChars 500 (unescape a.title)
    seriesTitle := ((a.seriesTitle.filter (· ≠ "")).map fun title => unescape title).filter
      (· ≠ "") |>.map (firstChars 500)
    mediaKind := (a.mediaKind.filter (· ≠ "")).map (firstChars 32)
    eventType := firstChars 32 a.eventType }

def row (id : Nat) : WebhookEvent :=
  a.describe unescape
    { id := id
      sourceId := a.sourceId
      externalId := a.externalId
      occurredAt := a.occurredAt
      completed := a.completed
      active := a.active
      eventKey := a.eventKey
      progressPercent := a.progressPercent }

/-- The assignments to the row of a playback that goes on. -/
def continued : Assignment WebhookEvent.id where
  apply r := a.describe unescape { r with
    eventKey := (a.eventKey.filter (· ≠ "")).or r.eventKey
    progressPercent := a.progressPercent.or r.progressPercent }

def sameUser (r : WebhookEvent) : Bool :=
  r.sourceId == a.sourceId && r.active && r.playbackUser == a.playbackUser

def matching (r : WebhookEvent) : Bool := a.sameUser r && r.externalId == a.externalId

end WebhookActivity

namespace WebhookEvents

/-- `max(matching, key=lambda row: (row.occurred_at, row.id))`. -/
def latest (rows : List WebhookEvent) : Option WebhookEvent :=
  (rows.insertionSort WebhookEvent.newer).head?

/-- The completions that the activity view shows. -/
def retained (limit : Nat) (events : WebhookEvents) : List WebhookEvent :=
  ((events.rows.filter (·.completed)).insertionSort WebhookEvent.newer).take limit

/-- `_prune_webhook_events`. -/
def prune (limit : Nat) (events : WebhookEvents) : WebhookEvents :=
  events.delete fun r => r.completed && !(events.retained limit).any (·.id == r.id)

def close (p : WebhookEvent → Bool) (events : WebhookEvents) : WebhookEvents :=
  events.update p ⟨fun r => { r with active := false }, fun _ => rfl⟩

variable (unescape : String → String) (limit : Nat) (a : WebhookActivity)

/-- The playback of the activity, if it goes on. -/
def current (events : WebhookEvents) : Option WebhookEvent :=
  if a.active then latest (events.rows.filter a.matching) else none

/-- The activity gets a row of its own. -/
def adds (events : WebhookEvents) : Bool :=
  (events.current a).isNone &&
    (a.active || a.completed || a.eventType ∈ ["media.stop", "media.scrobble"])

/-- The rows that end before a new row is added. -/
def closed (events : WebhookEvents) : WebhookEvents :=
  events.close (if a.active then a.sameUser else a.matching)

def added (events : WebhookEvents) : WebhookEvents :=
  (events.closed a).insert (a.row unescape (events.closed a).nextId)

/-- `_record_webhook_activity`. -/
def recordWebhookActivity (events : WebhookEvents) : WebhookEvents :=
  match events.current a with
  | some current =>
    (events.close fun r => a.sameUser r && r.id != current.id).update (·.id == current.id)
      (a.continued unescape)
  | none =>
    if events.adds a then
      if a.completed then (events.added unescape a).prune limit else events.added unescape a
    else events.closed a

/-! ### A completion that stays -/

/-- A completion of the source for the item at that time. -/
structure Completion where
  id : Nat
  sourceId : Nat
  externalId : String
  occurredAt : Time
deriving DecidableEq

def Completion.IsOf (w : Completion) (r : WebhookEvent) : Prop :=
  r.id = w.id ∧ r.sourceId = w.sourceId ∧ r.externalId = w.externalId ∧
    r.occurredAt = w.occurredAt ∧ r.completed = true

def Holds (w : Completion) (events : WebhookEvents) : Prop := ∃ r ∈ events.rows, w.IsOf r

variable {unescape limit a} {events : WebhookEvents} {w : Completion}

theorem holds_update {p : WebhookEvent → Bool} {f : Assignment WebhookEvent.id}
    (hf : ∀ r, w.IsOf r → w.IsOf (f r)) (h : Holds w events) : Holds w (events.update p f) := by
  obtain ⟨r, hr, hw⟩ := h
  refine ⟨if p r then f r else r, Table.mem_update.2 ⟨r, hr, rfl⟩, ?_⟩
  split
  · exact hf r hw
  · exact hw

theorem holds_close {p : WebhookEvent → Bool} (h : Holds w events) : Holds w (events.close p) :=
  holds_update (fun _ hr => hr) h

theorem holds_insert {r : WebhookEvent} (h : Holds w events) : Holds w (events.insert r) := by
  obtain ⟨r', hr', hw⟩ := h
  exact ⟨r', Table.mem_insert_of_mem hr', hw⟩

/-- Pruning keeps what the view shows. -/
theorem holds_prune (h : Holds w events)
    (hretained : w.id ∈ (events.retained limit).map WebhookEvent.id) :
    Holds w (events.prune limit) := by
  obtain ⟨r, hr, hw⟩ := h
  obtain ⟨r', hr', hid⟩ := List.mem_map.1 hretained
  refine ⟨r, Table.mem_delete.2 ⟨hr, ?_⟩, hw⟩
  have hany : ((events.retained limit).any fun x => x.id == r.id) = true :=
    List.any_eq_true.2 ⟨r', hr', by rw [hid, hw.1]; exact beq_self_eq_true _⟩
  simp [hany]

/-- The activity pushes no completion `w` out of the view. -/
def Retains (unescape : String → String) (limit : Nat) (a : WebhookActivity) (w : Completion)
    (events : WebhookEvents) : Prop :=
  events.adds a = true → a.completed = true →
    w.id ∈ ((events.added unescape a).retained limit).map WebhookEvent.id

instance : Decidable (Retains unescape limit a w events) := by unfold Retains; infer_instance

theorem holds_recordWebhookActivity (h : Holds w events)
    (hretains : Retains unescape limit a w events) :
    Holds w (events.recordWebhookActivity unescape limit a) := by
  unfold recordWebhookActivity
  split
  · exact holds_update (fun _ hr => hr) (holds_close h)
  · split
    next hadds =>
      have hadded : Holds w (events.added unescape a) := holds_insert (holds_close h)
      split
      next hcompleted => exact holds_prune hadded (hretains hadds hcompleted)
      next => exact hadded
    next => exact holds_close h

/-- The completion that an activity records. -/
def completionOf (a : WebhookActivity) (events : WebhookEvents) : Completion where
  id := (events.closed a).nextId
  sourceId := a.sourceId
  externalId := a.externalId
  occurredAt := a.occurredAt

/-- A recorded completion is stored unless the view is full of newer ones. -/
theorem holds_recorded (hadds : events.adds a = true) (hcompleted : a.completed = true)
    (hretains : Retains unescape limit a (completionOf a events) events) :
    Holds (completionOf a events) (events.recordWebhookActivity unescape limit a) := by
  have hadded : Holds (completionOf a events) (events.added unescape a) := by
    refine ⟨a.row unescape (events.closed a).nextId, ?_, rfl, rfl, rfl, rfl, hcompleted⟩
    have hfree : (events.closed a).get? (a.row unescape (events.closed a).nextId).id = none :=
      Table.get?_nextId _
    unfold added
    rw [Table.rows_insert_of_get?_none hfree]
    exact List.mem_append_right _ (List.mem_singleton_self _)
  have hnone : events.current a = none := by
    have := (Bool.and_eq_true_iff.1 hadds).1
    simpa using this
  unfold recordWebhookActivity
  simp only [hnone, hadds, hcompleted, if_true]
  exact holds_prune hadded (hretains hadds hcompleted)

end WebhookEvents

end Euvieouvi
