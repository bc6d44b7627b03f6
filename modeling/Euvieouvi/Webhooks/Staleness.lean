import Euvieouvi.Webhooks.NowPlaying

/-!
# Playbacks that are taken for stale

`_webhook_activity` (`web/routes.py`) deactivates the playbacks whose stop was lost: the active rows
whose `occurred_at` is over an hour old. That column keeps the time of the activity that opened the
playback, whatever the server reports later, so a playback of more than an hour is deactivated while
it still reports (`reporting_playback_deactivated`). `openedAt` reads the opening time off the
activities and views alone, and `deactivates_only_silent` says when the views are right.
-/

namespace Euvieouvi

def Time.hour : Time := 60 * 60 * 1000000

inductive ActivityOp
  | activity (receivedAt : Time) (call : WebhookCall)
  | view (now : Time)

namespace WebhookEvents

/-- `occurred_at < now - timedelta(hours=1)`, for an active row. -/
def stale (now : Time) (r : WebhookEvent) : Bool :=
  r.active && decide (r.occurredAt < now - Time.hour)

/-- The writes of `_webhook_activity`. -/
def webhookActivity (now : Time) (events : WebhookEvents) : WebhookEvents :=
  events.close (stale now)

end WebhookEvents

namespace ActivityOp

def step (unescape : String → String) (events : WebhookEvents) : ActivityOp → WebhookEvents
  | activity _ call => call.record unescape events
  | view now => events.webhookActivity now

def run (unescape : String → String) (ops : List ActivityOp) : WebhookEvents :=
  ops.foldl (step unescape) .empty

variable {unescape : String → String} {source : Nat} {user : Option String} {item : String}

/-- The operation reports that the user plays the item. -/
def Reports (source : Nat) (user : Option String) (item : String) (receivedAt : Time) :
    ActivityOp → Prop
  | activity received call =>
    received = receivedAt ∧ call.report.Of source user ∧ call.report.event.active = true ∧
      call.report.externalId = item
  | view _ => False

/-- No start, resume or progress of the playback was received during the hour before `now`. -/
def Silent (source : Nat) (user : Option String) (item : String) (now : Time)
    (ops : List ActivityOp) : Prop :=
  ∀ op ∈ ops, ∀ received, op.Reports source user item received → received < now - Time.hour

/-- One operation's effect on the opening time of a playback: a report opens it unless it is open,
an end or a start of something else closes it, and so does a view over an hour after it was
opened. -/
def opens (source : Nat) (user : Option String) (item : String) (opened : Option Time) :
    ActivityOp → Option Time
  | activity _ call =>
    if call.report.Of source user then
      if call.report.event.active then
        if call.report.externalId = item then some (opened.getD call.report.occurredAt) else none
      else if call.report.externalId = item then none else opened
    else opened
  | view now => opened.filter fun time => !decide (time < now - Time.hour)

/-- When the playback of the item that is going on was opened. -/
def openedAt (source : Nat) (user : Option String) (item : String) (ops : List ActivityOp) :
    Option Time :=
  ops.foldl (opens source user item) none

/-- The opening time that the rows of a user give. -/
def openingOf (item : String) (playing : List WebhookEvent) : Option Time :=
  (playing.find? fun r => r.externalId == item).map (·.occurredAt)

structure Opens (ops : List ActivityOp) (events : WebhookEvents) : Prop where
  exclusive : events.Exclusive
  rows : ∀ source user, events.playing source user = [] ∨ ∃ r, events.playing source user = [r]
  opened : ∀ source user item,
    openedAt source user item ops = openingOf item (events.playing source user)

theorem opens_nil : Opens [] .empty where
  exclusive := by intro r hr; cases hr
  rows _ _ := .inl rfl
  opened _ _ _ := rfl

theorem openedAt_snoc (ops : List ActivityOp) (op : ActivityOp) :
    openedAt source user item (ops ++ [op]) =
      opens source user item (openedAt source user item ops) op := by
  rw [openedAt, List.foldl_append]; rfl

theorem openingOf_singleton (r : WebhookEvent) :
    openingOf item [r] = if r.externalId = item then some r.occurredAt else none := by
  rw [openingOf, List.find?_singleton]
  by_cases h : r.externalId = item <;> simp [h]

theorem openingOf_filter_ne (other : String) (rows : List WebhookEvent) :
    openingOf item (rows.filter fun r => r.externalId != other) = if other =
      item then none else openingOf item rows := by
  rw [openingOf, List.find?_filter]
  split
  next heq =>
    subst heq
    rw [Option.map_eq_none_iff, List.find?_eq_none]
    intro r _ hr
    simp at hr
  next hne =>
    rw [openingOf]
    congr 2
    funext r
    by_cases hitem : r.externalId = item
    · simp [hitem, Ne.symm hne]
    · simp [hitem]

namespace Opens
variable {ops : List ActivityOp} {events : WebhookEvents}

theorem only (h : Opens ops events) {r : WebhookEvent} (hr : r ∈ events.playing source user) :
    events.playing source user = [r] := by
  rcases h.rows source user with hnil | ⟨r', hr'⟩
  · rw [hnil] at hr; cases hr
  · rw [hr'] at hr
    rw [hr', List.mem_singleton.1 hr]

/-- A row that goes on keeps its time; a new one has that of its activity. -/
theorem started (h : Opens ops events) (unescape : String → String) (call : WebhookCall)
    (hactive : call.report.event.active = true) :
    ∃ r, (call.record unescape events).playing call.report.sourceId call.report.playbackUser = [r] ∧
      r.externalId = call.report.externalId ∧
      r.occurredAt =
        (openedAt call.report.sourceId call.report.playbackUser call.report.externalId ops).getD
          call.report.occurredAt := by
  cases hcurrent : events.current call.report.activity with
  | none =>
    refine ⟨_, WebhookEvents.playing_started h.exclusive hactive hcurrent, rfl, ?_⟩
    have hnew : openedAt call.report.sourceId call.report.playbackUser call.report.externalId
        ops = none := by
      rw [h.opened, openingOf, Option.map_eq_none_iff, List.find?_eq_none]
      intro r hr hitem
      obtain ⟨r', hr'⟩ := WebhookEvents.current_isSome hactive hr (eq_of_beq hitem)
      rw [hcurrent] at hr'
      cases hr'
    rw [hnew]
    rfl
  | some r =>
    obtain ⟨-, hr, hitem⟩ := WebhookEvents.mem_of_current hcurrent
    refine ⟨_, WebhookEvents.playing_continued hcurrent (h.only hr), hitem, ?_⟩
    rw [h.opened, h.only hr, openingOf_singleton, if_pos hitem]
    rfl

theorem recorded (h : Opens ops events) (received : Time) (call : WebhookCall) :
    Opens (ops ++ [activity received call]) (call.record unescape events) := by
  refine ⟨WebhookEvents.exclusive_record h.exclusive, fun source user => ?_,
    fun source user item => ?_⟩
  · by_cases hof : call.report.Of source user
    · obtain ⟨rfl, rfl⟩ := hof
      cases hactive : call.report.event.active with
      | true =>
        obtain ⟨r, hr, -⟩ := h.started unescape call hactive
        exact .inr ⟨r, hr⟩
      | false =>
        rw [WebhookCall.record, WebhookEvents.playing_ended h.exclusive hactive]
        exact WebhookEvents.filter_only _ (h.rows _ _)
    · rw [WebhookCall.record, WebhookEvents.playing_other h.exclusive hof]
      exact h.rows source user
  · rw [openedAt_snoc, opens]
    by_cases hof : call.report.Of source user
    · rw [if_pos hof]
      obtain ⟨rfl, rfl⟩ := hof
      cases hactive : call.report.event.active with
      | true =>
        obtain ⟨r, hr, hitem, htime⟩ := h.started unescape call hactive
        rw [if_pos rfl, hr, openingOf_singleton, hitem]
        split
        next heq => rw [htime, ← heq]
        next => rfl
      | false =>
        rw [if_neg Bool.false_ne_true, WebhookCall.record,
          WebhookEvents.playing_ended h.exclusive hactive,
          openingOf_filter_ne, h.opened]
    · rw [if_neg hof, WebhookCall.record, WebhookEvents.playing_other h.exclusive hof]
      exact h.opened source user item

theorem viewed (h : Opens ops events) (now : Time) :
    Opens (ops ++ [view now]) (events.webhookActivity now) := by
  refine ⟨WebhookEvents.exclusive_close _ h.exclusive, fun source user => ?_,
    fun source user item => ?_⟩
  · rw [WebhookEvents.webhookActivity, WebhookEvents.playing_close]
    exact WebhookEvents.filter_only _ (h.rows _ _)
  · rw [openedAt_snoc, opens, h.opened, WebhookEvents.webhookActivity, WebhookEvents.playing_close]
    rcases h.rows source user with hnil | ⟨r, hr⟩
    · rw [hnil]; rfl
    · have hactive : r.active = true :=
        (WebhookEvents.mem_playing.1 (hr ▸ List.mem_singleton_self r)).2.2.1
      have hstale : WebhookEvents.stale now r = decide (r.occurredAt < now - Time.hour) := by
        rw [WebhookEvents.stale, hactive, Bool.true_and]
      rw [hr, openingOf_singleton, List.filter_cons, hstale]
      by_cases hitem : r.externalId = item
      · rw [if_pos hitem, Option.filter_some]
        cases decide (r.occurredAt < now - Time.hour) with
        | false => simp [openingOf, hitem]
        | true => simp [openingOf]
      · rw [if_neg hitem, Option.filter_none]
        cases decide (r.occurredAt < now - Time.hour) with
        | false => simp [openingOf, hitem]
        | true => simp [openingOf]

theorem step (h : Opens ops events) (op : ActivityOp) :
    Opens (ops ++ [op]) (op.step unescape events) := by
  cases op with
  | activity received call => exact h.recorded received call
  | view now => exact h.viewed now

end Opens

theorem opens_run (unescape : String → String) (ops : List ActivityOp) :
    Opens ops (run unescape ops) := by
  induction ops using List.reverseRecOn with
  | nil => exact opens_nil
  | append_singleton ops op ih =>
    rw [run, List.foldl_append]
    exact ih.step op

/-- The view at `now` deactivates the row with this id. -/
def Deactivates (unescape : String → String) (ops : List ActivityOp) (now : Time)
    (r : WebhookEvent) : Prop :=
  r ∈ (run unescape ops).rows ∧ r.active = true ∧
    ∃ r' ∈ (run unescape (ops ++ [view now])).rows, r'.id = r.id ∧ r'.active = false

theorem deactivates_iff {ops : List ActivityOp} {now : Time} {r : WebhookEvent} :
    Deactivates unescape ops now r ↔
      r ∈ (run unescape ops).rows ∧ r.active = true ∧ r.occurredAt < now - Time.hour := by
  have hrun : run unescape (ops ++ [view now]) = (run unescape ops).webhookActivity now := by
    rw [run, List.foldl_append]; rfl
  rw [Deactivates, hrun]
  refine and_congr_right fun hr => and_congr_right fun hactive => ?_
  have hstale : WebhookEvents.stale now r = true ↔ r.occurredAt < now - Time.hour := by
    rw [WebhookEvents.stale, hactive, Bool.true_and, decide_eq_true_iff]
  rw [← hstale]
  constructor
  · rintro ⟨r', hr', hid, hended⟩
    obtain ⟨r'', hr'', rfl⟩ := Table.mem_update.1 hr'
    have hsame : r'' = r := Table.eq_of_key_eq _ hr'' hr (by split at hid <;> exact hid)
    subst hsame
    by_contra hstale
    rw [if_neg hstale, hactive] at hended
    cases hended
  · intro hstale
    exact ⟨_, Table.mem_update.2 ⟨r, hr, rfl⟩, by rw [if_pos hstale], by rw [if_pos hstale]⟩

/-- The views of a sequence deactivate silent playbacks only, exactly when at every view each
playback that goes on was opened within the hour or has been silent for one. -/
theorem deactivates_only_silent (unescape : String → String) (ops : List ActivityOp) :
    (∀ before now, before ++ [view now] <+: ops → ∀ r, Deactivates unescape before now r →
        Silent r.sourceId r.playbackUser r.externalId now before) ↔
      ∀ before now, before ++ [view now] <+: ops → ∀ source user item,
        ∀ opening ∈ openedAt source user item before,
        opening < now - Time.hour → Silent source user item now before := by
  refine forall_congr' fun before => forall_congr' fun now => imp_congr_right fun _ => ?_
  have h := opens_run unescape before
  constructor
  · intro hsilent source user item opening hopening hold
    rw [h.opened, Option.mem_def, openingOf, Option.map_eq_some_iff] at hopening
    obtain ⟨r, hfind, rfl⟩ := hopening
    obtain ⟨hr, hsource, hactive, huser⟩ :=
      WebhookEvents.mem_playing.1 (List.mem_of_find?_eq_some hfind)
    have hitem : r.externalId = item := eq_of_beq (List.find?_some hfind :)
    rw [← hsource, ← huser, ← hitem]
    exact hsilent r (deactivates_iff.2 ⟨hr, hactive, hold⟩)
  · intro hsilent r hr
    obtain ⟨hr, hactive, hold⟩ := deactivates_iff.1 hr
    refine hsilent _ _ _ r.occurredAt ?_ hold
    rw [h.opened, h.only (WebhookEvents.mem_playing.2 ⟨hr, rfl, hactive, rfl⟩),
      openingOf_singleton, if_pos rfl]
    rfl

def startAt (time : Time) : ActivityOp :=
  .activity time
    ⟨{ sourceId := 1, externalId := "film", event := .playbackStart, occurredAt := time }, 20⟩

def progressAt (time : Time) : ActivityOp :=
  .activity time
    ⟨{ sourceId := 1, externalId := "film", event := .playbackProgress, occurredAt := time }, 20⟩

/-- A view 70 minutes after the start ends a playback that reported its progress 10 minutes
before. -/
theorem reporting_playback_deactivated :
    ¬ ∀ ops before now, before ++ [view now] <+: ops → ∀ r, Deactivates id before now r →
        Silent r.sourceId r.playbackUser r.externalId now before := by
  intro h
  let before := [startAt 0, progressAt (Time.minutes 60)]
  have hrow : (run id before).rows.head? = some
      { id := 1, sourceId := 1, externalId := "film", occurredAt := 0, active := true,
        eventType := "playbackprogress" } := by
    decide +kernel
  have hdeactivates : Deactivates id before (Time.minutes 70) _ :=
    deactivates_iff.2 ⟨List.mem_of_mem_head? hrow, rfl, by decide⟩
  have hsilent := h (before ++ [view (Time.minutes 70)]) before (Time.minutes 70)
    (List.prefix_refl _) _ hdeactivates
  exact absurd (hsilent (progressAt (Time.minutes 60)) (by simp [before]) (Time.minutes 60)
    ⟨rfl, ⟨rfl, rfl⟩, rfl, rfl⟩)
    (by decide)

end ActivityOp

end Euvieouvi
