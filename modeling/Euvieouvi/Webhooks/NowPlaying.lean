import Euvieouvi.Webhooks.Activity
import Mathlib.Data.List.Induction

/-!
# What is playing now

The two webhook handlers (`plex_webhook`, `jellyfin_webhook`) pass each playback event to
`_record_webhook_activity`. `StillPlaying` says which activity a server last reported for a user and
has not ended, and `Shows` that the active rows of a user of a source are that activity's row and no
other.
-/

namespace Euvieouvi

/-- The events that a handler does not ignore. -/
inductive PlaybackEvent
  | mediaPlay | mediaResume | mediaPause | mediaStop | mediaScrobble
  | playbackStart | playbackProgress | playbackStop
deriving DecidableEq, Repr

namespace PlaybackEvent

def eventType : PlaybackEvent → String
  | mediaPlay => "media.play"
  | mediaResume => "media.resume"
  | mediaPause => "media.pause"
  | mediaStop => "media.stop"
  | mediaScrobble => "media.scrobble"
  | playbackStart => "playbackstart"
  | playbackProgress => "playbackprogress"
  | playbackStop => "playbackstop"

/-- `event_type in {"media.play", "media.resume"}`,
`notification_type in {"playbackstart", "playbackprogress"}`. -/
def active : PlaybackEvent → Bool
  | mediaPlay | mediaResume | playbackStart | playbackProgress => true
  | mediaPause | mediaStop | mediaScrobble | playbackStop => false

/-- The events whose handler may set `completed`. -/
def mayComplete : PlaybackEvent → Bool
  | mediaStop | mediaScrobble | playbackStop => true
  | mediaPlay | mediaResume | mediaPause | playbackStart | playbackProgress => false

theorem not_mayComplete : ∀ {e : PlaybackEvent}, e.active = true → e.mayComplete = false
  | mediaPlay, _ | mediaResume, _ | playbackStart, _ | playbackProgress, _ => rfl

end PlaybackEvent

/-- What a handler passes to `_record_webhook_activity`. A user without a name is `None`, and a name
fits its column. -/
structure PlaybackReport where
  sourceId : Nat
  externalId : String
  title : String := ""
  playbackUser : Option String := none
  seriesTitle : Option String := none
  mediaKind : Option String := none
  event : PlaybackEvent
  occurredAt : Time
  progressPercent : Option Int := none
  completed : Bool := false
  eventKey : Option String := none
  completes : completed = true → event.mayComplete = true := by decide
  named : ∀ name ∈ playbackUser, name ≠ "" ∧ name.length ≤ 255 := by decide

namespace PlaybackReport

def activity (report : PlaybackReport) : WebhookActivity where
  sourceId := report.sourceId
  externalId := report.externalId
  title := report.title
  playbackUser := report.playbackUser
  seriesTitle := report.seriesTitle
  mediaKind := report.mediaKind
  eventType := report.event.eventType
  occurredAt := report.occurredAt
  progressPercent := report.progressPercent
  completed := report.completed
  active := report.event.active
  eventKey := report.eventKey

def Of (source : Nat) (user : Option String) (report : PlaybackReport) : Prop :=
  report.sourceId = source ∧ report.playbackUser = user

instance (source : Nat) (user : Option String) (report : PlaybackReport) :
    Decidable (report.Of source user) :=
  inferInstanceAs (Decidable (_ ∧ _))

variable {report : PlaybackReport} {unescape : String → String}

theorem not_completed (h : report.event.active = true) : report.completed = false := by
  by_contra hc
  rw [Bool.not_eq_false] at hc
  have := report.completes hc
  rw [PlaybackEvent.not_mayComplete h] at this
  cases this

theorem describe_user (r : WebhookEvent) :
    (report.activity.describe unescape r).playbackUser = report.playbackUser := by
  show ((report.playbackUser.filter (· ≠ "")).map (firstChars 255)) = _
  cases h : report.playbackUser with
  | none => rfl
  | some name =>
    obtain ⟨hne, hlen⟩ := report.named name h
    rw [← String.length_toList] at hlen
    simp [Option.filter, hne, firstChars, List.take_of_length_le hlen]

/-- `r` is the row that the activity `report` wrote last. -/
structure IsRow (unescape : String → String) (report : PlaybackReport)
    (r : WebhookEvent) : Prop where
  source : r.sourceId = report.sourceId
  item : r.externalId = report.externalId
  described : report.activity.describe unescape r = r

end PlaybackReport

namespace WebhookEvents
variable {events : WebhookEvents} {source : Nat} {user : Option String}

/-- The row is one of the user's on the source that the activity view shows as playing. -/
def plays (source : Nat) (user : Option String) (r : WebhookEvent) : Bool :=
  r.sourceId == source && r.active && r.playbackUser == user

def playing (source : Nat) (user : Option String) (events : WebhookEvents) : List WebhookEvent :=
  events.rows.filter (plays source user)

theorem plays_iff {r : WebhookEvent} :
    plays source user r = true ↔ r.sourceId = source ∧ r.active = true ∧ r.playbackUser = user := by
  simp [plays, and_assoc]

theorem mem_playing {r : WebhookEvent} :
    r ∈ events.playing source user ↔ r ∈ events.rows ∧ r.sourceId = source ∧ r.active = true ∧
    r.playbackUser = user := by
  rw [playing, List.mem_filter, plays_iff]

/-- A row is not active and completed at once. -/
def Exclusive (events : WebhookEvents) : Prop :=
  ∀ r ∈ events.rows, r.active = true → r.completed = false

theorem playing_prune (limit : Nat) (h : events.Exclusive) :
    (events.prune limit).playing source user = events.playing source user := by
  refine Table.filter_delete fun r hr hdelete => ?_
  by_contra hplays
  rw [Bool.not_eq_false, plays_iff] at hplays
  rw [Bool.and_eq_true, h r hr hplays.2.1] at hdelete
  exact Bool.noConfusion hdelete.1

theorem playing_close (p : WebhookEvent → Bool) :
    (events.close p).playing source user = (events.playing source user).filter fun r => !p r := by
  show ((events.rows.map fun r => if p r then { r with active := false } else r).filter
    (plays source user)) = _
  rw [playing, List.filter_filter]
  induction events.rows with
  | nil => rfl
  | cons r rows ih =>
    rw [List.map_cons, List.filter_cons, List.filter_cons, ih]
    by_cases hp : p r = true
    · simp [hp, plays]
    · simp [hp]

theorem filter_only {rows : List WebhookEvent} (p : WebhookEvent → Bool)
    (h : rows = [] ∨ ∃ r, rows = [r]) :
    rows.filter p = [] ∨ ∃ r, rows.filter p = [r] := by
  rcases h with rfl | ⟨r, rfl⟩
  · exact .inl rfl
  · rw [List.filter_cons]
    split
    · exact .inr ⟨r, rfl⟩
    · exact .inl rfl

theorem exclusive_close (p : WebhookEvent → Bool) (h : events.Exclusive) :
    (events.close p).Exclusive := by
  intro r hr hactive
  obtain ⟨r', hr', rfl⟩ := Table.mem_update.1 hr
  split at hactive
  · cases hactive
  · rw [if_neg ‹_›]; exact h r' hr' hactive

theorem exclusive_prune (limit : Nat) (h : events.Exclusive) : (events.prune limit).Exclusive :=
  fun r hr => h r (Table.mem_delete.1 hr).1

theorem exclusive_insert {r : WebhookEvent} (h : events.Exclusive)
    (hr : r.active = true → r.completed = false) :
    Exclusive (events.insert r) := by
  intro r' hr'
  rcases Table.mem_insert hr' with hr' | rfl
  · exact h r' hr'
  · exact hr

theorem playing_insert {r : WebhookEvent} (hfree : events.get? r.id = none) :
    playing source user (events.insert r) =
      events.playing source user ++ [r].filter (plays source user) := by
  show (events.insert r).rows.filter (plays source user) = _
  rw [Table.rows_insert_of_get?_none hfree, List.filter_append]
  rfl

/-- An update that neither starts nor ends a playback. -/
theorem playing_update {p : WebhookEvent → Bool} {f : Assignment WebhookEvent.id}
    (h : ∀ r ∈ events.rows, p r = true → plays source user (f r) = plays source user r) :
    playing source user (events.update p f) = (events.playing source user).map fun r =>
      if p r then f r else r := by
  show (events.rows.map fun r => if p r then f r else r).filter (plays source user) =
    (events.rows.filter (plays source user)).map fun r => if p r then f r else r
  rw [List.filter_map]
  congr 1
  refine List.filter_congr fun r hr => ?_
  by_cases hp : p r = true
  · simp [hp, h r hr hp]
  · simp [hp]

section
variable {unescape : String → String} {limit : Nat} {report : PlaybackReport}

theorem sameUser_iff {r : WebhookEvent} :
    report.activity.sameUser r = true ↔ plays report.sourceId report.playbackUser r = true := by
  rw [plays_iff]
  simp [WebhookActivity.sameUser, PlaybackReport.activity, and_assoc]

theorem mem_of_current {r : WebhookEvent} (h : events.current report.activity = some r) :
    report.event.active = true ∧ r ∈ events.playing report.sourceId report.playbackUser ∧
      r.externalId = report.externalId := by
  unfold current at h
  split at h
  next hactive =>
    have hmem := List.mem_of_mem_head? h
    rw [List.mem_insertionSort, List.mem_filter] at hmem
    obtain ⟨hr, hmatching⟩ := hmem
    obtain ⟨huser, hitem⟩ := Bool.and_eq_true_iff.1 hmatching
    exact ⟨hactive, List.mem_filter.2 ⟨hr, sameUser_iff.1 huser⟩, eq_of_beq hitem⟩
  next => cases h

theorem current_isSome {r : WebhookEvent} (hactive : report.event.active = true)
    (hr : r ∈ events.playing report.sourceId report.playbackUser)
    (hitem : r.externalId = report.externalId) :
    ∃ r, events.current report.activity = some r := by
  have hmem :
      r ∈ (events.rows.filter report.activity.matching).insertionSort WebhookEvent.newer := by
    rw [List.mem_insertionSort, List.mem_filter]
    refine ⟨(List.mem_filter.1 hr).1,
      Bool.and_eq_true_iff.2 ⟨sameUser_iff.2 (List.mem_filter.1 hr).2, ?_⟩⟩
    exact beq_iff_eq.2 hitem
  unfold current
  rw [if_pos (show report.activity.active = true from hactive), latest]
  cases hlist : (events.rows.filter report.activity.matching).insertionSort WebhookEvent.newer with
  | nil => rw [hlist] at hmem; cases hmem
  | cons r' rest => exact ⟨r', rfl⟩

theorem plays_row (id : Nat) :
    plays source user (report.activity.row unescape id) =
      decide (report.event.active = true ∧ report.Of source user) := by
  rw [Bool.eq_iff_iff, plays_iff, decide_eq_true_iff]
  have huser : (report.activity.row unescape id).playbackUser = report.playbackUser :=
    report.describe_user _
  rw [huser]
  exact ⟨fun ⟨h1, h2, h3⟩ => ⟨h2, h1, h3⟩, fun ⟨h1, h2, h3⟩ => ⟨h2, h1, h3⟩⟩

theorem playing_added :
    (events.added unescape report.activity).playing source user =
      (events.closed report.activity).playing source user ++
        [report.activity.row unescape (events.closed report.activity).nextId].filter
          (plays source user) :=
  playing_insert (Table.get?_nextId _)

theorem exclusive_added (h : events.Exclusive) :
    (events.added unescape report.activity).Exclusive :=
  exclusive_insert (exclusive_close _ h) fun hactive => report.not_completed hactive

/-- Pruning has no part in what plays. -/
theorem playing_record_of_none (h : events.Exclusive)
    (hnone : events.current report.activity = none) :
    (events.recordWebhookActivity unescape limit report.activity).playing source user =
      if events.adds report.activity
        then (events.added unescape report.activity).playing source user
      else (events.closed report.activity).playing source user := by
  unfold recordWebhookActivity
  rw [hnone]
  dsimp only
  split
  · split
    · exact playing_prune limit (exclusive_added h)
    · rfl
  · rfl

theorem playing_record_of_some {r : WebhookEvent}
    (hsome : events.current report.activity = some r) :
    (events.recordWebhookActivity unescape limit report.activity).playing source user =
      ((events.playing source user).filter fun x =>
        !(report.activity.sameUser x && x.id != r.id)).map
        fun x => if x.id == r.id then report.activity.continued unescape x else x := by
  obtain ⟨-, hr, -⟩ := mem_of_current hsome
  have hplays := plays_iff.1 (List.mem_filter.1 hr).2
  unfold recordWebhookActivity
  rw [hsome]
  dsimp only
  rw [playing_update, playing_close]
  intro x hx hid
  obtain ⟨x', hx', rfl⟩ := Table.mem_update.1 hx
  have hid' : x'.id = r.id := by
    have := eq_of_beq hid
    split at this <;> exact this
  obtain rfl : x' = r := events.eq_of_key_eq hx' (List.mem_filter.1 hr).1 hid'
  rw [if_neg (by simp)]
  rw [Bool.eq_iff_iff, plays_iff, plays_iff]
  have huser : (report.activity.continued unescape x').playbackUser = x'.playbackUser :=
    (report.describe_user _).trans hplays.2.2.symm
  rw [huser]
  exact Iff.rfl

theorem exclusive_record (h : events.Exclusive) :
    (events.recordWebhookActivity unescape limit report.activity).Exclusive := by
  unfold recordWebhookActivity
  split
  · intro r hr hactive
    obtain ⟨r', hr', rfl⟩ := Table.mem_update.1 hr
    split at hactive
    · rw [if_pos ‹_›]; exact exclusive_close _ h r' hr' hactive
    · rw [if_neg ‹_›]; exact exclusive_close _ h r' hr' hactive
  · split
    · split
      · exact exclusive_prune limit (exclusive_added h)
      · exact exclusive_added h
    · exact exclusive_close _ h

/-- An activity leaves the playbacks of other users and of other sources as they are. -/
theorem playing_other (h : events.Exclusive) (hother : ¬ report.Of source user) :
    (events.recordWebhookActivity unescape limit report.activity).playing source user =
      events.playing source user := by
  have huser : ∀ r ∈ events.playing source user, report.activity.sameUser r = false := by
    intro r hr
    obtain ⟨-, hs, -, hu⟩ := mem_playing.1 hr
    by_contra hsame
    rw [Bool.not_eq_false, sameUser_iff, plays_iff] at hsame
    exact hother ⟨hsame.1.symm.trans hs, hsame.2.2.symm.trans hu⟩
  have hclosed : (events.closed report.activity).playing source user =
      events.playing source user := by
    unfold closed
    rw [playing_close, List.filter_eq_self]
    intro r hr
    split
    · rw [huser r hr]; rfl
    · rw [WebhookActivity.matching, huser r hr]; rfl
  cases hcurrent : events.current report.activity with
  | none =>
    rw [playing_record_of_none h hcurrent, playing_added, hclosed, List.filter_cons, plays_row,
      decide_eq_false fun hrow => hother hrow.2]
    simp
  | some r =>
    obtain ⟨-, hr, -⟩ := mem_of_current hcurrent
    rw [playing_record_of_some hcurrent, List.filter_eq_self.2 fun x hx => by rw [huser x hx]; rfl]
    refine (List.map_congr_left fun x hx => ?_).trans (List.map_id _)
    refine if_neg fun hid => ?_
    have hsame : x = r :=
      events.eq_of_key_eq (mem_playing.1 hx).1 (mem_playing.1 hr).1 (eq_of_beq hid)
    subst hsame
    exact hother ⟨(mem_playing.1 hr).2.1.symm.trans (mem_playing.1 hx).2.1,
      (mem_playing.1 hr).2.2.2.symm.trans (mem_playing.1 hx).2.2.2⟩

/-- A pause or an end closes the playbacks of its item. -/
theorem playing_ended (h : events.Exclusive) (hended : report.event.active = false) :
    (events.recordWebhookActivity unescape limit report.activity).playing report.sourceId
      report.playbackUser =
      (events.playing report.sourceId report.playbackUser).filter fun r =>
        r.externalId != report.externalId := by
  have hnone : events.current report.activity = none := if_neg (Bool.eq_false_iff.1 hended)
  have hclosed : (events.closed report.activity).playing report.sourceId report.playbackUser =
      (events.playing report.sourceId report.playbackUser).filter fun r =>
        r.externalId != report.externalId := by
    unfold closed
    rw [playing_close,
      if_neg (show ¬ report.activity.active = true from Bool.eq_false_iff.1 hended)]
    refine List.filter_congr fun r hr => ?_
    rw [WebhookActivity.matching, sameUser_iff.2 (List.mem_filter.1 hr).2, Bool.true_and]
    rfl
  rw [playing_record_of_none h hnone, playing_added, hclosed, List.filter_cons, plays_row,
    decide_eq_false fun hrow => absurd (hended.symm.trans hrow.1) (by decide)]
  simp

/-- A start that finds no playback of its item ends the user's others and gets a row. -/
theorem playing_started (h : events.Exclusive) (hactive : report.event.active = true)
    (hnone : events.current report.activity = none) :
    (events.recordWebhookActivity unescape limit report.activity).playing report.sourceId
      report.playbackUser =
      [report.activity.row unescape (events.closed report.activity).nextId] := by
  have hclosed :
      (events.closed report.activity).playing report.sourceId report.playbackUser = [] := by
    unfold closed
    rw [playing_close, if_pos (show report.activity.active = true from hactive),
      List.filter_eq_nil_iff]
    intro r hr
    rw [sameUser_iff.2 (List.mem_filter.1 hr).2]
    decide
  have hadds : events.adds report.activity = true := by
    unfold adds
    rw [hnone, show report.activity.active = true from hactive]
    rfl
  rw [playing_record_of_none h hnone, if_pos hadds, playing_added, hclosed,
    List.filter_cons, plays_row,
    decide_eq_true (show _ ∧ report.Of _ _ from ⟨hactive, rfl, rfl⟩)]
  rfl

/-- An activity of the only playback of its user takes over that playback's row. -/
theorem playing_continued {r : WebhookEvent} (hcurrent : events.current report.activity = some r)
    (honly : events.playing report.sourceId report.playbackUser = [r]) :
    (events.recordWebhookActivity unescape limit report.activity).playing report.sourceId
      report.playbackUser =
      [report.activity.continued unescape r] := by
  rw [playing_record_of_some hcurrent, honly]
  simp

theorem isRow_row (id : Nat) : report.IsRow unescape (report.activity.row unescape id) :=
  ⟨rfl, rfl, rfl⟩

theorem isRow_continued {r : WebhookEvent} (hsource : r.sourceId = report.sourceId)
    (hitem : r.externalId = report.externalId) :
    report.IsRow unescape (report.activity.continued unescape r) :=
  ⟨hsource, hitem, rfl⟩

end

end WebhookEvents

/-! ### Sequences of activities -/

/-- One call of `_record_webhook_activity`, with the history limit it reads. -/
structure WebhookCall where
  report : PlaybackReport
  limit : Nat

namespace WebhookCall

def record (unescape : String → String) (events : WebhookEvents) (call : WebhookCall) :
    WebhookEvents :=
  events.recordWebhookActivity unescape call.limit call.report.activity

def run (unescape : String → String) (calls : List WebhookCall) : WebhookEvents :=
  calls.foldl (record unescape) .empty

/-- `report` started or continued a playback, and since then the user started nothing and ended no
playback of its item. -/
def StillPlaying (report : PlaybackReport) (calls : List WebhookCall) : Prop :=
  ∃ before call after, calls = before ++ call :: after ∧ call.report = report ∧
    report.event.active = true ∧
    ∀ later ∈ after, later.report.Of report.sourceId report.playbackUser →
      later.report.event.active = false ∧ later.report.externalId ≠ report.externalId

variable {unescape : String → String} {source : Nat} {user : Option String}

theorem not_stillPlaying_nil {report : PlaybackReport} : ¬ StillPlaying report [] := by
  rintro ⟨before, call, after, h, -⟩
  simp at h

theorem stillPlaying_snoc {report : PlaybackReport} {calls : List WebhookCall}
    {call : WebhookCall} :
    StillPlaying report (calls ++ [call]) ↔
      call.report = report ∧ report.event.active = true ∨
        StillPlaying report calls ∧ (call.report.Of report.sourceId report.playbackUser →
          call.report.event.active = false ∧ call.report.externalId ≠ report.externalId) := by
  constructor
  · rintro ⟨before, first, after, h, hreport, hactive, hafter⟩
    rcases List.eq_nil_or_concat after with rfl | ⟨after, last, rfl⟩
    · obtain ⟨-, hlast⟩ := List.append_inj' h rfl
      cases hlast
      exact .inl ⟨hreport, hactive⟩
    · rw [List.concat_eq_append] at h hafter
      rw [← List.cons_append, ← List.append_assoc] at h
      obtain ⟨rfl, hlast⟩ := List.append_inj' h rfl
      cases hlast
      exact .inr ⟨⟨before, first, after, rfl, hreport, hactive,
        fun later hlater => hafter later (List.mem_append_left _ hlater)⟩, hafter call (by simp)⟩
  · rintro (⟨hreport, hactive⟩ | ⟨⟨before, first, after, rfl, hreport, hactive, hafter⟩, hcall⟩)
    · exact ⟨calls, call, [], rfl, hreport, hactive, by simp⟩
    · refine ⟨before, first, after ++ [call], by simp, hreport, hactive, fun later hlater => ?_⟩
      rcases List.mem_append.1 hlater with hlater | hlater
      · exact hafter later hlater
      · obtain rfl := List.mem_singleton.1 hlater
        exact hcall

/-- What the rows say about each user of each source. -/
structure Shows (unescape : String → String) (calls : List WebhookCall)
    (events : WebhookEvents) : Prop where
  exclusive : events.Exclusive
  rows : ∀ source user, events.playing source user = [] ∨ ∃ r, events.playing source user = [r]
  reported : ∀ source user, ∀ r ∈ events.playing source user,
    ∃ report, StillPlaying report calls ∧ report.Of source user ∧ report.IsRow unescape r
  shown : ∀ report, StillPlaying report calls →
    ∃ r ∈ events.playing report.sourceId report.playbackUser, report.IsRow unescape r

theorem shows_nil : Shows unescape [] .empty where
  exclusive := by intro r hr; cases hr
  rows _ _ := .inl rfl
  reported _ _ r hr := by cases hr
  shown report h := absurd h not_stillPlaying_nil

namespace Shows
variable {calls : List WebhookCall} {events : WebhookEvents}

/-- The row of a start or a continued playback is the only one of its user. -/
theorem started (h : Shows unescape calls events) (call : WebhookCall)
    (hactive : call.report.event.active = true) :
    ∃ r, (record unescape events call).playing call.report.sourceId call.report.playbackUser = [r] ∧
      call.report.IsRow unescape r := by
  cases hcurrent : events.current call.report.activity with
  | none =>
    exact ⟨_, WebhookEvents.playing_started h.exclusive hactive hcurrent, WebhookEvents.isRow_row _⟩
  | some r =>
    obtain ⟨-, hr, hitem⟩ := WebhookEvents.mem_of_current hcurrent
    have honly : events.playing call.report.sourceId call.report.playbackUser = [r] := by
      rcases h.rows call.report.sourceId call.report.playbackUser with hnil | ⟨r', hr'⟩
      · rw [hnil] at hr; cases hr
      · rw [hr'] at hr
        rw [hr', List.mem_singleton.1 hr]
    exact ⟨_, WebhookEvents.playing_continued hcurrent honly,
      WebhookEvents.isRow_continued (WebhookEvents.mem_playing.1 hr).2.1 hitem⟩

theorem snoc (h : Shows unescape calls events) (call : WebhookCall) :
    Shows unescape (calls ++ [call]) (record unescape events call) := by
  refine ⟨WebhookEvents.exclusive_record h.exclusive, fun source user => ?_,
    fun source user r hr => ?_,
    fun report hreport => ?_⟩
  · by_cases hof : call.report.Of source user
    · obtain ⟨rfl, rfl⟩ := hof
      cases hactive : call.report.event.active with
      | true =>
        obtain ⟨r, hr, -⟩ := h.started call hactive
        exact .inr ⟨r, hr⟩
      | false =>
        rw [record, WebhookEvents.playing_ended h.exclusive hactive]
        exact WebhookEvents.filter_only _ (h.rows _ _)
    · rw [record, WebhookEvents.playing_other h.exclusive hof]
      exact h.rows source user
  · by_cases hof : call.report.Of source user
    · obtain ⟨rfl, rfl⟩ := hof
      cases hactive : call.report.event.active with
      | true =>
        obtain ⟨r', hr', hrow⟩ := h.started call hactive
        rw [hr'] at hr
        obtain rfl := List.mem_singleton.1 hr
        exact ⟨call.report, stillPlaying_snoc.2 (.inl ⟨rfl, hactive⟩), ⟨rfl, rfl⟩, hrow⟩
      | false =>
        rw [record, WebhookEvents.playing_ended h.exclusive hactive, List.mem_filter] at hr
        obtain ⟨report, hstill, hof, hrow⟩ := h.reported _ _ r hr.1
        refine ⟨report,
          stillPlaying_snoc.2 (.inr ⟨hstill, fun _ => ⟨hactive, fun hitem => ?_⟩⟩), hof, hrow⟩
        exact (bne_iff_ne.1 hr.2) (hrow.item.trans hitem.symm)
    · rw [record, WebhookEvents.playing_other h.exclusive hof] at hr
      obtain ⟨report, hstill, hreport, hrow⟩ := h.reported source user r hr
      obtain ⟨rfl, rfl⟩ := hreport
      exact ⟨report, stillPlaying_snoc.2 (.inr ⟨hstill, fun hcall => absurd hcall hof⟩),
        ⟨rfl, rfl⟩, hrow⟩
  · rcases stillPlaying_snoc.1 hreport with ⟨rfl, hactive⟩ | ⟨hstill, hcall⟩
    · obtain ⟨r, hr, hrow⟩ := h.started call hactive
      exact ⟨r, by rw [hr]; exact List.mem_singleton_self r, hrow⟩
    · obtain ⟨r, hr, hrow⟩ := h.shown report hstill
      refine ⟨r, ?_, hrow⟩
      by_cases hof : call.report.Of report.sourceId report.playbackUser
      · obtain ⟨hended, hitem⟩ := hcall hof
        obtain ⟨hsource, huser⟩ := hof
        rw [← hsource, ← huser] at hr ⊢
        rw [record, WebhookEvents.playing_ended h.exclusive hended, List.mem_filter]
        exact ⟨hr, bne_iff_ne.2 fun heq => hitem (heq.symm.trans hrow.item)⟩
      · rw [record, WebhookEvents.playing_other h.exclusive hof]
        exact hr

end Shows

theorem shows_run (unescape : String → String) (calls : List WebhookCall) :
    Shows unescape calls (run unescape calls) := by
  induction calls using List.reverseRecOn with
  | nil => exact shows_nil
  | append_singleton calls call ih =>
    rw [run, List.foldl_append]
    exact ih.snoc call

/-- After any sequence of activities each user of each source has at most one active row, which is
that of the activity still playing; one that does not start a playback leaves none of its item; and
no activity touches what another user, or another source, is playing. -/
theorem now_playing_exclusive (unescape : String → String) (calls : List WebhookCall) (source : Nat)
    (user : Option String) :
    ((run unescape calls).playing source user).length ≤ 1 ∧
      (∀ r ∈ (run unescape calls).playing source user,
        ∃ report, StillPlaying report calls ∧ report.Of source user ∧ report.IsRow unescape r) ∧
      (∀ report, StillPlaying report calls → report.Of source user →
        ∃ r ∈ (run unescape calls).playing source user, report.IsRow unescape r) ∧
      (∀ call : WebhookCall, call.report.Of source user → call.report.event.active = false →
        ∀ r ∈ (record unescape (run unescape calls) call).rows, r.active = true →
        r.sourceId = source →
          r.playbackUser = user → r.externalId ≠ call.report.externalId) ∧
      (∀ call : WebhookCall, ¬ call.report.Of source user →
        (record unescape (run unescape calls) call).playing source user =
          (run unescape calls).playing source user) := by
  have h := shows_run unescape calls
  refine ⟨?_, h.reported source user, ?_, ?_, fun call hother =>
    WebhookEvents.playing_other h.exclusive hother⟩
  · rcases h.rows source user with hnil | ⟨r, hr⟩
    · rw [hnil]; exact Nat.zero_le _
    · rw [hr]; exact le_refl _
  · rintro report hstill ⟨rfl, rfl⟩
    exact h.shown report hstill
  · rintro call ⟨rfl, rfl⟩ hended r hr hactive hsource huser
    have hplaying := WebhookEvents.mem_playing.2 ⟨hr, hsource, hactive, huser⟩
    rw [record, WebhookEvents.playing_ended h.exclusive hended, List.mem_filter] at hplaying
    exact bne_iff_ne.1 hplaying.2

end WebhookCall

end Euvieouvi
