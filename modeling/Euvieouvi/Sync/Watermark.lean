import Mathlib.Data.List.InsertIdx
import Euvieouvi.Sync.LibraryScan
import Euvieouvi.Lib.Paging

/-!
# What the watermark of a library covers

`LibraryRun.Sound`: everything on the server up to the stored watermark was persisted, and the last
attempt covers everything up to the watermark it would store. An attempt from the first page has
this for free (`Sound.covers_of_start`). One that resumes takes its watermark from its own start but
pages only from the cursor on, or not at all, so it has it only where nothing before the cursor
changed since the attempt began that it resumes (`Sound.covers_of_resumed`).
-/

namespace Euvieouvi

/-- Every change up to the watermark of the attempt was persisted or is still to come. -/
def Attempt.Covers (a : Attempt) (server stored : List ServerItem) : Prop :=
  ∀ x ∈ server, x.updatedAt ≤ a.watermark →
    x ∈ stored ∨ ∃ start, a.stage = .media start ∧
      x ∈ unvisited (changedAfter a.updatedSince) start server

instance (stage : AttemptStage) (P : Nat → Prop) [DecidablePred P] :
    Decidable (∃ start, stage = .media start ∧ P start) :=
  match stage with
  | .media start =>
    decidable_of_iff (P start) ⟨fun h => ⟨start, rfl, h⟩, by rintro ⟨_, ⟨⟩, h⟩; exact h⟩
  | .mediaDone => isFalse (by rintro ⟨_, ⟨⟩, _⟩)
  | .history _ => isFalse (by rintro ⟨_, ⟨⟩, _⟩)
  | .historyDone => isFalse (by rintro ⟨_, ⟨⟩, _⟩)

instance (stage : AttemptStage) (P : Nat → Prop) [DecidablePred P] :
    Decidable (∀ start, stage = .media start → P start) :=
  match stage with
  | .media start => decidable_of_iff (P start) ⟨by rintro h _ ⟨⟩; exact h, fun h => h start rfl⟩
  | .mediaDone => isTrue (by rintro _ ⟨⟩)
  | .history _ => isTrue (by rintro _ ⟨⟩)
  | .historyDone => isTrue (by rintro _ ⟨⟩)

instance (a : Attempt) (server stored : List ServerItem) : Decidable (a.Covers server stored) :=
  inferInstanceAs (Decidable (∀ x ∈ server, _ → _))

namespace LibraryState

def watermarkAt (s : LibraryState) : Option Time := s.checkpoint.bind (·.watermarkAt)

def WatermarkSound (s : LibraryState) : Prop :=
  ∀ W, s.watermarkAt = some W → ∀ x ∈ s.server, x.updatedAt ≤ W → x ∈ s.stored

instance (s : LibraryState) : Decidable s.WatermarkSound :=
  match h : s.watermarkAt with
  | none => isTrue fun W hW => by rw [h] at hW; cases hW
  | some W => decidable_of_iff (∀ x ∈ s.server, x.updatedAt ≤ W → x ∈ s.stored)
      ⟨fun hs V hV => by rw [h] at hV; cases hV; exact hs, fun hs => hs W h⟩

/-- `periodic_full_scan` of an attempt that would begin now. -/
def fullScanDue (s : LibraryState) : Bool :=
  s.watermarkAt.isNone || (s.checkpoint.bind (·.lastFullScanAt)).all fun t =>
    fullScanInterval ≤ s.clock - t

/-- Time goes on, and the clock of the server is less than the overlap behind. -/
def Timely (s : LibraryState) (e : Time × LibraryEvent) : Prop :=
  s.clock ≤ e.1 ∧ match e.2 with
    | .edit _ updatedAt => e.1 - watermarkOverlap < updatedAt
    | .add _ _ updatedAt => e.1 - watermarkOverlap < updatedAt
    | _ => True

instance (s : LibraryState) (e : Time × LibraryEvent) : Decidable (s.Timely e) :=
  match e with
  | (_, .edit _ _) | (_, .add _ _ _) => inferInstanceAs (Decidable (_ ≤ _ ∧ _ < _))
  | (_, .remove _) | (_, .begin _ _) | (_, .persistMediaPage) | (_, .sweep) | (_,
    .persistHistoryPage _)
  | (_, .complete) | (_, .interrupt) => inferInstanceAs (Decidable (_ ≤ _ ∧ True))

end LibraryState

/-- Where the next attempt would go on if this one were gone. -/
def Attempt.cursor (a : Attempt) : ScanCursor :=
  match a.stage with
  | .media start => ⟨.media, start⟩
  | .mediaDone => ⟨.history, 0⟩
  | .history start => ⟨.history, start⟩
  | .historyDone => ⟨.media, 0⟩

/-- A library, and the attempt under way or, if there is none, the last one. -/
structure LibraryRun where
  library : LibraryState
  last : Option Attempt := none

namespace LibraryRun

def step (s : LibraryRun) (e : Time × LibraryEvent) : LibraryRun :=
  let library := s.library.step e
  ⟨library, library.attempt <|> s.last⟩

theorem library_foldl (s : LibraryRun) (es : List (Time × LibraryEvent)) :
    (es.foldl step s).library = es.foldl LibraryState.step s.library := by
  induction es generalizing s with
  | nil => rfl
  | cons e es ih => exact ih _

/-- An attempt that resumes a scan begins behind no change that the scan has missed: an item that
changed since the last attempt began, less the overlap, and does not lie in the overlap of the new
one, is persisted as it is now or comes at the cursor or after it. And nothing is removed before the
cursor. -/
def SkipsNoChange (s : LibraryRun) (e : Time × LibraryEvent) : Prop :=
  match e.2 with
  | .begin _ _ =>
    s.library.attempt = none → resumePosition s.library.checkpoint ≠ ⟨.media, 0⟩ →
      ∀ a ∈ s.last, ∀ x ∈ s.library.server,
      a.watermark < x.updatedAt → x.updatedAt ≤ e.1 - watermarkOverlap → x ∈ s.library.stored ∨
        (resumePosition s.library.checkpoint).stage = .media ∧
          x ∈ (listing a.updatedSince s.library.server).drop
            (resumePosition s.library.checkpoint).start
  | .remove id => (resumePosition s.library.checkpoint).stage = .media → ∀ a ∈ s.last,
      ∀ x ∈ (listing a.updatedSince s.library.server).take (resumePosition
        s.library.checkpoint).start, x.externalId ≠ id
  | _ => True

instance (s : LibraryRun) (e : Time × LibraryEvent) : Decidable (s.SkipsNoChange e) :=
  match e with
  | (_, .begin _ _) => inferInstanceAs (Decidable (_ = _ → _ ≠ _ → ∀ a ∈ s.last, _))
  | (_, .remove _) => inferInstanceAs (Decidable (_ = _ → ∀ a ∈ s.last, _))
  | (_, .edit _ _) | (_, .add _ _ _) | (_, .persistMediaPage) | (_, .sweep) | (_,
    .persistHistoryPage _)
  | (_, .complete) | (_, .interrupt) => inferInstanceAs (Decidable True)

/-- Everything up to the stored watermark was persisted, and the last attempt covers everything up
to its own. -/
structure Sound (s : LibraryRun) : Prop where
  stored : s.library.WatermarkSound
  past : ∀ W, s.library.watermarkAt = some W → W ≤ s.library.clock - watermarkOverlap
  underway : ∀ a, s.library.attempt = some a → s.last = some a
  begun : ∀ a, s.last = some a → a.scanStartedAt ≤ s.library.clock
  behind : ∀ a, s.last = some a → ∀ W, a.previousWatermark = some W →
    W ≤ s.library.clock - watermarkOverlap
  since : ∀ a, s.last = some a → a.stage ≠ .historyDone →
    a.previousWatermark = s.library.watermarkAt
  full : ∀ a, s.last = some a → a.stage ≠ .historyDone → a.periodicFullScan = true →
    s.library.fullScanDue = true
  covers : ∀ a, s.last = some a → a.Covers s.library.server s.library.stored
  cursor : resumePosition s.library.checkpoint = (s.last.map Attempt.cursor).getD ⟨.media, 0⟩

namespace Sound
variable {s : LibraryRun}

theorem tick (h : s.Sound) {t : Time} (ht : s.library.clock ≤ t) :
    Sound { s with library := { s.library with clock := t } } where
  stored := h.stored
  past W hW := (h.past W hW).trans (Int.sub_le_sub_right ht _)
  underway := h.underway
  begun a ha := (h.begun a ha).trans ht
  behind a ha W hW := (h.behind a ha W hW).trans (Int.sub_le_sub_right ht _)
  since := h.since
  full a ha hopen hperiodic := by
    have hdue := h.full a ha hopen hperiodic
    unfold LibraryState.fullScanDue at hdue ⊢
    rw [Bool.or_eq_true, Option.all_eq_true] at hdue ⊢
    refine hdue.imp id fun hall last hlast => decide_eq_true ?_
    exact (of_decide_eq_true (hall last hlast)).trans (Int.sub_le_sub_right ht _)
  covers := h.covers
  cursor := h.cursor

/-- No lower bound of an attempt lies in the overlap. -/
theorem changedAfter_of_recent (h : s.Sound) {a : Attempt} (ha : s.last = some a) {x : ServerItem}
    (hx : s.library.clock - watermarkOverlap < x.updatedAt) :
    changedAfter a.updatedSince x = true := by
  rw [changedAfter, Option.all_eq_true]
  intro W hW
  have hprev : a.previousWatermark = some W := by
    unfold Attempt.updatedSince at hW
    split at hW
    · cases hW
    · exact hW
  exact decide_eq_true (lt_of_le_of_lt (h.behind a ha W hprev) hx)

theorem not_recent (h : s.Sound) {a : Attempt} (ha : s.last = some a) {x : ServerItem}
    (hx : x.updatedAt ≤ a.watermark) : ¬ s.library.clock - watermarkOverlap < x.updatedAt :=
  not_lt.2 (hx.trans (Int.sub_le_sub_right (h.begun a ha) _))

/-- A change of the listing leaves everything covered if the items it brings are recent and what was
still to be visited stays so. -/
theorem of_server (h : s.Sound) {server : List ServerItem}
    (hold : ∀ x ∈ server, ¬ s.library.clock - watermarkOverlap < x.updatedAt → x ∈ s.library.server)
    (hnext : ∀ a, s.last = some a → ∀ start, a.stage = .media start → ∀ x ∈ server,
      ¬ s.library.clock - watermarkOverlap < x.updatedAt →
      x ∈ unvisited (changedAfter a.updatedSince) start s.library.server →
      x ∈ unvisited (changedAfter a.updatedSince) start server) :
    Sound { s with library := { s.library with server := server } } where
  stored W hW x hx hle := by
    have hrecent := not_lt.2 (hle.trans (h.past W hW))
    exact h.stored W hW x (hold x hx hrecent) hle
  past := h.past
  underway := h.underway
  begun := h.begun
  behind := h.behind
  since := h.since
  full := h.full
  covers a ha x hx hle := by
    have hrecent := h.not_recent ha hle
    rcases h.covers a ha x (hold x hx hrecent) hle with hs | ⟨start, hstage, hun⟩
    · exact .inl hs
    · exact .inr ⟨start, hstage, hnext a ha start hstage x hx hrecent hun⟩
  cursor := h.cursor

theorem edit (h : s.Sound) (id : String) {t : Time} (ht : s.library.clock - watermarkOverlap < t) :
    Sound { s with library := { s.library with
      server := s.library.server.map fun x => if x.externalId = id then ⟨id, t⟩ else x } } := by
  refine h.of_server (fun x hx hrecent => ?_) fun a ha start _ x hx hrecent hun => ?_
  · obtain ⟨y, hy, rfl⟩ := List.mem_map.1 hx
    by_cases hid : y.externalId = id
    · rw [if_pos hid] at hrecent; exact absurd ht hrecent
    · rwa [if_neg hid]
  · refine mem_unvisited_map (fun z hz => ?_) ?_ hun
    · by_cases hid : z.externalId = id
      · rw [if_pos hid]; exact h.changedAfter_of_recent ha ht
      · rwa [if_neg hid]
    · obtain ⟨y, hy, rfl⟩ := List.mem_map.1 hx
      by_cases hid : y.externalId = id
      · rw [if_pos hid] at hrecent; exact absurd ht hrecent
      · rw [if_neg hid, if_neg hid]

theorem add (h : s.Sound) (position : Nat) (id : String) {t : Time}
    (ht : s.library.clock - watermarkOverlap < t) :
    Sound { s with
      library := { s.library with server := s.library.server.insertIdx position ⟨id, t⟩ } } := by
  refine h.of_server (fun x hx hrecent => ?_) fun a _ start _ x _ _ hun => ?_
  · rcases List.eq_or_mem_of_mem_insertIdx hx with rfl | hx
    · exact absurd ht hrecent
    · exact hx
  · exact mem_unvisited_of_sublist (List.sublist_insertIdx _ _ _) hun

/-- The stored cursor is where the last attempt stands. -/
theorem resume_eq (h : s.Sound) {a : Attempt} (ha : s.last = some a) :
    resumePosition s.library.checkpoint = a.cursor := by
  rw [h.cursor, ha]
  rfl

theorem remove (h : s.Sound) (id : String)
    (hid : (resumePosition s.library.checkpoint).stage = .media → ∀ a ∈ s.last,
      ∀ x ∈ (listing a.updatedSince s.library.server).take (resumePosition
        s.library.checkpoint).start, x.externalId ≠ id) :
    Sound { s with
      library := { s.library with
      server := s.library.server.filter fun x => x.externalId ≠ id } } := by
  refine h.of_server (fun x hx _ => List.mem_of_mem_filter hx)
    fun a ha start hstage x hx _ hun => ?_
  have hresume : resumePosition s.library.checkpoint = ⟨.media, start⟩ := by
    rw [h.resume_eq ha, Attempt.cursor, hstage]
  rw [hresume] at hid
  exact mem_unvisited_filter (fun y hy => decide_eq_true (hid rfl a ha y hy))
    (List.mem_filter.1 hx).2 hun

/-! ### The beginning of an attempt -/

/-- An attempt from the first page covers everything: what it does not ask for is behind the stored
watermark. -/
theorem covers_of_start (h : s.Sound) (runId pageSize : Nat)
    (hresume : resumePosition s.library.checkpoint = ⟨.media, 0⟩) :
    (s.library.newAttempt runId pageSize).Covers s.library.server s.library.stored := by
  intro x hx _
  by_cases hchanged : changedAfter (s.library.newAttempt runId pageSize).updatedSince x = true
  · refine .inr ⟨0, ?_, mem_unvisited_zero hx hchanged⟩
    simp only [LibraryState.newAttempt, hresume]
  · left
    rw [changedAfter, Option.all_eq_true] at hchanged
    push Not at hchanged
    obtain ⟨W, hW, hle⟩ := hchanged
    have hprev : s.library.watermarkAt = some W := by
      unfold Attempt.updatedSince at hW
      split at hW
      · cases hW
      · exact hW
    refine h.stored W hprev x hx ?_
    simpa using hle

/-- An attempt that goes on asks for what the last one asked for at least: a full scan that was due
is due. -/
theorem changedAfter_newAttempt (h : s.Sound) {a : Attempt} (ha : s.last = some a)
    (hopen : a.stage ≠ .historyDone)
    (runId pageSize : Nat) {x : ServerItem} (hx : changedAfter a.updatedSince x = true) :
    changedAfter (s.library.newAttempt runId pageSize).updatedSince x = true := by
  have hsince : (s.library.newAttempt runId pageSize).updatedSince =
      if s.library.fullScanDue then none else s.library.watermarkAt := rfl
  rw [hsince]
  by_cases hdue : s.library.fullScanDue = true
  · rw [if_pos hdue]
    rfl
  · have hperiodic : a.periodicFullScan = false :=
      eq_false_of_ne_true fun hperiodic => hdue (h.full a ha hopen hperiodic)
    rw [if_neg hdue, ← h.since a ha hopen]
    rwa [Attempt.updatedSince, hperiodic] at hx

/-- An attempt that resumes covers everything if the scan has missed nothing since the attempt began
that it resumes. -/
theorem covers_of_resumed (h : s.Sound) (runId pageSize : Nat)
    (hresume : resumePosition s.library.checkpoint ≠ ⟨.media, 0⟩)
    (hskip : ∀ a ∈ s.last, ∀ x ∈ s.library.server, a.watermark < x.updatedAt →
      x.updatedAt ≤ s.library.clock - watermarkOverlap → x ∈ s.library.stored ∨
        (resumePosition s.library.checkpoint).stage = .media ∧
          x ∈ (listing a.updatedSince s.library.server).drop
            (resumePosition s.library.checkpoint).start) :
    (s.library.newAttempt runId pageSize).Covers s.library.server s.library.stored := by
  obtain ⟨a, ha⟩ : ∃ a, s.last = some a := by
    refine Option.ne_none_iff_exists'.1 fun hnone => hresume ?_
    rw [h.cursor, hnone]
    rfl
  have hcursor := h.resume_eq ha
  have hopen : a.stage ≠ .historyDone := by
    intro hstage
    rw [Attempt.cursor, hstage] at hcursor
    exact hresume hcursor
  -- what is still to come in the listing of the last attempt is still to come in that of the new
  -- one
  have hcome : ∀ x start, resumePosition s.library.checkpoint = ⟨.media, start⟩ →
      x ∈ unvisited (changedAfter a.updatedSince) start s.library.server →
      ∃ start, (s.library.newAttempt runId pageSize).stage = .media start ∧
        x ∈ unvisited (changedAfter (s.library.newAttempt runId pageSize).updatedSince) start
          s.library.server := by
    intro x start hstart hx
    refine ⟨start, ?_, ?_⟩
    · simp only [LibraryState.newAttempt, hstart]
    · exact mem_unvisited_of_imp
        (fun y hy => h.changedAfter_newAttempt ha hopen runId pageSize hy) hx
  intro x hx hle
  by_cases hold : x.updatedAt ≤ a.watermark
  · rcases h.covers a ha x hx hold with hs | ⟨start, hstage, hun⟩
    · exact .inl hs
    · rw [Attempt.cursor, hstage] at hcursor
      exact .inr (hcome x start hcursor hun)
  · rcases hskip a ha x hx (not_le.1 hold) hle with hs | ⟨hstage, hun⟩
    · exact .inl hs
    · refine .inr (hcome x (resumePosition s.library.checkpoint).start ?_ hun)
      rw [← hstage]

theorem begun_attempt (h : s.Sound) (runId pageSize : Nat)
    (hcov : (s.library.newAttempt runId pageSize).Covers s.library.server s.library.stored) :
    Sound ⟨{ s.library with attempt := some (s.library.newAttempt runId pageSize) },
      some (s.library.newAttempt runId pageSize)⟩ where
  stored := h.stored
  past := h.past
  underway := by rintro a ⟨⟩; rfl
  begun := by rintro a ⟨⟩; exact le_rfl
  behind := by rintro a ⟨⟩; exact h.past
  since := by rintro a ⟨⟩ _; rfl
  full := by rintro a ⟨⟩ _ hperiodic; exact hperiodic
  covers := by rintro a ⟨⟩; exact hcov
  cursor := by
    show resumePosition s.library.checkpoint = (s.library.newAttempt runId pageSize).cursor
    unfold Attempt.cursor LibraryState.newAttempt
    generalize resumePosition s.library.checkpoint = c
    obtain ⟨stage, start⟩ := c
    cases stage <;> rfl

/-! ### The steps of an attempt -/

/-- A transaction of the attempt moves it on and leaves the stored watermark. -/
theorem advance (h : s.Sound) {a : Attempt} (ha : s.library.attempt = some a)
    (hopen : a.stage ≠ .historyDone)
    {checkpoint : Option SyncCheckpoint}
    (hwatermark : checkpoint.bind (·.watermarkAt) = s.library.watermarkAt)
    (hfull : checkpoint.bind (·.lastFullScanAt) = s.library.checkpoint.bind (·.lastFullScanAt))
    {stage : AttemptStage}
    (hcursor : resumePosition checkpoint = Attempt.cursor { a with stage := stage })
    {items : List ServerItem}
    (hcov : Attempt.Covers { a with stage := stage } s.library.server (s.library.stored ++ items))
    (facts : List ScanFact) :
    Sound ⟨{ s.library with
      checkpoint := checkpoint
      attempt := some { a with stage := stage }
      stored := s.library.stored ++ items
      facts := facts }, some { a with stage := stage }⟩ where
  stored W hW x hx hle := List.mem_append_left _ (h.stored W (hwatermark.symm.trans hW) x hx hle)
  past W hW := h.past W (hwatermark.symm.trans hW)
  underway := by rintro b ⟨⟩; rfl
  begun := by rintro b ⟨⟩; exact h.begun a (h.underway a ha)
  behind := by rintro b ⟨⟩; exact h.behind a (h.underway a ha)
  since := by rintro b ⟨⟩ _; exact (h.since a (h.underway a ha) hopen).trans hwatermark.symm
  full := by
    rintro b ⟨⟩ _ hperiodic
    have hdue := h.full a (h.underway a ha) hopen hperiodic
    unfold LibraryState.fullScanDue LibraryState.watermarkAt at hdue ⊢
    rw [hwatermark, hfull]
    exact hdue
  covers := by rintro b ⟨⟩; exact hcov
  cursor := hcursor

theorem watermarkAt_setCheckpoint (s : LibraryState) (runId : Nat) (cursor : Option ScanCursor) :
    (s.setCheckpoint runId cursor).watermarkAt = s.watermarkAt := by
  unfold LibraryState.watermarkAt LibraryState.setCheckpoint
  cases s.checkpoint <;> rfl

theorem lastFullScanAt_setCheckpoint (s : LibraryState) (runId : Nat) (cursor : Option ScanCursor) :
    (s.setCheckpoint runId cursor).checkpoint.bind (·.lastFullScanAt) =
      s.checkpoint.bind (·.lastFullScanAt) := by
  unfold LibraryState.setCheckpoint
  cases s.checkpoint <;> rfl

theorem advance_of_stored (h : s.Sound) {a : Attempt} (ha : s.library.attempt = some a)
    (hopen : a.stage ≠ .historyDone)
    (hstage : ∀ start, a.stage ≠ .media start) {checkpoint : Option SyncCheckpoint}
    (hwatermark : checkpoint.bind (·.watermarkAt) = s.library.watermarkAt)
    (hfull : checkpoint.bind (·.lastFullScanAt) = s.library.checkpoint.bind (·.lastFullScanAt))
    {stage : AttemptStage}
    (hcursor : resumePosition checkpoint = Attempt.cursor { a with stage := stage })
    (facts : List ScanFact) :
    Sound ⟨{ s.library with
      checkpoint := checkpoint, attempt := some { a with stage := stage }, facts := facts },
      some { a with stage := stage }⟩ := by
  have hcov : Attempt.Covers { a with stage := stage } s.library.server
      (s.library.stored ++ []) := by
    intro x hx hle
    rcases h.covers a (h.underway a ha) x hx hle with hs | ⟨start, hmedia, _⟩
    · exact .inl (List.mem_append_left _ hs)
    · exact absurd hmedia (hstage start)
  have hadv := h.advance ha hopen hwatermark hfull hcursor hcov facts
  rwa [List.append_nil] at hadv

/-- The run after a transaction of the attempt. -/
abbrev after (s : LibraryRun) (library : LibraryState) : LibraryRun :=
  ⟨library, library.attempt <|> s.last⟩

theorem persistMediaPage (h : s.Sound) {a : Attempt} (ha : s.library.attempt = some a) {start : Nat}
    (hstage : a.stage = .media start) : (after s (s.library.persistMediaPage a start)).Sound := by
  set items := (mediaPage a.updatedSince start a.pageSize s.library.server).1 with hitems
  have hopen : a.stage ≠ .historyDone := fun hne => nomatch hstage.symm.trans hne
  have hpage : ∀ x ∈ s.library.server, x.updatedAt ≤ a.watermark →
      x ∈ s.library.stored ++ items ∨
        x ∈ unvisited (changedAfter a.updatedSince) (start + items.length) s.library.server := by
    intro x hx hle
    rcases h.covers a (h.underway a ha) x hx hle with hs | ⟨start', hmedia, hun⟩
    · exact .inl (List.mem_append_left _ hs)
    · obtain rfl : start = start' := AttemptStage.media.inj (hstage.symm.trans hmedia)
      rcases mem_page_or_unvisited (k := a.pageSize) hun with hmem | hmem
      · exact .inl (List.mem_append_right _ hmem)
      · exact .inr hmem
  have hnext : (mediaPage a.updatedSince start a.pageSize s.library.server).2 =
      if start + items.length < (listing a.updatedSince s.library.server).length then some
        (start + items.length) else none := rfl
  have hwatermark := watermarkAt_setCheckpoint s.library a.runId
  have hfull := lastFullScanAt_setCheckpoint s.library a.runId
  by_cases hmore : start + items.length < (listing a.updatedSince s.library.server).length
  · rw [if_pos hmore] at hnext
    have hcov : Attempt.Covers { a with stage := .media (start + items.length) } s.library.server
        (s.library.stored ++ items) := by
      intro x hx hle
      rcases hpage x hx hle with hs | hun
      · exact .inl hs
      · exact .inr ⟨_, rfl, hun⟩
    have hadv :=
      h.advance ha hopen (hwatermark (some ⟨.media, start + items.length⟩)) (hfull _) rfl hcov
      (s.library.facts ++ [.page a.updatedSince start (some (start + items.length))])
    unfold after LibraryState.persistMediaPage
    simp only [hnext]
    exact hadv
  · rw [if_neg hmore] at hnext
    have hcov : Attempt.Covers { a with stage := .mediaDone } s.library.server
        (s.library.stored ++ items) := by
      intro x hx hle
      rcases hpage x hx hle with hs | hun
      · exact .inl hs
      · rw [unvisited_eq_nil (not_lt.1 hmore)] at hun
        cases hun
    have hadv := h.advance ha hopen (hwatermark (some ⟨.history, 0⟩)) (hfull _) rfl hcov
      (s.library.facts ++ [.page a.updatedSince start none])
    unfold after LibraryState.persistMediaPage
    simp only [hnext]
    exact hadv

theorem sweep (h : s.Sound) {a : Attempt} (ha : s.library.attempt = some a)
    (hstage : a.stage = .mediaDone) :
    (after s (s.library.sweep a)).Sound := by
  have hopen : a.stage ≠ .historyDone := fun hne => nomatch hstage.symm.trans hne
  refine h.advance_of_stored ha hopen (fun _ hmedia => nomatch hstage.symm.trans hmedia)
    rfl rfl ?_ _
  rw [h.resume_eq (h.underway a ha), Attempt.cursor, hstage]
  rfl

theorem persistHistoryPage (h : s.Sound) {a : Attempt} (ha : s.library.attempt = some a)
    {start : Nat}
    (hstage : a.stage = .history start) (next : Option Nat) :
    (after s (s.library.persistHistoryPage a next)).Sound := by
  have hopen : a.stage ≠ .historyDone := fun hne => nomatch hstage.symm.trans hne
  have hmedia : ∀ n, a.stage ≠ .media n := fun n hn => nomatch hstage.symm.trans hn
  have hwatermark := watermarkAt_setCheckpoint s.library a.runId
  have hfull := lastFullScanAt_setCheckpoint s.library a.runId
  cases next with
  | some n =>
    refine h.advance_of_stored ha hopen hmedia (hwatermark (some ⟨.history, n⟩)) (hfull _) ?_
      (s.library.facts ++ [.historyPage])
    rfl
  | none =>
    refine h.advance_of_stored ha hopen hmedia (hwatermark none) (hfull _) ?_
      (s.library.facts ++ [.historyPage])
    rfl

theorem complete (h : s.Sound) {a : Attempt} (ha : s.library.attempt = some a)
    (hstage : a.stage = .historyDone) :
    (after s (s.library.complete a)).Sound := by
  have hlast := h.underway a ha
  refine ⟨?_, ?_, ?_, h.begun, h.behind, ?_, ?_, h.covers, ?_⟩
  · rintro W ⟨⟩ x hx hle
    rcases h.covers a hlast x hx hle with hs | ⟨start, hmedia, _⟩
    · exact hs
    · exact absurd (hstage.symm.trans hmedia) (fun hne => nomatch hne)
  · rintro W ⟨⟩
    exact Int.sub_le_sub_right (h.begun a hlast) _
  · rintro b ⟨⟩
  · intro b hb hopen
    obtain rfl := Option.some_inj.1 (hlast.symm.trans hb)
    exact absurd hstage hopen
  · intro b hb hopen
    obtain rfl := Option.some_inj.1 (hlast.symm.trans hb)
    exact absurd hstage hopen
  · show (⟨.media, 0⟩ : ScanCursor) = (s.last.map Attempt.cursor).getD ⟨.media, 0⟩
    rw [hlast, Option.map_some, Option.getD_some, Attempt.cursor, hstage]

theorem interrupt (h : s.Sound) : Sound ⟨{ s.library with attempt := none }, s.last⟩ where
  stored := h.stored
  past := h.past
  underway := by rintro a ⟨⟩
  begun := h.begun
  behind := h.behind
  since := h.since
  full := h.full
  covers := h.covers
  cursor := h.cursor

theorem of_attempt (h : s.Sound) {library : LibraryState}
    (hsame : library.attempt = s.library.attempt)
    (hs : Sound ⟨library, s.last⟩) : (after s library).Sound := by
  unfold after
  rw [hsame]
  cases ha : s.library.attempt with
  | none => exact hs
  | some a =>
    rw [h.underway a ha] at hs
    exact hs

theorem step (h : s.Sound) {e : Time × LibraryEvent} (ht : s.library.Timely e)
    (hskip : s.SkipsNoChange e) : (s.step e).Sound := by
  obtain ⟨t, event⟩ := e
  have hs : Sound { s with library := { s.library with clock := t } } := h.tick ht.1
  have hacts := LibraryState.acts { s.library with clock := t } event
  show (after s (LibraryState.act { s.library with clock := t } event)).Sound
  generalize LibraryState.act { s.library with clock := t } event = library at hacts
  cases hacts with
  | idle => exact h.of_attempt rfl hs
  | edit id updatedAt => exact h.of_attempt rfl (hs.edit id ht.2)
  | add position id updatedAt => exact h.of_attempt rfl (hs.add position id ht.2)
  | remove id => exact h.of_attempt rfl (hs.remove id hskip)
  | begin runId pageSize hnone =>
    refine hs.begun_attempt runId pageSize ?_
    by_cases hresume : resumePosition s.library.checkpoint = ⟨.media, 0⟩
    · exact hs.covers_of_start runId pageSize hresume
    · exact hs.covers_of_resumed runId pageSize hresume (hskip hnone hresume)
  | mediaPage ha hstage => exact hs.persistMediaPage ha hstage
  | sweep ha hstage => exact hs.sweep ha hstage
  | historyPage next ha hstage => exact hs.persistHistoryPage ha hstage next
  | complete ha hstage => exact hs.complete ha hstage
  | interrupt => exact hs.interrupt

end Sound

theorem sound_unscanned (clock : Time) (server : List ServerItem) :
    Sound ⟨.unscanned clock server, none⟩ where
  stored := by rintro W ⟨⟩
  past := by rintro W ⟨⟩
  underway := by rintro a ⟨⟩
  begun := by rintro a ⟨⟩
  behind := by rintro a ⟨⟩
  since := by rintro a ⟨⟩
  full := by rintro a ⟨⟩
  covers := by rintro a ⟨⟩
  cursor := rfl

end LibraryRun

namespace LibraryState

theorem watermark_sound (clock : Time) (server : List ServerItem) (es : List (Time × LibraryEvent))
    (h : Along LibraryRun.step (fun s e => s.library.Timely e ∧ s.SkipsNoChange e)
      ⟨unscanned clock server, none⟩ es) :
    (es.foldl step (unscanned clock server)).WatermarkSound := by
  have hsound : LibraryRun.Sound (es.foldl LibraryRun.step ⟨unscanned clock server, none⟩) :=
    Along.invariant (fun s e hs hok => hs.step hok.1 hok.2)
      (LibraryRun.sound_unscanned clock server) h
  have hstored := hsound.stored
  rwa [LibraryRun.library_foldl] at hstored

private def firstPageThenGone : List (Time × LibraryEvent) :=
  [(Time.minutes 10, .begin 1 1), (Time.minutes 11, .persistMediaPage),
    (Time.minutes 12, .interrupt)]

private def resumedToTheEnd : List (Time × LibraryEvent) :=
  [(Time.minutes 60, .begin 2 1), (Time.minutes 61, .persistMediaPage), (Time.minutes 62, .sweep),
    (Time.minutes 63, .persistHistoryPage none), (Time.minutes 64, .complete)]

/-- The item of the first page changes before the attempt is resumed: the page is not read again. -/
theorem watermark_over_visited_page :
    ∃ es : List (Time × LibraryEvent), Along step Timely (unscanned 0 [⟨"a", 0⟩, ⟨"b", 0⟩]) es ∧
      ¬ (es.foldl step (unscanned 0 [⟨"a", 0⟩, ⟨"b", 0⟩])).WatermarkSound :=
  ⟨firstPageThenGone ++ (Time.minutes 13, .edit "a" (Time.minutes 13)) :: resumedToTheEnd,
    by decide +kernel, by decide +kernel⟩

/-- The other item changes, which the attempt that is resumed has still to read. -/
theorem watermark_sound_resumed :
    (List.foldl step (unscanned 0 [⟨"a", 0⟩, ⟨"b", 0⟩])
      (firstPageThenGone ++ (Time.minutes 13, .edit "b" (Time.minutes 13)) ::
        resumedToTheEnd)).WatermarkSound :=
  watermark_sound 0 _ _ (by decide +kernel)

end LibraryState

end Euvieouvi
