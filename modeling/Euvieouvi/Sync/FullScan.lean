import Mathlib.Data.List.Induction
import Euvieouvi.Sync.LibraryScan
import Euvieouvi.Lib.Runs

/-!
# What the time of the last full scan says

A completed attempt advances `last_full_scan_at` by the age of the last full scan alone; the sweep
needs that the attempt began at the first page. `LibraryState.ScanInv` keeps the two apart: where an
attempt stands in the history, the facts end in a swept unfiltered scan exactly when the attempt
swept one itself or resumed one that had been swept.
-/

namespace Euvieouvi

/-- Pages of an unfiltered scan, each at the position where the one before it ended. -/
inductive ScanPages : Option Nat → List ScanFact → Prop
  | nil : ScanPages (some 0) []
  | snoc {start next pages} : ScanPages (some start) pages →
    ScanPages next (pages ++ [.page none start next])

/-- All pages of one unfiltered scan, its sweep, and no page since. -/
def SweptScan (facts : List ScanFact) : Prop :=
  ∃ before pages after, facts = before ++ pages ++ ScanFact.swept :: after ∧ ScanPages none pages ∧
    ∀ f ∈ after, f = .historyPage

section Facts
variable {facts : List ScanFact}

@[simp] theorem sweptLast_page (updatedSince : Option Time) (start : Nat) (next : Option Nat) :
    sweptLast (facts ++ [.page updatedSince start next]) = false := by
  simp [sweptLast]

@[simp] theorem sweptLast_swept : sweptLast (facts ++ [.swept]) = true := by simp [sweptLast]

@[simp] theorem sweptLast_historyPage : sweptLast (facts ++ [.historyPage]) = sweptLast facts := by
  simp [sweptLast]

theorem SweptScan.sweptLast (h : SweptScan facts) : sweptLast facts = true := by
  obtain ⟨before, pages, after, rfl, -, hafter⟩ := h
  induction after using List.reverseRecOn with
  | nil => exact sweptLast_swept
  | append_singleton after f ih =>
    obtain rfl := hafter f (by simp)
    have hlast := ih fun g hg => hafter g (List.mem_append_left _ hg)
    rw [← List.cons_append, ← List.append_assoc, sweptLast_historyPage]
    exact hlast

theorem SweptScan.historyPage (h : SweptScan facts) : SweptScan (facts ++ [.historyPage]) := by
  obtain ⟨before, pages, after, rfl, hpages, hafter⟩ := h
  refine ⟨before, pages, after ++ [.historyPage], by simp, hpages, fun f hf => ?_⟩
  rcases List.mem_append.1 hf with hf | hf
  · exact hafter f hf
  · exact List.mem_singleton.1 hf

theorem ScanPages.swept {before pages : List ScanFact} (h : ScanPages none pages) :
    SweptScan (before ++ pages ++ [.swept]) :=
  ⟨before, pages, [], rfl, h, by simp⟩

end Facts

theorem resumePosition_history {checkpoint : Option SyncCheckpoint}
    (h : (resumePosition checkpoint).stage = .history) :
    ∃ c, checkpoint = some c ∧ c.cursor = some ⟨.history, (resumePosition checkpoint).start⟩ := by
  cases checkpoint with
  | none => cases h
  | some c =>
    refine ⟨c, rfl, ?_⟩
    unfold resumePosition at h ⊢
    by_cases hstrategy : c.strategy = "full_scan_v1" ∨ c.strategy = "incremental_v2"
    · simp only [if_pos hstrategy] at h ⊢
      rcases hc : c.cursor with _ | ⟨stage, start⟩
      · rw [hc] at h; cases h
      · rw [hc] at h
        obtain rfl : stage = .history := h
        rfl
    · simp only [if_neg hstrategy] at h
      cases h

theorem Attempt.fullCatalogScan_iff {a : Attempt} :
    a.fullCatalogScan = true ↔ a.periodicFullScan = true ∧ a.resumed = ⟨.media, 0⟩ := by
  simp [Attempt.fullCatalogScan]

/-- What the committed steps say about the scan of an attempt. -/
def Attempt.Scanned (a : Attempt) (facts : List ScanFact) : Prop :=
  match a.stage with
  | .media start => a.resumed.stage = .media ∧
      (a.fullCatalogScan → ∃ before pages, facts = before ++ pages ∧ ScanPages (some start) pages)
  | .mediaDone => a.resumed.stage = .media ∧ sweptLast facts = false ∧
      (a.fullCatalogScan → ∃ before pages, facts = before ++ pages ∧ ScanPages none pages)
  | .history _ | .historyDone =>
      (sweptLast facts = true → SweptScan facts) ∧
        (sweptLast facts = true ↔ a.fullCatalogScan = true ∨ a.resumed.stage = .history ∧
          a.sweptBefore = true)

namespace LibraryState

def lastFullScanAt (s : LibraryState) : Option Time := s.checkpoint.bind (·.lastFullScanAt)

/-- A full scan that resumed another ends only in its history, after the other's sweep. -/
def CompletesSweptScan (s : LibraryState) (e : Time × LibraryEvent) : Prop :=
  e.2 = .complete → ∀ a ∈ s.attempt, a.stage = .historyDone → a.periodicFullScan = true →
    a.resumed = ⟨.media, 0⟩ ∨ a.resumed.stage = .history ∧ a.sweptBefore = true

structure ScanInv (s : LibraryState) : Prop where
  cursor : ∀ c ∈ s.checkpoint, ∀ start, c.cursor = some ⟨.history, start⟩ →
    sweptLast s.facts = true → SweptScan s.facts
  watermark : s.lastFullScanAt.isSome → (s.checkpoint.bind (·.watermarkAt)).isSome
  periodic : ∀ a ∈ s.attempt, a.periodicFullScan =
    ((s.checkpoint.bind (·.watermarkAt)).isNone ||
      s.lastFullScanAt.all fun t => fullScanInterval ≤ a.scanStartedAt - t)
  scanned : ∀ a ∈ s.attempt, a.Scanned s.facts

namespace ScanInv
variable {s : LibraryState}

theorem interrupt (h : s.ScanInv) : ScanInv { s with attempt := none } where
  cursor := h.cursor
  watermark := h.watermark
  periodic := by rintro a ⟨⟩
  scanned := by rintro a ⟨⟩

theorem begun_attempt (h : s.ScanInv) (runId pageSize : Nat) :
    ScanInv { s with attempt := some (s.newAttempt runId pageSize) } where
  cursor := h.cursor
  watermark := h.watermark
  periodic := by rintro a ⟨⟩; rfl
  scanned := by
    rintro a ⟨⟩
    have hmedia : (resumePosition s.checkpoint).stage = .media →
        (s.newAttempt runId pageSize).stage = .media (resumePosition s.checkpoint).start := by
      intro hr
      unfold newAttempt
      dsimp only
      rw [hr]
    have hhistory : (resumePosition s.checkpoint).stage = .history →
        (s.newAttempt runId pageSize).stage = .history (resumePosition s.checkpoint).start := by
      intro hr
      unfold newAttempt
      dsimp only
      rw [hr]
    have hresumed : (s.newAttempt runId pageSize).resumed = resumePosition s.checkpoint := rfl
    unfold Attempt.Scanned
    cases hr : (resumePosition s.checkpoint).stage with
    | media =>
      simp only [hmedia hr]
      refine ⟨by rw [hresumed, hr], fun hfull => ⟨s.facts, [], by simp, ?_⟩⟩
      rw [← hresumed, (Attempt.fullCatalogScan_iff.1 hfull).2]
      exact .nil
    | history =>
      simp only [hhistory hr]
      obtain ⟨c, hc, hcursor⟩ := resumePosition_history hr
      refine ⟨h.cursor c hc _ hcursor, ?_⟩
      rw [hresumed, hr]
      show sweptLast s.facts = true ↔ _ ∨ _ ∧ sweptLast s.facts = true
      constructor
      · exact fun hswept => .inr ⟨rfl, hswept⟩
      · rintro (hfull | hswept)
        · have hzero := (Attempt.fullCatalogScan_iff.1 hfull).2
          rw [hresumed] at hzero
          rw [hzero] at hr
          cases hr
        · exact hswept.2

/-- A transaction of the attempt that moves it on. -/
theorem advance (h : s.ScanInv) {a : Attempt} (ha : s.attempt = some a) (cursor : Option ScanCursor)
    {stage : AttemptStage} {facts : List ScanFact} (stored : List ServerItem)
    (hcursor : ∀ start, cursor = some ⟨.history, start⟩ → sweptLast facts = true → SweptScan facts)
    (hscanned : Attempt.Scanned { a with stage := stage } facts) :
    ScanInv { s.setCheckpoint a.runId cursor with
      attempt := some { a with stage := stage }
      stored := stored
      facts := facts } where
  cursor := by rintro c ⟨⟩ start hc; exact hcursor start hc
  watermark := by
    have hw := h.watermark
    unfold lastFullScanAt at hw ⊢
    unfold setCheckpoint
    cases hc : s.checkpoint with
    | none => exact id
    | some c => rw [hc] at hw; exact hw
  periodic := by
    rintro b ⟨⟩
    have hp := h.periodic a ha
    unfold lastFullScanAt at hp ⊢
    unfold setCheckpoint
    cases hc : s.checkpoint with
    | none => rw [hc] at hp; exact hp
    | some c => rw [hc] at hp; exact hp
  scanned := by rintro b ⟨⟩; exact hscanned

theorem persistMediaPage (h : s.ScanInv) {a : Attempt} (ha : s.attempt = some a) {start : Nat}
    (hstage : a.stage = .media start) : (s.persistMediaPage a start).ScanInv := by
  have hscanned := h.scanned a ha
  unfold Attempt.Scanned at hscanned
  simp only [hstage] at hscanned
  obtain ⟨hmedia, hpages⟩ := hscanned
  set facts := fun next => s.facts ++ [ScanFact.page a.updatedSince start next] with hfacts
  have hswept : ∀ next, sweptLast (facts next) = false := fun next => sweptLast_page _ _ _
  have hmore : ∀ next, a.fullCatalogScan = true → ∃ before pages, facts next = before ++ pages ∧
      ScanPages next pages := by
    intro next hfull
    obtain ⟨before, pages, hbefore, hchain⟩ := hpages hfull
    have hsince : a.updatedSince = none := if_pos (Attempt.fullCatalogScan_iff.1 hfull).1
    refine ⟨before, pages ++ [.page none start next], ?_, hchain.snoc⟩
    rw [hfacts, hbefore, hsince]
    exact List.append_assoc _ _ _
  have hcursor : ∀ next (cursor : Option ScanCursor) n, cursor = some ⟨.history, n⟩ →
      sweptLast (facts next) = true → SweptScan (facts next) := by
    intro next _ _ _ htrue
    rw [hswept] at htrue
    cases htrue
  unfold LibraryState.persistMediaPage
  cases hnext : (mediaPage a.updatedSince start a.pageSize s.server).2 with
  | some n =>
    simp only [hnext]
    exact h.advance ha (some ⟨.media, n⟩) _ (hcursor (some n) _) ⟨hmedia, hmore (some n)⟩
  | none =>
    simp only [hnext]
    exact h.advance ha (some ⟨.history, 0⟩) _ (hcursor none _) ⟨hmedia, hswept none, hmore none⟩

theorem sweep (h : s.ScanInv) {a : Attempt} (ha : s.attempt = some a)
    (hstage : a.stage = .mediaDone) :
    (s.sweep a).ScanInv := by
  have hscanned := h.scanned a ha
  unfold Attempt.Scanned at hscanned
  simp only [hstage] at hscanned
  obtain ⟨hmedia, hlast, hpages⟩ := hscanned
  unfold LibraryState.sweep
  by_cases hfull : a.fullCatalogScan = true
  · rw [if_pos hfull]
    have hswept : SweptScan (s.facts ++ [.swept]) := by
      obtain ⟨before, pages, hbefore, hchain⟩ := hpages hfull
      rw [hbefore]
      exact hchain.swept
    exact {
      cursor := fun _ _ _ _ _ => hswept
      watermark := h.watermark
      periodic := by rintro b ⟨⟩; exact h.periodic a ha
      scanned := by
        rintro b ⟨⟩
        exact ⟨fun _ => hswept, fun _ => .inl hfull, fun _ => hswept.sweptLast⟩ }
  · rw [if_neg hfull]
    exact {
      cursor := h.cursor
      watermark := h.watermark
      periodic := by rintro b ⟨⟩; exact h.periodic a ha
      scanned := by
        rintro b ⟨⟩
        refine ⟨fun htrue => ?_, fun htrue => ?_, ?_⟩
        · rw [hlast] at htrue; cases htrue
        · rw [hlast] at htrue; cases htrue
        · rintro (hfull' | ⟨hhistory, -⟩)
          · exact absurd hfull' hfull
          · exact absurd (hmedia.symm.trans hhistory) (fun hne => nomatch hne) }

theorem persistHistoryPage (h : s.ScanInv) {a : Attempt} (ha : s.attempt = some a) {start : Nat}
    (hstage : a.stage = .history start) (next : Option Nat) :
    (s.persistHistoryPage a next).ScanInv := by
  have hscanned := h.scanned a ha
  unfold Attempt.Scanned at hscanned
  simp only [hstage] at hscanned
  obtain ⟨hswept, hiff⟩ := hscanned
  have hswept' : sweptLast (s.facts ++ [.historyPage]) = true →
      SweptScan (s.facts ++ [.historyPage]) := by
    rw [sweptLast_historyPage]
    exact fun hlast => (hswept hlast).historyPage
  have hiff' := hiff
  rw [← sweptLast_historyPage] at hiff'
  cases next with
  | some n => exact h.advance ha (some ⟨.history, n⟩) s.stored (fun _ _ => hswept') ⟨hswept', hiff'⟩
  | none => exact h.advance ha none s.stored (fun _ _ => hswept') ⟨hswept', hiff'⟩

theorem complete (s : LibraryState) (a : Attempt) : (s.complete a).ScanInv where
  cursor := by rintro c ⟨⟩ start hc; cases hc
  watermark := fun _ => rfl
  periodic := by rintro b ⟨⟩
  scanned := by rintro b ⟨⟩

theorem step (h : s.ScanInv) (e : Time × LibraryEvent) : (s.step e).ScanInv := by
  obtain ⟨t, event⟩ := e
  have hs : ScanInv { s with clock := t } := ⟨h.cursor, h.watermark, h.periodic, h.scanned⟩
  have hacts := acts { s with clock := t } event
  show ({ s with clock := t }.act event).ScanInv
  generalize ({ s with clock := t } : LibraryState).act event = s' at hacts
  cases hacts with
  | idle => exact hs
  | edit id updatedAt => exact ⟨h.cursor, h.watermark, h.periodic, h.scanned⟩
  | add position id updatedAt => exact ⟨h.cursor, h.watermark, h.periodic, h.scanned⟩
  | remove id => exact ⟨h.cursor, h.watermark, h.periodic, h.scanned⟩
  | begin runId pageSize => exact hs.begun_attempt runId pageSize
  | mediaPage ha hstage => exact hs.persistMediaPage ha hstage
  | sweep ha hstage => exact hs.sweep ha hstage
  | historyPage next ha hstage => exact hs.persistHistoryPage ha hstage next
  | complete => exact complete _ _
  | interrupt => exact hs.interrupt

/-- At the end of an attempt the last scan was swept exactly where the condition holds. -/
theorem sweptScan_iff (h : s.ScanInv) {a : Attempt} (ha : s.attempt = some a)
    (hstage : a.stage = .historyDone) (hperiodic : a.periodicFullScan = true) :
    SweptScan s.facts ↔ a.resumed = ⟨.media, 0⟩ ∨ a.resumed.stage = .history ∧
    a.sweptBefore = true := by
  have hscanned := h.scanned a ha
  unfold Attempt.Scanned at hscanned
  simp only [hstage] at hscanned
  obtain ⟨hswept, hiff⟩ := hscanned
  rw [Attempt.fullCatalogScan_iff, and_iff_right hperiodic] at hiff
  exact ⟨fun hscan => hiff.1 hscan.sweptLast, fun hcond => hswept (hiff.2 hcond)⟩

/-- A completion that counts as a full scan always moves the time of the last one. -/
theorem lastFullScanAt_complete (h : s.ScanInv) {a : Attempt} (ha : s.attempt = some a) :
    (s.complete a).lastFullScanAt ≠ s.lastFullScanAt ↔ a.periodicFullScan = true := by
  have hnew : (s.complete a).lastFullScanAt =
      if a.periodicFullScan then some a.watermark else s.lastFullScanAt := by
    show (if a.periodicFullScan then some a.watermark else (s.checkpoint.getD {}).lastFullScanAt) =
      _
    unfold lastFullScanAt
    cases s.checkpoint <;> rfl
  rw [hnew]
  by_cases hperiodic : a.periodicFullScan = true
  · rw [if_pos hperiodic]
    refine iff_of_true (fun heq => ?_) hperiodic
    have hp := h.periodic a ha
    rw [hperiodic, ← heq] at hp
    have hw := h.watermark (by rw [← heq]; rfl)
    rw [Option.isSome_iff_ne_none, ne_eq, ← Option.isNone_iff_eq_none, Bool.not_eq_true] at hw
    rw [hw, Bool.false_or] at hp
    have hage : fullScanInterval ≤ a.scanStartedAt - a.watermark := of_decide_eq_true hp.symm
    have hsub : a.scanStartedAt - a.watermark = watermarkOverlap := Int.sub_sub_self _ _
    rw [hsub] at hage
    exact absurd hage (by decide)
  · rw [if_neg hperiodic]
    exact iff_of_false (fun hne => hne rfl) hperiodic

end ScanInv

theorem lastFullScanAt_setCheckpoint (s : LibraryState) (runId : Nat) (cursor : Option ScanCursor) :
    (s.setCheckpoint runId cursor).lastFullScanAt = s.lastFullScanAt := by
  unfold lastFullScanAt setCheckpoint
  cases s.checkpoint <;> rfl

theorem lastFullScanAt_act (s : LibraryState) {event : LibraryEvent} (hne : event ≠ .complete) :
    (s.act event).lastFullScanAt = s.lastFullScanAt := by
  have hacts := acts s event
  generalize s.act event = s' at hacts
  cases hacts with
  | mediaPage ha hstage =>
    rename_i a start
    unfold LibraryState.persistMediaPage
    rcases (mediaPage a.updatedSince start a.pageSize s.server) with ⟨items, next | n⟩
    · exact lastFullScanAt_setCheckpoint _ _ _
    · exact lastFullScanAt_setCheckpoint _ _ _
  | historyPage next ha hstage =>
    cases next with
    | none => exact lastFullScanAt_setCheckpoint _ _ _
    | some n => exact lastFullScanAt_setCheckpoint _ _ _
  | complete => exact absurd rfl hne
  | _ => rfl

theorem ScanInv.complete_iff {s : LibraryState} (h : s.ScanInv) (t : Time) :
    ((s.act .complete).lastFullScanAt ≠ s.lastFullScanAt → SweptScan s.facts) ↔
      s.CompletesSweptScan (t, .complete) := by
  rcases ha : s.attempt with _ | a
  · have hact : s.act .complete = s := by simp only [act, ha]
    rw [hact]
    refine iff_of_true (fun hne => absurd rfl hne) fun _ a ha' => ?_
    rw [ha] at ha'
    cases ha'
  · have hact : s.act .complete = if a.stage = .historyDone then s.complete a else s := by
      simp only [act, ha]
    rw [hact]
    by_cases hstage : a.stage = .historyDone
    · rw [if_pos hstage]
      have hchange := h.lastFullScanAt_complete ha
      constructor
      · intro hswept _ b hb _ hperiodic
        obtain rfl : a = b := Option.some.inj (ha.symm.trans hb)
        exact (h.sweptScan_iff ha hstage hperiodic).1 (hswept (hchange.2 hperiodic))
      · intro hok hne
        have hperiodic := hchange.1 hne
        exact (h.sweptScan_iff ha hstage hperiodic).2 (hok rfl a ha hstage hperiodic)
    · rw [if_neg hstage]
      refine iff_of_true (fun hne => absurd rfl hne) fun _ b hb hstage' => ?_
      obtain rfl : a = b := Option.some.inj (ha.symm.trans hb)
      exact absurd hstage' hstage

theorem ScanInv.advance_iff {s : LibraryState} (h : s.ScanInv) (e : Time × LibraryEvent) :
    ((s.step e).lastFullScanAt ≠ s.lastFullScanAt → SweptScan s.facts) ↔
    s.CompletesSweptScan e := by
  obtain ⟨t, event⟩ := e
  by_cases hevent : event = .complete
  · subst hevent
    have hs : ScanInv { s with clock := t } := ⟨h.cursor, h.watermark, h.periodic, h.scanned⟩
    exact hs.complete_iff t
  · exact iff_of_true (fun hne => absurd (lastFullScanAt_act _ hevent) hne) fun heq =>
      absurd heq hevent

theorem scanInv_unscanned (clock : Time) (server : List ServerItem) :
    (unscanned clock server).ScanInv where
  cursor := by rintro c ⟨⟩
  watermark := nofun
  periodic := by rintro a ⟨⟩
  scanned := by rintro a ⟨⟩

theorem last_full_scan_truthful (clock : Time) (server : List ServerItem)
    (es : List (Time × LibraryEvent)) :
    (∀ pre e, pre ++ [e] <+: es →
      (step (pre.foldl step (unscanned clock server)) e).lastFullScanAt ≠
        (pre.foldl step (unscanned clock server)).lastFullScanAt →
      SweptScan (pre.foldl step (unscanned clock server)).facts) ↔
    Along step CompletesSweptScan (unscanned clock server) es := by
  have hinv : ∀ pre : List (Time × LibraryEvent),
      ScanInv (pre.foldl step (unscanned clock server)) := by
    intro pre
    induction pre using List.reverseRecOn with
    | nil => exact scanInv_unscanned clock server
    | append_singleton pre e ih => rw [List.foldl_append]; exact ih.step e
  rw [Along.iff_forall_prefix]
  exact forall_congr' fun pre => forall_congr' fun e => imp_congr_right fun _ =>
    (hinv pre).advance_iff e

private def goneBeforeSweep : List (Time × LibraryEvent) :=
  [(0, .begin 1 1), (0, .persistMediaPage), (0, .interrupt), (0, .begin 2 1),
    (0, .persistHistoryPage none),
    (0, .complete)]

/-- The attempt is gone between the last page and the sweep; the next one resumes in the history. -/
theorem full_scan_never_swept :
    ∃ (pre : List (Time × LibraryEvent)) (e : Time × LibraryEvent),
      (step (pre.foldl step (unscanned 0 [⟨"a", 0⟩])) e).lastFullScanAt ≠
        (pre.foldl step (unscanned 0 [⟨"a", 0⟩])).lastFullScanAt ∧
      ¬ SweptScan (pre.foldl step (unscanned 0 [⟨"a", 0⟩])).facts := by
  refine ⟨goneBeforeSweep.take 5, (0, .complete), by decide +kernel, fun hswept => ?_⟩
  have hlast : sweptLast (List.foldl step (unscanned 0 [⟨"a", 0⟩]) (goneBeforeSweep.take 5)).facts =
      false := by
    decide +kernel
  rw [hswept.sweptLast] at hlast
  cases hlast

end LibraryState

end Euvieouvi
