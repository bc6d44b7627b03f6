import Euvieouvi.Database
import Euvieouvi.Lib.Runs

/-!
# The cutoff of an incremental scan

The runs of one direction and the transactions of the writers on one clock. A flush stamps the rows
that it writes with the clock (`updated_at`, or `created_at` of an identifier), and they are visible
once their transaction commits. A run takes the clock first, queries the tables one after the other,
each query seeing what is committed then, and stores its start as the next cutoff unless a candidate
failed. A row carries the stamp of its last change, so a query for `updated_at >= cutoff` finds the
items that have a change from the cutoff on. Only changes to rows that the queries of the direction
cover are recorded.

A change is missed by the run that does not see it and starts after its stamp; `nothing_missed` says
that there is none when no query runs while such a change waits for its commit.
-/

namespace Euvieouvi

inductive ScopeTable | watchState | watchEvent | sourceMediaRef | mediaIdentifier
deriving DecidableEq, Repr

structure Change where
  id : Nat
  table : ScopeTable
  item : Nat
  stamp : Time
deriving DecidableEq, Repr

/-- A run of the propagation: `cutoff` is `none` for a full scan. -/
structure CutoffScan where
  scanStartedAt : Time
  cutoff : Option Time
  queries : List ScopeTable
  seen : List Change := []
deriving DecidableEq

/-- `_FULL_SCAN_INTERVAL`. -/
def watchScanInterval : Time := Time.minutes (7 * 24 * 60)

structure CutoffTimeline where
  clock : Time := 0
  changes : Nat := 0
  opened : List (Nat × Change) := []
  committed : List Change := []
  scan : Option CutoffScan := none
  lastSuccessAt : Option Time := none
  lastFullAt : Option Time := none
  finished : List CutoffScan := []

inductive CutoffEvent
  | tick (elapsed : Nat)
  | flush (writer : Nat) (table : ScopeTable) (item : Nat)
  | commit (writer : Nat)
  | rollback (writer : Nat)
  | startRun
  | query
  | finishRun (failed : Nat)
  | stopRun

namespace CutoffScan

/-- The scan considers a change that a query of its scope returned. -/
def Considers (r : CutoffScan) (c : Change) : Prop := c ∈ r.seen ∧ ∀ t ∈ r.cutoff, t ≤ c.stamp

end CutoffScan

namespace CutoffTimeline

/-- The first lines of `_incremental_scope`, and the queries that follow. -/
def startScan (s : CutoffTimeline) : CutoffScan :=
  match s.lastSuccessAt, s.lastFullAt with
  | some cutoff, some lastFull =>
    if s.clock - lastFull ≥ watchScanInterval then
      ⟨s.clock, none, [.sourceMediaRef, .watchState, .watchEvent, .mediaIdentifier], []⟩
    else ⟨s.clock, some cutoff, [.watchState, .watchEvent, .sourceMediaRef, .mediaIdentifier], []⟩
  | _, _ => ⟨s.clock, none, [.sourceMediaRef, .watchState, .watchEvent, .mediaIdentifier], []⟩

def ofWriter (writer : Nat) (x : Nat × Change) : Bool := x.1 == writer

def step (s : CutoffTimeline) : CutoffEvent → CutoffTimeline
  | .tick elapsed => { s with clock := s.clock + elapsed }
  | .flush writer table item =>
    { s with
      opened := (writer, ⟨s.changes, table, item, s.clock⟩) :: s.opened, changes := s.changes + 1 }
  | .commit writer =>
    { s with
      committed := (s.opened.filter (ofWriter writer)).map Prod.snd ++ s.committed
      opened := s.opened.filter fun x => !ofWriter writer x }
  | .rollback writer => { s with opened := s.opened.filter fun x => !ofWriter writer x }
  | .startRun => if s.scan.isSome then s else { s with scan := some s.startScan }
  | .query =>
    match s.scan with
    | some r =>
      match r.queries with
      | table :: rest =>
        { s with
          scan := some { r with
          seen := s.committed.filter (·.table = table) ++ r.seen, queries := rest } }
      | [] => s
    | none => s
  | .finishRun failed =>
    match s.scan with
    | some r =>
      if r.queries ≠ [] then s
      else if failed = 0 then
        { s with
          scan := none
          lastSuccessAt := some r.scanStartedAt
          lastFullAt := if r.cutoff = none then some r.scanStartedAt else s.lastFullAt
          finished := r :: s.finished }
      else { s with scan := none }
    | none => s
  | .stopRun => { s with scan := none }

/-- No query runs while a change to its table waits for its commit that was stamped before the run
began. -/
def Punctual (s : CutoffTimeline) : CutoffEvent → Prop
  | .query =>
    match s.scan with
    | some r =>
      match r.queries with
      | table :: _ => ∀ x ∈ s.opened, x.2.table = table → r.scanStartedAt ≤ x.2.stamp
      | [] => True
    | none => True
  | _ => True

instance (s : CutoffTimeline) (e : CutoffEvent) : Decidable (s.Punctual e) := by
  unfold Punctual; split
  · split
    · split <;> infer_instance
    · infer_instance
  · infer_instance

/-- Every run that has stored its start as the cutoff has seen what was stamped before, so what no
run has considered is not before the cutoff. -/
structure NothingMissed (s : CutoffTimeline) : Prop where
  visible : ∀ r ∈ s.finished, ∀ c ∈ s.committed, c ∈ r.seen ∨ r.scanStartedAt ≤ c.stamp
  considered : ∀ c ∈ s.committed, (∃ r ∈ s.finished, r.Considers c) ∨
    ∀ t ∈ s.lastSuccessAt, t ≤ c.stamp

/-! ### What holds on the timeline -/

variable {s : CutoffTimeline} {r : CutoffScan} {table : ScopeTable}

/-- What the scan has asked for and not seen has a later stamp, committed or not. -/
structure Scanning (s : CutoffTimeline) (r : CutoffScan) : Prop where
  started : r.scanStartedAt ≤ s.clock
  seen : ∀ c ∈ s.committed, c.table ∉ r.queries → c ∈ r.seen ∨ r.scanStartedAt ≤ c.stamp
  waiting : ∀ x ∈ s.opened, x.2.table ∉ r.queries → r.scanStartedAt ≤ x.2.stamp
  cutoff : ∀ t ∈ r.cutoff, s.lastSuccessAt = some t

structure Inv (s : CutoffTimeline) : Prop extends s.NothingMissed where
  finishedStarted : ∀ r ∈ s.finished, r.scanStartedAt ≤ s.clock
  finishedWaiting : ∀ r ∈ s.finished, ∀ x ∈ s.opened, r.scanStartedAt ≤ x.2.stamp
  cutoffFinished : ∀ t, s.lastSuccessAt = some t → ∃ r ∈ s.finished, r.scanStartedAt = t
  scanning : ∀ r, s.scan = some r → s.Scanning r

theorem inv_start : ({} : CutoffTimeline).Inv where
  visible := by simp
  considered := by simp
  finishedStarted := by simp
  finishedWaiting := by simp
  cutoffFinished := by simp
  scanning := by simp

/-- Every table is queried. -/
theorem mem_queries_startScan (s : CutoffTimeline) (table : ScopeTable) :
    table ∈ s.startScan.queries := by
  unfold startScan
  split
  · split <;> cases table <;> simp
  · cases table <;> simp

theorem scanStartedAt_startScan (s : CutoffTimeline) : s.startScan.scanStartedAt = s.clock := by
  unfold startScan
  split
  · split <;> rfl
  · rfl

theorem cutoff_startScan (s : CutoffTimeline) :
    ∀ t ∈ s.startScan.cutoff, s.lastSuccessAt = some t := by
  intro t ht
  unfold startScan at ht
  split at ht
  next cutoff lastFull hcutoff _ =>
    split at ht
    · cases ht
    · rw [hcutoff]; exact ht
  · cases ht

namespace Inv

/-- The cutoff is not before the stamp of a change that is still to be committed. -/
theorem cutoff_le (h : s.Inv) {t : Time} (ht : s.lastSuccessAt = some t) {x : Nat × Change}
    (hx : x ∈ s.opened) :
    t ≤ x.2.stamp := by
  obtain ⟨r, hr, rfl⟩ := h.cutoffFinished t ht
  exact h.finishedWaiting r hr x hx

theorem tick (h : s.Inv) (elapsed : Nat) : (s.step (.tick elapsed)).Inv :=
  have hclock : s.clock ≤ s.clock + elapsed :=
    Int.le_add_of_nonneg_right (Int.natCast_nonneg elapsed)
  ⟨⟨h.visible, h.considered⟩, fun r hr => (h.finishedStarted r hr).trans hclock, h.finishedWaiting,
    h.cutoffFinished,
    fun r hr =>
      have hscan := h.scanning r hr
      ⟨hscan.started.trans hclock, hscan.seen, hscan.waiting, hscan.cutoff⟩⟩

theorem flush (h : s.Inv) (writer : Nat) (table : ScopeTable) (item : Nat) :
    (s.step (.flush writer table item)).Inv where
  visible := h.visible
  considered := h.considered
  finishedStarted := h.finishedStarted
  finishedWaiting r hr x hx := by
    rcases List.mem_cons.1 hx with rfl | hx
    · exact h.finishedStarted r hr
    · exact h.finishedWaiting r hr x hx
  cutoffFinished := h.cutoffFinished
  scanning r hr := by
    have hscan := h.scanning r hr
    refine ⟨hscan.started, hscan.seen, fun x hx hq => ?_, hscan.cutoff⟩
    rcases List.mem_cons.1 hx with rfl | hx
    · exact hscan.started
    · exact hscan.waiting x hx hq

/-- Taking changes out of the open transactions. -/
theorem drop (h : s.Inv) (p : Nat × Change → Bool) :
    ({ s with opened := s.opened.filter p } : CutoffTimeline).Inv where
  visible := h.visible
  considered := h.considered
  finishedStarted := h.finishedStarted
  finishedWaiting r hr x hx := h.finishedWaiting r hr x (List.mem_of_mem_filter hx)
  cutoffFinished := h.cutoffFinished
  scanning r hr :=
    have hscan := h.scanning r hr
    ⟨hscan.started, hscan.seen, fun x hx => hscan.waiting x (List.mem_of_mem_filter hx),
      hscan.cutoff⟩

theorem commit (h : s.Inv) (writer : Nat) : (s.step (.commit writer)).Inv := by
  have hmem : ∀ c ∈ (s.step (.commit writer)).committed, (∃ x ∈ s.opened, x.2 = c) ∨
      c ∈ s.committed := by
    intro c hc
    rcases List.mem_append.1 hc with hc | hc
    · obtain ⟨x, hx, rfl⟩ := List.mem_map.1 hc
      exact .inl ⟨x, List.mem_of_mem_filter hx, rfl⟩
    · exact .inr hc
  have hdrop := h.drop fun x => !ofWriter writer x
  refine ⟨⟨fun r hr c hc => ?_, fun c hc => ?_⟩, h.finishedStarted, hdrop.finishedWaiting,
    h.cutoffFinished, fun r hr => ?_⟩
  · rcases hmem c hc with ⟨x, hx, rfl⟩ | hc
    · exact .inr (h.finishedWaiting r hr x hx)
    · exact h.visible r hr c hc
  · rcases hmem c hc with ⟨x, hx, rfl⟩ | hc
    · exact .inr fun t ht => h.cutoff_le ht hx
    · exact h.considered c hc
  · have hscan := h.scanning r hr
    refine ⟨hscan.started, fun c hc hq => ?_, (hdrop.scanning r hr).waiting, hscan.cutoff⟩
    rcases hmem c hc with ⟨x, hx, rfl⟩ | hc
    · exact .inr (hscan.waiting x hx hq)
    · exact hscan.seen c hc hq

theorem setScan (h : s.Inv) {scan : Option CutoffScan} (hscan : ∀ r, scan = some r → s.Scanning r) :
    ({ s with scan := scan } : CutoffTimeline).Inv :=
  ⟨⟨h.visible, h.considered⟩, h.finishedStarted, h.finishedWaiting, h.cutoffFinished, fun r hr =>
    have := hscan r hr
    ⟨this.started, this.seen, this.waiting, this.cutoff⟩⟩

theorem startRun (h : s.Inv) : (s.step .startRun).Inv := by
  dsimp only [CutoffTimeline.step]
  split
  · exact h
  · refine h.setScan fun r hr => ?_
    obtain rfl := Option.some.inj hr
    exact ⟨(scanStartedAt_startScan s).le, fun c _ hq =>
      absurd (mem_queries_startScan s c.table) hq,
      fun x _ hq => absurd (mem_queries_startScan s x.2.table) hq, cutoff_startScan s⟩

theorem query (h : s.Inv) (hp : s.Punctual .query) : (s.step .query).Inv := by
  dsimp only [CutoffTimeline.step]
  split
  next r hr =>
    split
    next table rest hqueries =>
      have hscan := h.scanning r hr
      simp only [Punctual, hr, hqueries] at hp
      refine h.setScan fun r' hr' => ?_
      obtain rfl := Option.some.inj hr'
      refine ⟨hscan.started, fun c hc hq => ?_, fun x hx hq => ?_, hscan.cutoff⟩
      · by_cases htable : c.table = table
        · exact .inl (List.mem_append_left _ (List.mem_filter.2 ⟨hc, by simpa using htable⟩))
        · refine (hscan.seen c hc ?_).imp_left (List.mem_append_right _)
          rw [hqueries, List.mem_cons]
          exact not_or.2 ⟨htable, hq⟩
      · by_cases htable : x.2.table = table
        · exact hp x hx htable
        · refine hscan.waiting x hx ?_
          rw [hqueries, List.mem_cons]
          exact not_or.2 ⟨htable, hq⟩
    next => exact h
  next => exact h

theorem finishRun (h : s.Inv) (failed : Nat) : (s.step (.finishRun failed)).Inv := by
  dsimp only [CutoffTimeline.step]
  split
  next r hr =>
    have hscan := h.scanning r hr
    split
    · exact h
    next hqueries =>
      have hseen : ∀ c ∈ s.committed, c ∈ r.seen ∨ r.scanStartedAt ≤ c.stamp := fun c hc =>
        hscan.seen c hc (by simp [not_not.1 hqueries])
      split
      · refine ⟨⟨fun r' hr' c hc => ?_, fun c hc => ?_⟩, fun r' hr' => ?_, fun r' hr' x hx => ?_,
          fun t ht => ?_, by simp⟩
        · rcases List.mem_cons.1 hr' with rfl | hr'
          · exact hseen c hc
          · exact h.visible r' hr' c hc
        · rcases h.considered c hc with ⟨r', hr', hc'⟩ | hcutoff
          · exact .inl ⟨r', List.mem_cons_of_mem _ hr', hc'⟩
          · rcases hseen c hc with hc' | hlater
            · exact .inl ⟨r, List.mem_cons_self, hc', fun t ht => hcutoff t (hscan.cutoff t ht)⟩
            · exact .inr fun t ht => by obtain rfl := Option.some.inj ht; exact hlater
        · rcases List.mem_cons.1 hr' with rfl | hr'
          · exact hscan.started
          · exact h.finishedStarted r' hr'
        · rcases List.mem_cons.1 hr' with rfl | hr'
          · exact hscan.waiting x hx (by simp [not_not.1 hqueries])
          · exact h.finishedWaiting r' hr' x hx
        · exact ⟨r, List.mem_cons_self, Option.some.inj ht⟩
      · exact h.setScan fun r' hr' => by cases hr'
  next => exact h

theorem step (h : s.Inv) {e : CutoffEvent} (hp : s.Punctual e) : (s.step e).Inv := by
  cases e with
  | tick elapsed => exact h.tick elapsed
  | flush writer table item => exact h.flush writer table item
  | commit writer => exact h.commit writer
  | rollback writer => exact h.drop _
  | startRun => exact h.startRun
  | query => exact h.query hp
  | finishRun failed => exact h.finishRun failed
  | stopRun => exact h.setScan fun r hr => by cases hr

end Inv

/-- In every interleaving of runs and writers whose queries are punctual, in every state: a run that
has stored its cutoff has seen each committed change or started before its stamp. -/
theorem nothing_missed (es : List CutoffEvent) (hes : Along step Punctual {} es)
    (pre : List CutoffEvent) (hpre : pre <+: es) :
    (pre.foldl step {}).NothingMissed := by
  obtain ⟨suf, rfl⟩ := hpre
  exact ((Along.append.1 hes).1.invariant (I := Inv)
    (fun _ _ h hp => h.step hp) inv_start).toNothingMissed

/-- One writer commits before the query of its table, the other has a change open that is not before
the run. -/
theorem nothing_missed_two_writers :
    let es : List CutoffEvent :=
      [.flush 1 .mediaIdentifier 7, .tick 1, .startRun, .query, .query, .flush 2 .watchEvent 8,
        .query, .commit 1,
        .query, .commit 2, .finishRun 0, .tick 1, .startRun, .query, .query, .query, .query,
          .finishRun 0]
    (es.foldl step {}).NothingMissed ∧ (es.foldl step {}).committed.map (·.item) = [8, 7] ∧
      (es.foldl step {}).lastSuccessAt = some 2 :=
  ⟨nothing_missed _ (by decide +kernel) _ (List.prefix_refl _), by decide +kernel, by
    decide +kernel⟩

/-- The watch state is stamped before the run starts and committed after its queries; the cutoff
that the run stores is later than the stamp, and the next run does not look at the row. -/
theorem commit_after_the_queries_is_missed :
    let es : List CutoffEvent :=
      [.flush 1 .watchState 7, .tick 1, .startRun, .query, .query, .query, .query, .commit 1,
        .finishRun 0]
    ¬(es.foldl step {}).NothingMissed := by
  intro es h
  rcases h.visible ⟨1, none, [], []⟩ (by decide +kernel) ⟨0, .watchState, 7, 0⟩
    (by decide +kernel) with hseen | hstamp
  · cases hseen
  · exact absurd hstamp (by decide)

end CutoffTimeline

end Euvieouvi
