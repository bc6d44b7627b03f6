import Euvieouvi.Lib.Runs
import Euvieouvi.WatchSync.Record

/-!
# The propagation of a list of candidates

`WatchSyncService.run` after its scan. Each candidate comes with what happens to it: the
cancellation check, the connector, the answer for every target, and whether the callbacks and the
transaction raise. `called` are the candidates for which some remote call succeeded, `stored` those
of a committed `_record_successes`; both name a candidate by its position. The calls are accounted
for (`accounted_iff`) unless the run stops with one of them in the buffer, or a candidate fails
after one of its targets was updated.
-/

namespace Euvieouvi

/-- What comes of the call for one target; the exception is one of the call or of the repair. -/
inductive TargetAnswer | success | notFound (callbackRaises : Bool) | raises
deriving DecidableEq, Repr

/-- What happens while one candidate is handled. -/
structure Handling where
  cancelled : Bool := false
  connects : Bool := true
  answer : Nat → TargetAnswer := fun _ => .success
  repairedAt : Time := 0
  failureRaises : Bool := false
  recordedAt : Time := 0
  recordRaises : Bool := false
  progressRaises : Bool := false

/-- What happens after the last candidate. -/
structure Ending where
  recordedAt : Time := 0
  recordRaises : Bool := false
  finishRaises : Bool := false

inductive RunEnd | returned | cancelled | raised
deriving DecidableEq, Repr

/-- The loop over the targets of a candidate. -/
structure Delivery where
  db : Database
  called : Nat := 0
  successful : Nat := 0
  repaired : Nat := 0
  raised : Bool := false

/-- `_PERSIST_BATCH_SIZE`. -/
def persistBatchSize : Nat := 100

/-- `_invalidate_reference`, and whether there was something to repair. -/
def Database.invalidateReference (now : Time) (reference : Nat) (db : Database) : Database × Bool :=
  match db.sourceMediaRefs.get? reference with
  | some r =>
    if r.available then
      (db.saveSourceMediaRef now reference
        ⟨fun r => { r with available := false, unavailableSince := some now }, fun _ => rfl⟩, true)
    else (db, false)
  | none => (db, false)

/-- The calls for the targets from position `i` on. -/
def Handling.deliver (h : Handling) (c : WatchSyncCandidate) :
    List WatchSyncTarget → Nat → Delivery → Delivery
  | [], _, d => d
  | t :: ts, i, d =>
    if c.completed || c.progressMs.isSome then
      match h.answer i with
      | .success =>
        h.deliver c ts (i + 1) { d with called := d.called + 1, successful := d.successful + 1 }
      | .notFound callbackRaises =>
        match d.db.invalidateReference h.repairedAt t.referenceId with
        | (db, true) =>
          if callbackRaises then { d with db := db, raised := true }
          else h.deliver c ts (i + 1) { d with db := db, repaired := d.repaired + 1 }
        | (db, false) => h.deliver c ts (i + 1) { d with db := db }
      | .raises => { d with raised := true }
    else h.deliver c ts (i + 1) { d with successful := d.successful + 1 }

/-- The candidate is not taken as updated. -/
def Delivery.failed (d : Delivery) : Bool := d.raised || d.successful == 0

structure WatchSyncRun where
  db : Database
  next : Nat := 0
  pending : List (Nat × WatchSyncCandidate) := []
  stored : List (Nat × WatchSyncCandidate) := []
  called : List Nat := []
  updated : Nat := 0
  failed : Nat := 0
  repaired : Nat := 0
  ended : Option RunEnd := none

namespace WatchSyncRun

/-- The state when the loop begins; the report before it may raise. -/
def start (progressRaises : Bool) (db : Database) : WatchSyncRun where
  db := db
  ended := if progressRaises then some .raised else none

def deliver (s : WatchSyncRun) (c : WatchSyncCandidate) (h : Handling) : Delivery :=
  if h.connects then h.deliver c c.targets 0 { db := s.db } else { db := s.db, raised := true }

/-- The candidate has been called, whatever comes of it. -/
def receive (s : WatchSyncRun) (d : Delivery) : WatchSyncRun :=
  { s with
    db := d.db
    next := s.next + 1
    called := if d.called = 0 then s.called else s.next :: s.called
    repaired := s.repaired + d.repaired }

def fail (s : WatchSyncRun) (d : Delivery) : WatchSyncRun :=
  { s.receive d with failed := s.failed + 1 }

def succeed (s : WatchSyncRun) (d : Delivery) (c : WatchSyncCandidate) : WatchSyncRun :=
  { s.receive d with pending := s.pending ++ [(s.next, c)], updated := s.updated + 1 }

def record (now : Time) (s : WatchSyncRun) : WatchSyncRun :=
  { s with
    db := s.db.recordSuccesses now (s.pending.map Prod.snd), stored := s.stored ++ s.pending,
    pending := [] }

def stop (e : RunEnd) (s : WatchSyncRun) : WatchSyncRun := { s with ended := some e }

/-- `_update_progress`. -/
def report (raises : Bool) (s : WatchSyncRun) : WatchSyncRun := if raises then s.stop .raised else s

/-- One candidate. -/
def step (s : WatchSyncRun) : WatchSyncCandidate × Handling → WatchSyncRun
  | (c, h) =>
    if s.ended.isSome then s
    else if h.cancelled then s.stop .cancelled
    else
      let d := s.deliver c h
      if d.failed then
        if h.failureRaises then (s.fail d).stop .raised else (s.fail d).report h.progressRaises
      else if persistBatchSize ≤ s.pending.length + 1 then
        if h.recordRaises then (s.succeed d c).stop .raised
        else ((s.succeed d c).record h.recordedAt).report h.progressRaises
      else (s.succeed d c).report h.progressRaises

/-- What follows the loop, when it was not left. -/
def finish (e : Ending) (s : WatchSyncRun) : WatchSyncRun :=
  if s.ended.isSome then s
  else if s.pending = [] then s.stop (if e.finishRaises then .raised else .returned)
  else if e.recordRaises then s.stop .raised
  else (s.record e.recordedAt).stop (if e.finishRaises then .raised else .returned)

/-- `run` on the candidates of its scan. -/
def run (progressRaises : Bool) (db : Database) (cs : List (WatchSyncCandidate × Handling))
    (e : Ending) : WatchSyncRun :=
  (cs.foldl step (start progressRaises db)).finish e

/-- Every candidate with a successful call is stored, exactly once, and what is stored is in the
catalog. -/
structure Accounted (s : WatchSyncRun) : Prop where
  once : ∀ i ∈ s.called, (s.stored.map Prod.fst).count i = 1
  inCatalog : ∀ x ∈ s.stored, ∀ k ∈ x.2.keys, s.db.HasState k (x.2.completed = true)

/-- Nothing in the buffer has reached a server. -/
def NothingPending (s : WatchSyncRun) : Prop := ∀ x ∈ s.pending, x.1 ∉ s.called

instance (s : WatchSyncRun) : Decidable s.NothingPending := by unfold NothingPending; infer_instance

/-- The handling of the candidate loses no call: it does not fail after a successful call, and it
does not end the run with a call in the buffer. -/
def Safe (s : WatchSyncRun) : WatchSyncCandidate × Handling → Prop
  | (c, h) =>
    if s.ended.isSome then True
    else if h.cancelled then s.NothingPending
    else
      let d := s.deliver c h
      if d.failed then d.called = 0 ∧
        (h.failureRaises = true ∨ h.progressRaises = true → s.NothingPending)
      else if persistBatchSize ≤ s.pending.length + 1 then h.recordRaises = true →
        s.NothingPending ∧ d.called = 0
      else h.progressRaises = true → s.NothingPending ∧ d.called = 0

instance (s : WatchSyncRun) (x : WatchSyncCandidate × Handling) : Decidable (s.Safe x) := by
  unfold Safe; infer_instance

/-- The last transaction loses no call. -/
def SafeEnd (s : WatchSyncRun) (e : Ending) : Prop :=
  s.ended = none → e.recordRaises = true → s.NothingPending

instance (s : WatchSyncRun) (e : Ending) :
    Decidable (s.SafeEnd e) := by unfold SafeEnd; infer_instance

/-! ### The buffer -/

variable {s : WatchSyncRun} {c : WatchSyncCandidate} {h : Handling} {d : Delivery} {e : RunEnd}

/-- Positions of stored and pending candidates are distinct and behind the loop. -/
structure Buffered (s : WatchSyncRun) : Prop where
  nodup : ((s.stored ++ s.pending).map Prod.fst).Nodup
  handled : ∀ i ∈ (s.stored ++ s.pending).map Prod.fst, i < s.next
  called : ∀ i ∈ s.called, i < s.next

/-- Every successful call is stored, or still in the buffer of a run that goes on. -/
def Whole (s : WatchSyncRun) : Prop :=
  ∀ i ∈ s.called, i ∈ s.stored.map Prod.fst ∨ s.ended = none ∧ i ∈ s.pending.map Prod.fst

/-- What is stored is in the catalog. -/
def Cataloged (s : WatchSyncRun) : Prop :=
  ∀ x ∈ s.stored, ∀ k ∈ x.2.keys, s.db.HasState k (x.2.completed = true)

theorem mem_called_receive {i : Nat} : i ∈ (s.receive d).called ↔ i ∈ s.called ∨ d.called ≠ 0 ∧
    i = s.next := by
  by_cases hd : d.called = 0
  · simp [receive, hd]
  · simp [receive, hd, or_comm]

namespace Buffered

theorem start (raises : Bool) (db : Database) : Buffered (.start raises db) :=
  ⟨by simp [WatchSyncRun.start], by simp [WatchSyncRun.start], by simp [WatchSyncRun.start]⟩

theorem stop (hs : s.Buffered) : (s.stop e).Buffered := ⟨hs.nodup, hs.handled, hs.called⟩

theorem report (hs : s.Buffered) (raises : Bool) : (s.report raises).Buffered := by
  unfold WatchSyncRun.report
  split
  · exact hs.stop
  · exact hs

theorem called_receive (hs : s.Buffered) : ∀ i ∈ (s.receive d).called, i < s.next + 1 := by
  intro i hi
  rcases mem_called_receive.1 hi with hi | ⟨-, rfl⟩
  · exact Nat.lt_succ_of_lt (hs.called i hi)
  · omega

theorem fail (hs : s.Buffered) : (s.fail d).Buffered :=
  ⟨hs.nodup, fun i hi => Nat.lt_succ_of_lt (hs.handled i hi), hs.called_receive⟩

theorem next_notMem (hs : s.Buffered) : s.next ∉ (s.stored ++ s.pending).map Prod.fst :=
  fun h => absurd (hs.handled _ h) (Nat.lt_irrefl _)

theorem succeed (hs : s.Buffered) : (s.succeed d c).Buffered := by
  have hmap : ((s.succeed d c).stored ++ (s.succeed d c).pending).map Prod.fst =
      (s.stored ++ s.pending).map Prod.fst ++ [s.next] := by
    simp [WatchSyncRun.succeed, receive]
  refine ⟨?_, ?_, hs.called_receive⟩
  · rw [hmap]
    refine List.nodup_append.2 ⟨hs.nodup, List.nodup_singleton _, fun i hi j hj => ?_⟩
    obtain rfl := List.mem_singleton.1 hj
    rintro rfl
    exact hs.next_notMem hi
  · rw [hmap]
    intro i hi
    rcases List.mem_append.1 hi with hi | hi
    · exact Nat.lt_succ_of_lt (hs.handled i hi)
    · obtain rfl := List.mem_singleton.1 hi
      exact Nat.lt_succ_self _

theorem record (hs : s.Buffered) (now : Time) : (s.record now).Buffered := by
  have hmap : (s.record now).stored ++ (s.record now).pending = s.stored ++ s.pending :=
    List.append_nil _
  refine ⟨?_, ?_, hs.called⟩
  · rw [hmap]; exact hs.nodup
  · rw [hmap]; exact hs.handled

theorem step (hs : s.Buffered) (x : WatchSyncCandidate × Handling) : (s.step x).Buffered := by
  obtain ⟨c, h⟩ := x
  dsimp only [WatchSyncRun.step]
  split
  · exact hs
  · split
    · exact hs.stop
    · split
      · split
        · exact hs.fail.stop
        · exact hs.fail.report _
      · split
        · split
          · exact hs.succeed.stop
          · exact (hs.succeed.record _).report _
        · exact hs.succeed.report _

/-- A pending candidate is not a stored one. -/
theorem notMem_stored (hs : s.Buffered) {x : Nat × WatchSyncCandidate} (hx : x ∈ s.pending) :
    x.1 ∉ s.stored.map Prod.fst := by
  have hnodup := hs.nodup
  rw [List.map_append] at hnodup
  intro hstored
  exact (List.nodup_append.1 hnodup).2.2 _ hstored _ (List.mem_map_of_mem hx) rfl

end Buffered

theorem whole_stop (hs : s.Buffered) (hw : s.Whole) : (s.stop e).Whole ↔ s.NothingPending := by
  constructor
  · intro hstop x hx hcalled
    rcases hstop x.1 hcalled with hstored | ⟨hended, -⟩
    · exact hs.notMem_stored hx hstored
    · cases hended
  · intro hnone i hi
    rcases hw i hi with hstored | ⟨-, hpending⟩
    · exact .inl hstored
    · obtain ⟨x, hx, rfl⟩ := List.mem_map.1 hpending
      exact absurd hi (hnone x hx)

theorem whole_report (hs : s.Buffered) (hw : s.Whole) {raises : Bool} :
    (s.report raises).Whole ↔ (raises = true → s.NothingPending) := by
  cases raises with
  | true => exact (whole_stop hs hw).trans ⟨fun h _ => h, fun h => h rfl⟩
  | false => exact iff_of_true hw fun h => absurd h Bool.false_ne_true

/-- A call that succeeded for a candidate that then failed is lost. -/
theorem whole_fail (hs : s.Buffered) (hw : s.Whole) : (s.fail d).Whole ↔ d.called = 0 := by
  constructor
  · intro hfail
    by_contra hd
    have hmem : s.next ∈ (s.stored ++ s.pending).map Prod.fst := by
      rw [List.map_append, List.mem_append]
      exact (hfail s.next (mem_called_receive.2 (.inr ⟨hd, rfl⟩))).imp_right fun h => h.2
    exact hs.next_notMem hmem
  · intro hd i hi
    rcases mem_called_receive.1 hi with hi | ⟨hne, -⟩
    · exact hw i hi
    · exact absurd hd hne

theorem whole_succeed (hw : s.Whole) (hended : s.ended = none) : (s.succeed d c).Whole := by
  intro i hi
  have hpending : (s.succeed d c).pending.map Prod.fst = s.pending.map Prod.fst ++ [s.next] := by
    simp [succeed]
  rcases mem_called_receive.1 hi with hi | ⟨-, rfl⟩
  · rcases hw i hi with hstored | ⟨-, hp⟩
    · exact .inl hstored
    · exact .inr ⟨hended, by rw [hpending]; exact List.mem_append_left _ hp⟩
  · exact .inr ⟨hended, by rw [hpending]; simp⟩

theorem whole_record (hw : s.Whole) (now : Time) : (s.record now).Whole := by
  intro i hi
  refine .inl ?_
  show i ∈ (s.stored ++ s.pending).map Prod.fst
  rw [List.map_append, List.mem_append]
  exact (hw i hi).imp_right fun h => h.2

theorem whole_of_stop (h : (s.stop e).Whole) : s.Whole := by
  intro i hi
  rcases h i hi with hstored | ⟨hended, -⟩
  · exact .inl hstored
  · cases hended

theorem whole_of_report {raises : Bool} (h : (s.report raises).Whole) : s.Whole := by
  cases raises with
  | true => exact whole_of_stop h
  | false => exact h

theorem whole_of_fail (h : (s.fail d).Whole) : s.Whole :=
  fun i hi => h i (mem_called_receive.2 (.inl hi))

theorem whole_of_succeed (hs : s.Buffered) (h : (s.succeed d c).Whole) : s.Whole := by
  intro i hi
  rcases h i (mem_called_receive.2 (.inl hi)) with hstored | ⟨hended, hp⟩
  · exact .inl hstored
  · refine .inr ⟨hended, ?_⟩
    rcases List.mem_append.1 (by simpa [succeed] using hp : i ∈ s.pending.map Prod.fst ++ [s.next])
      with hp | hp
    · exact hp
    · obtain rfl := List.mem_singleton.1 hp
      exact absurd (hs.called _ hi) (Nat.lt_irrefl _)

theorem whole_of_record (hended : s.ended = none) {now : Time} (h : (s.record now).Whole) :
    s.Whole := by
  intro i hi
  rcases h i hi with hstored | ⟨-, hp⟩
  · rcases List.mem_append.1 (by
      simpa [record] using hstored : i ∈ s.stored.map Prod.fst ++ s.pending.map Prod.fst) with h | h
    · exact .inl h
    · exact .inr ⟨hended, h⟩
  · cases hp

theorem whole_of_step (hs : s.Buffered) {x : WatchSyncCandidate × Handling}
    (hw : (s.step x).Whole) : s.Whole := by
  obtain ⟨c, h⟩ := x
  dsimp only [step] at hw
  split at hw
  · exact hw
  next hrunning =>
    have hended : s.ended = none := by simpa using hrunning
    split at hw
    · exact whole_of_stop hw
    · split at hw
      · split at hw
        · exact whole_of_fail (whole_of_stop hw)
        · exact whole_of_fail (whole_of_report hw)
      · split at hw
        · split at hw
          · exact whole_of_succeed hs (whole_of_stop hw)
          · exact whole_of_succeed hs (whole_of_record hended (whole_of_report hw))
        · exact whole_of_succeed hs (whole_of_report hw)

theorem nothingPending_fail (hs : s.Buffered) : (s.fail d).NothingPending ↔ s.NothingPending := by
  have hcalled : ∀ x ∈ s.pending, (x.1 ∈ (s.receive d).called ↔ x.1 ∈ s.called) := by
    intro x hx
    rw [mem_called_receive]
    refine or_iff_left fun hnext => hs.next_notMem ?_
    rw [← hnext.2]
    exact List.mem_map_of_mem (List.mem_append_right _ hx)
  exact forall₂_congr fun x hx => not_congr (hcalled x hx)

theorem nothingPending_succeed (hs : s.Buffered) :
    (s.succeed d c).NothingPending ↔ s.NothingPending ∧ d.called = 0 := by
  have hold : (∀ x ∈ s.pending, x.1 ∉ (s.receive d).called) ↔ s.NothingPending :=
    nothingPending_fail hs
  have hnew : s.next ∉ (s.receive d).called ↔ d.called = 0 := by
    rw [mem_called_receive]
    constructor
    · intro hn
      by_contra hd
      exact hn (.inr ⟨hd, rfl⟩)
    · rintro hd (hc | ⟨hne, -⟩)
      · exact absurd (hs.called _ hc) (Nat.lt_irrefl _)
      · exact hne hd
  show (∀ x ∈ s.pending ++ [(s.next, c)], x.1 ∉ (s.receive d).called) ↔ _
  rw [List.forall_mem_append, hold]
  exact and_congr_right fun _ => by simpa using hnew

theorem nothingPending_record (now : Time) : (s.record now).NothingPending :=
  fun x hx => by cases hx

/-- From a whole state, a step keeps it whole exactly when it is safe. -/
theorem whole_step (hs : s.Buffered) (hw : s.Whole) (x : WatchSyncCandidate × Handling) :
    (s.step x).Whole ↔ s.Safe x := by
  obtain ⟨c, h⟩ := x
  dsimp only [step, Safe]
  split
  next => exact iff_of_true hw trivial
  next hrunning =>
    have hended : s.ended = none := by simpa using hrunning
    have hsucceed : (s.succeed (s.deliver c h) c).Whole := whole_succeed hw hended
    split
    next => exact whole_stop hs hw
    next =>
      split
      next =>
        by_cases hd : (s.deliver c h).called = 0
        · have hfail := (whole_fail hs hw).2 hd
          simp only [hd, true_and]
          split
          next hraises =>
            simp only [whole_stop hs.fail hfail, nothingPending_fail hs, hraises, true_or,
              forall_const]
          next hraises =>
            simp only [whole_report hs.fail hfail, nothingPending_fail hs, hraises,
              Bool.false_eq_true, false_or]
        · have hlost : ¬(s.fail (s.deliver c h)).Whole := fun hf => hd ((whole_fail hs hw).1 hf)
          refine iff_of_false (fun hstep => hlost ?_) fun hsafe => hd hsafe.1
          split at hstep
          · exact whole_of_stop hstep
          · exact whole_of_report hstep
      next =>
        split
        next =>
          split
          next hraises =>
            simp only [whole_stop hs.succeed hsucceed, nothingPending_succeed hs, hraises,
              forall_const]
          next hraises =>
            refine iff_of_true ?_ fun hr => absurd hr hraises
            exact (whole_report (hs.succeed.record _) (whole_record hsucceed _)).2 fun _ =>
              nothingPending_record _
        next => simp only [whole_report hs.succeed hsucceed, nothingPending_succeed hs]

theorem whole_foldl {cs : List (WatchSyncCandidate × Handling)} (hs : s.Buffered) :
    (cs.foldl step s).Whole ↔ s.Whole ∧ Along step Safe s cs := by
  induction cs generalizing s with
  | nil => exact (and_iff_left trivial).symm
  | cons x cs ih =>
    refine (ih (hs.step x)).trans ?_
    show _ ↔ s.Whole ∧ s.Safe x ∧ Along step Safe (s.step x) cs
    rw [← and_assoc]
    refine and_congr_left fun _ =>
      ⟨fun hstep => ?_, fun ⟨hw, hsafe⟩ => (whole_step hs hw x).2 hsafe⟩
    have hw := whole_of_step hs hstep
    exact ⟨hw, (whole_step hs hw x).1 hstep⟩

theorem buffered_foldl {cs : List (WatchSyncCandidate × Handling)} (hs : s.Buffered) :
    (cs.foldl step s).Buffered := by
  induction cs generalizing s with
  | nil => exact hs
  | cons x cs ih => exact ih (hs.step x)

theorem Cataloged.of_states (hs : s.Cataloged) {s' : WatchSyncRun} (hstored : s'.stored = s.stored)
    (hstates : s'.db.watchStates = s.db.watchStates) : s'.Cataloged := by
  intro x hx k hk
  rw [hstored] at hx
  unfold Database.HasState
  rw [hstates]
  exact hs x hx k hk

theorem Cataloged.record (hs : s.Cataloged) (now : Time) : (s.record now).Cataloged := by
  intro x hx k hk
  rcases List.mem_append.1 hx with hx | hx
  · exact (hs x hx k hk).recordSuccesses
  · exact Database.hasState_recordSuccesses (List.mem_map_of_mem hx) hk

theorem watchStates_invalidateReference (now : Time) (reference : Nat) (db : Database) :
    (db.invalidateReference now reference).1.watchStates = db.watchStates := by
  unfold Database.invalidateReference
  split
  · split
    · exact Database.updateSourceMediaRefs_frame _ _ .watchStates (by decide)
    · rfl
  · rfl

theorem watchStates_deliver {ts : List WatchSyncTarget} {i : Nat} :
    (h.deliver c ts i d).db.watchStates = d.db.watchStates := by
  induction ts generalizing i d with
  | nil => rfl
  | cons t ts ih =>
    have hrepair := watchStates_invalidateReference h.repairedAt t.referenceId d.db
    unfold Handling.deliver
    split
    · split
      · exact ih
      · split
        next db hdb =>
          rw [hdb] at hrepair
          split
          · exact hrepair
          · exact ih.trans hrepair
        next db hdb =>
          rw [hdb] at hrepair
          exact ih.trans hrepair
      · rfl
    · exact ih

theorem watchStates_delivery (s : WatchSyncRun) (c : WatchSyncCandidate) (h : Handling) :
    (s.deliver c h).db.watchStates = s.db.watchStates := by
  unfold WatchSyncRun.deliver
  split
  · exact watchStates_deliver
  · rfl

theorem Cataloged.report (hs : s.Cataloged) (raises : Bool) : (s.report raises).Cataloged := by
  cases raises <;> exact hs

theorem Cataloged.step (hs : s.Cataloged) (x : WatchSyncCandidate × Handling) :
    (s.step x).Cataloged := by
  obtain ⟨c, h⟩ := x
  have hfail : (s.fail (s.deliver c h)).Cataloged := hs.of_states rfl (watchStates_delivery s c h)
  have hsucceed : (s.succeed (s.deliver c h) c).Cataloged :=
    hs.of_states rfl (watchStates_delivery s c h)
  dsimp only [WatchSyncRun.step]
  split
  · exact hs
  · split
    · exact hs
    · split
      · split
        · exact hfail
        · exact hfail.report _
      · split
        · split
          · exact hsucceed
          · exact (hsucceed.record _).report _
        · exact hsucceed.report _

theorem Cataloged.foldl {cs : List (WatchSyncCandidate × Handling)} (hs : s.Cataloged) :
    (cs.foldl WatchSyncRun.step s).Cataloged := by
  induction cs generalizing s with
  | nil => exact hs
  | cons x cs ih => exact ih (hs.step x)

/-! ### The end of the run -/

theorem Cataloged.finish (hs : s.Cataloged) (e : Ending) : (s.finish e).Cataloged := by
  unfold WatchSyncRun.finish
  split
  · exact hs
  · split
    · exact hs
    · split
      · exact hs
      · exact hs.record _

theorem Buffered.finish (hs : s.Buffered) (e : Ending) : (s.finish e).Buffered := by
  unfold WatchSyncRun.finish
  split
  · exact hs
  · split
    · exact hs.stop
    · split
      · exact hs.stop
      · exact (hs.record _).stop

theorem ended_finish (s : WatchSyncRun) (e : Ending) : (s.finish e).ended ≠ none := by
  unfold WatchSyncRun.finish
  split
  next hended => simpa [Option.isSome_iff_ne_none] using hended
  next =>
    split
    · simp [WatchSyncRun.stop]
    · split <;> simp [WatchSyncRun.stop]

theorem whole_finish (hs : s.Buffered) {e : Ending} :
    (s.finish e).Whole ↔ s.Whole ∧ s.SafeEnd e := by
  unfold WatchSyncRun.finish SafeEnd
  split
  next hended =>
    exact (and_iff_left fun hnone => by rw [hnone] at hended; cases hended).symm
  next hrunning =>
    have hended : s.ended = none := by simpa using hrunning
    split
    next hempty =>
      have hnone : s.NothingPending := fun x hx => by rw [hempty] at hx; cases hx
      exact ⟨fun hw => ⟨whole_of_stop hw, fun _ _ => hnone⟩, fun hw => (whole_stop hs hw.1).2 hnone⟩
    next =>
      split
      next hraises =>
        exact ⟨fun hw => ⟨whole_of_stop hw, fun _ _ => (whole_stop hs (whole_of_stop hw)).1 hw⟩,
          fun hw => (whole_stop hs hw.1).2 (hw.2 hended hraises)⟩
      next hraises =>
        refine ⟨fun hw =>
          ⟨whole_of_record hended (whole_of_stop hw), fun _ hr => absurd hr hraises⟩, fun hw => ?_⟩
        exact (whole_stop (hs.record _) (whole_record hw.1 _)).2 (nothingPending_record _)

/-- When a run has ended, everything is accounted for exactly when nothing was lost. -/
theorem accounted_iff_whole (hs : s.Buffered) (hcatalog : s.Cataloged) (hended : s.ended ≠ none) :
    s.Accounted ↔ s.Whole := by
  constructor
  · intro h i hi
    exact .inl (List.count_pos_iff.1 (by rw [h.once i hi]; exact Nat.one_pos))
  · intro h
    refine ⟨fun i hi => ?_, hcatalog⟩
    have hnodup := hs.nodup
    rw [List.map_append] at hnodup
    rcases h i hi with hstored | ⟨hnone, -⟩
    · exact List.count_eq_one_of_mem (List.nodup_append.1 hnodup).1 hstored
    · exact absurd hnone hended

/-- For every list of candidates, whatever the servers answer and wherever the run stops: the calls
are accounted for exactly when no candidate was handled unsafely and the last transaction lost
nothing. -/
theorem accounted_iff (progressRaises : Bool) (db : Database)
    (cs : List (WatchSyncCandidate × Handling)) (e : Ending) :
    (run progressRaises db cs e).Accounted ↔
      Along step Safe (start progressRaises db) cs ∧
      (cs.foldl step (start progressRaises db)).SafeEnd e := by
  have hs : (start progressRaises db).Buffered := .start progressRaises db
  have hcatalog : (start progressRaises db).Cataloged := fun x hx => by cases hx
  have hw : (start progressRaises db).Whole := fun i hi => by cases hi
  unfold run
  rw [accounted_iff_whole ((buffered_foldl hs).finish e) (hcatalog.foldl.finish e)
    (ended_finish _ e),
    whole_finish (buffered_foldl hs), whole_foldl hs]
  exact and_congr_left fun _ => and_iff_right hw

/-- One completed film on the server 2. -/
def deliveredCandidate : WatchSyncCandidate where
  targetSourceId := 2
  targets := [⟨1, 1, "film", 0⟩]
  watchedAt := some 0
  progressMs := none
  completed := true

/-- The first candidate is updated on its server, the run is cancelled before the second one, and
the update is not stored. -/
theorem cancelled_run_forgets_a_call :
    ¬(run false .empty [(deliveredCandidate, {}), (deliveredCandidate, { cancelled := true })]
      {}).Accounted :=
  fun h => absurd (h.once 0 (by decide)) (by decide)

end WatchSyncRun

end Euvieouvi
