import Euvieouvi.Jobs.Cancellation

/-!
# Accepted cancellations

A cancellation that was committed lasts as long as every commit is clean: `CancelState.Clean`
excludes the last writes of maintenance and reconciliation, which do not look at it, the result of a
synchronization that ended by itself, writes decided before the cancellation that change the status,
and requests that come too late for the row they read. The invariant is `Held`; the worker that
still executes an accepted run holds its lease only while the run is running, so no progress report
turns an interrupted run into a running one.
-/

namespace Euvieouvi

namespace JobRun
variable {loaded assigned : JobRun} (row : JobRun)

theorem flush_status_of_eq (h : assigned.status = loaded.status) :
    (flush loaded assigned row).status = row.status :=
  if_pos h

theorem flush_status_or (loaded assigned row : JobRun) :
    (flush loaded assigned row).status = row.status ∨
    (flush loaded assigned row).status = assigned.status := by
  show ite _ _ _ = _ ∨ ite _ _ _ = _
  split
  exacts [.inl rfl, .inr rfl]

theorem flush_status_of_ne (h : assigned.status ≠ loaded.status) :
    (flush loaded assigned row).status = assigned.status :=
  if_neg h

theorem flush_cancel_of_eq (h : assigned.cancelRequestedAt = loaded.cancelRequestedAt) :
    (flush loaded assigned row).cancelRequestedAt = row.cancelRequestedAt := if_pos h

/-- A flush takes a lease away or leaves it. -/
theorem flush_leaseOwner (h : assigned.leaseOwner = loaded.leaseOwner ∨
      assigned.leaseOwner = none) :
    (flush loaded assigned row).leaseOwner = row.leaseOwner ∨
    (flush loaded assigned row).leaseOwner = none := by
  by_cases heq : assigned.leaseOwner = loaded.leaseOwner
  · exact .inl (if_pos heq)
  · exact .inr ((if_neg heq).trans (h.resolve_left heq))

theorem flush_leaseOwner_none (h : assigned.leaseOwner = none) (hl : loaded.leaseOwner ≠ none) :
    (flush loaded assigned row).leaseOwner = none :=
  (if_neg (by rw [h]; exact Ne.symm hl)).trans h

end JobRun

namespace JobWrite
variable {w : JobWrite} {r : JobRun}

theorem assign_leaseOwner (h : w.applies r = true) :
    (w.assign r).leaseOwner = r.leaseOwner ∨ (w.assign r).leaseOwner = none := by
  cases w with
  | request now =>
    by_cases hq : r.status = .queued
    · exact .inr (by simp [assign, JobRun.cancel, hq, JobRun.release])
    · exact .inl (by simp [assign, JobRun.cancel, hq])
  | cancelledBeforeStart => exact .inr rfl
  | started => exact .inl rfl
  | monitor worker now report =>
    have ho : r.leaseOwner = some worker := by simpa [applies, JobRuns.ownedBy] using h
    by_cases ha : report.status.active = true
    · exact .inl (by simp [assign, JobRun.monitor, ha, JobRun.renewLease, ho])
    · exact .inr (by simp [assign, JobRun.monitor, ha, JobRun.release])
  | closed => exact .inr rfl
  | copySyncResult => exact .inr rfl
  | failOrRetry => exact .inr rfl
  | recover => exact .inr rfl

theorem assign_cancel (w : JobWrite) (r : JobRun) (h : w.isRequest = false) :
    (w.assign r).cancelRequestedAt = r.cancelRequestedAt := by
  cases w with
  | request => cases h
  | monitor worker now report =>
    show (JobRun.monitor worker now report r).cancelRequestedAt = _
    unfold JobRun.monitor
    dsimp only
    split <;> rfl
  | closed worker now result summary => cases result <;> rfl
  | failOrRetry worker detail now =>
    show (JobRun.failOrRetry detail now r).cancelRequestedAt = _
    unfold JobRun.failOrRetry
    dsimp only
    split <;> [skip; split] <;> rfl
  | recover force now =>
    show (JobRun.recover now r).cancelRequestedAt = _
    unfold JobRun.recover
    dsimp only
    split <;> [skip; split] <;> rfl
  | _ => rfl

/-- An operation that has seen the cancellation leaves the status or interrupts the run. -/
theorem assign_of_cancelled (hr : r.cancelRequestedAt ≠ none)
    (hw : match w with
      | .request _ | .closed .. => False
      | .copySyncResult _ sync => sync.status = .interrupted
      | .monitor .. => r.status = .running
      | _ => True) :
    (w.assign r).status = r.status ∨ (w.assign r).status = .interrupted ∧
      (w.assign r).leaseOwner = none := by
  have hsome : r.cancelRequestedAt.isSome = true := Option.isSome_iff_ne_none.2 hr
  cases w with
  | request => exact hw.elim
  | cancelledBeforeStart => exact .inr ⟨rfl, rfl⟩
  | started => exact .inl rfl
  | monitor worker now report =>
    by_cases ha : report.status.active = true
    · exact .inl
        (by simp [assign, JobRun.monitor, ha, JobRun.renewLease, show r.status = .running from hw])
    · exact .inr (by simp [assign, JobRun.monitor, ha, hsome, JobRun.renewLease, JobRun.release])
  | closed => exact hw.elim
  | copySyncResult now sync => exact .inr ⟨hw, rfl⟩
  | failOrRetry worker detail now =>
    exact .inr (by simp [assign, JobRun.failOrRetry, hsome, JobRun.interrupt, JobRun.release])
  | recover force now =>
    exact .inr (by simp [assign, JobRun.recover, hsome, JobRun.interrupt, JobRun.release])

end JobWrite

namespace CancelState
variable {s s' : CancelState} {parseInt : String → Option Int} {r r' : JobRun}

/-- An accepted run: it waits, runs or is interrupted, and only while it runs may a worker that
executes it hold its lease. -/
structure AcceptedRow (s : CancelState) (r : JobRun) : Prop where
  cancelled : r.cancelRequestedAt ≠ none
  status : r.status.active = true ∨ r.status = .interrupted
  idle : r.status ≠ .running → s.busy r = false

/-- A session that loaded a cancelled row. -/
structure SessionOk (s : CancelState) (session : JobSession) : Prop where
  accepted : session.loaded.id ∈ s.accepted
  lease : ∀ r, s.runs.get? session.loaded.id = some r → s.busy r = true →
    session.loaded.leaseOwner ≠ none
  running : ∀ worker now report, session.write = .monitor worker now report →
    session.loaded.status = .running

structure Held (s : CancelState) : Prop where
  rows : ∀ id ∈ s.accepted, ∃ r, s.runs.get? id = some r ∧ s.AcceptedRow r
  only : ∀ id r, s.runs.get? id = some r → r.cancelRequestedAt ≠ none → id ∈ s.accepted
  applies : ∀ n session, s.sessions n = some session → session.write.applies session.loaded = true
  sessions : ∀ n session, s.sessions n = some session → session.loaded.cancelRequestedAt ≠ none →
    s.SessionOk session
  notExecuted : s.executedLate = []
  interrupted : ∀ id ∈ s.interrupted, id ∈ s.accepted ∧ ∀ r, s.runs.get? id = some r →
    r.status = .interrupted

/-- The new row of an accepted run after a step. -/
structure Calm (s s' : CancelState) (r r' : JobRun) : Prop where
  ids : r'.id = r.id
  row : s'.AcceptedRow r'
  kept : r.status = .interrupted → r'.status = .interrupted
  lease : s'.busy r' = true → s.busy r = true

/-- Every accepted run has a new row, and sessions that know the cancellation stay as they are. -/
theorem Held.of_calm (h : Held s) (haccepted : s.accepted ⊆ s'.accepted)
    (hnew : ∀ id ∈ s'.accepted, id ∉ s.accepted → ∃ r, s'.runs.get? id = some r ∧ s'.AcceptedRow r)
    (hcalm : ∀ id ∈ s.accepted, ∀ r, s.runs.get? id = some r → ∃ r', s'.runs.get? id = some r' ∧
      Calm s s' r r')
    (hwas : ∀ id r', s'.runs.get? id = some r' → r'.cancelRequestedAt ≠ none → id ∈ s'.accepted)
    (hsessions : ∀ n session, s'.sessions n = some session → s.sessions n = some session)
    (hlate : s'.executedLate = s.executedLate) (hinterrupted : s'.interrupted = s.interrupted) :
    Held s' where
  rows id hid := by
    by_cases hold : id ∈ s.accepted
    · obtain ⟨r, hr, -⟩ := h.rows id hold
      obtain ⟨r', hr', hc⟩ := hcalm id hold r hr
      exact ⟨r', hr', hc.row⟩
    · exact hnew id hid hold
  only := hwas
  applies n session hn := h.applies n session (hsessions n session hn)
  sessions n session hn hcancel := by
    have hok := h.sessions n session (hsessions n session hn) hcancel
    refine ⟨haccepted hok.accepted, fun r' hr' hbusy => ?_, hok.running⟩
    obtain ⟨r, hr, -⟩ := h.rows _ hok.accepted
    obtain ⟨q, hq, hc⟩ := hcalm _ hok.accepted r hr
    obtain rfl : r' = q := Option.some.inj (hr'.symm.trans hq)
    exact hok.lease r hr (hc.lease hbusy)
  notExecuted := hlate.trans h.notExecuted
  interrupted id hid := by
    rw [hinterrupted] at hid
    obtain ⟨hacc, hi⟩ := h.interrupted id hid
    refine ⟨haccepted hacc, fun r' hr' => ?_⟩
    obtain ⟨r, hr, -⟩ := h.rows id hacc
    obtain ⟨q, hq, hc⟩ := hcalm id hacc r hr
    obtain rfl : r' = q := Option.some.inj (hr'.symm.trans hq)
    exact hc.kept (hi r hr)

/-! ### Steps that change no accepted run -/

theorem AcceptedRow.mono (h : s.AcceptedRow r) (hbusy : s'.busy r = true → s.busy r = true) :
    s'.AcceptedRow r where
  cancelled := h.cancelled
  status := h.status
  idle hne := by
    have := h.idle hne
    cases hb : s'.busy r with
    | false => rfl
    | true => rw [hbusy hb] at this; cases this

theorem Calm.same (h : s.AcceptedRow r) (hbusy : s'.busy r = true → s.busy r = true) :
    Calm s s' r r :=
  ⟨rfl, h.mono hbusy, fun h => h, hbusy⟩

/-- Only the workers or the sessions change. -/
theorem Held.of_runs (h : Held s) (hruns : s'.runs = s.runs) (haccepted : s'.accepted = s.accepted)
    (hbusy : ∀ id ∈ s.accepted, ∀ r, s.runs.get? id = some r → s'.busy r = true → s.busy r = true)
    (hsessions : ∀ n session, s'.sessions n = some session → s.sessions n = some session)
    (hlate : s'.executedLate = s.executedLate) (hinterrupted : s'.interrupted = s.interrupted) :
    Held s' := by
  refine h.of_calm (fun id hid => by rw [haccepted]; exact hid)
    (fun id hid hnot => absurd (haccepted ▸ hid) hnot) (fun id hid r hr => ?_)
    (fun id r' hr' hc => ?_) hsessions hlate hinterrupted
  · obtain ⟨q, hq, hrow⟩ := h.rows id hid
    obtain rfl : q = r := Option.some.inj (hq.symm.trans hr)
    exact ⟨q, by rw [hruns]; exact hq, .same hrow (hbusy id hid q hq)⟩
  · rw [haccepted]; rw [hruns] at hr'; exact h.only id r' hr' hc

/-- Rows change without a session. -/
theorem Held.of_update (h : Held s) {p : JobRun → Bool} {f : Assignment JobRun.id}
    (hcancel : ∀ r, p r = true → (f r).cancelRequestedAt = r.cancelRequestedAt)
    (hcalm : ∀ r, p r = true → s.AcceptedRow r →
      Calm s { s with runs := s.runs.update p f } r (f r)) :
    Held { s with runs := s.runs.update p f } := by
  refine h.of_calm (List.Subset.refl _) (fun id hid hnot => absurd hid hnot) (fun id hid r hr => ?_)
    (fun id r' hr' hc => ?_)
    (fun _ _ h => h) rfl rfl
  · obtain ⟨q, hq, hrow⟩ := h.rows id hid
    obtain rfl : q = r := Option.some.inj (hq.symm.trans hr)
    refine ⟨if p q then f q else q, by
      show (s.runs.update p f).get? id = _; rw [Table.get?_update, hq]; rfl, ?_⟩
    split
    next hp => exact hcalm q hp hrow
    next => exact .same hrow fun h => h
  · have hget : (s.runs.get? id).map (fun r => if p r then f r else r) = some r' :=
      (Table.get?_update ..).symm.trans hr'
    obtain ⟨r, hr, rfl⟩ := Option.map_eq_some_iff.1 hget
    refine h.only id r hr ?_
    by_cases hp : p r = true
    · rw [if_pos hp, hcancel r hp] at hc; exact hc
    · rw [if_neg hp] at hc; exact hc

theorem held_submit (h : Held s) {setting : Option String} {now : Time} {job : JobId}
    {trigger : SyncTrigger} :
    Held { s with runs := s.runs.submitJob parseInt setting now job trigger } := by
  unfold JobRuns.submitJob
  split
  · exact h
  · have hget : ∀ id, s.runs.get? id ≠ none → (s.runs.insert (.submitted s.runs.nextId job trigger
        (maxAttemptsOf parseInt setting) now)).get? id = s.runs.get? id := fun id hid =>
      Table.get?_insert_ne fun heq => hid (heq ▸ s.runs.get?_nextId)
    refine h.of_calm (List.Subset.refl _) (fun id hid hnot => absurd hid hnot)
      (fun id hid r hr => ?_)
      (fun id r' hr' hc => ?_) (fun _ _ h => h) rfl rfl
    · obtain ⟨q, hq, hrow⟩ := h.rows id hid
      obtain rfl : q = r := Option.some.inj (hq.symm.trans hr)
      exact ⟨q, (hget id (by rw [hq]; simp)).trans hq, .same hrow fun h => h⟩
    · rcases Table.mem_insert (Table.mem_of_get? hr') with hmem | rfl
      · exact h.only id r' (Table.get?_eq_some.2 ⟨hmem, Table.key_of_get? hr'⟩) hc
      · exact absurd rfl hc

theorem held_claim (h : Held s) {worker : String} {now : Time} {id : Nat}
    (hidle : s.executing worker = none) :
    Held { s with runs := s.runs.claimRun worker now id } := by
  unfold JobRuns.claimRun
  split
  · exact h
  · refine h.of_update (fun r _ => rfl) fun r hp hrow =>
      ⟨rfl, ⟨hrow.cancelled, .inl rfl, fun hne => absurd rfl hne⟩, ?_, ?_⟩
    · intro hi
      have hq : r.status = .queued := by simpa using (Bool.and_eq_true_iff.1 hp).2
      rw [hi] at hq; cases hq
    · intro hbusy
      simp [busy, JobRun.claimed, hidle] at hbusy

theorem held_renew (h : Held s) {worker : String} {now : Time} {id : Nat} :
    Held { s with runs := s.runs.renewJobLease worker id now } :=
  h.of_update (fun _ _ => rfl) fun _ _ hrow =>
    ⟨rfl, ⟨hrow.cancelled, hrow.status, hrow.idle⟩, fun hi => hi, fun hb => hb⟩

theorem held_dispatch (h : Held s) {worker : String} {id : Nat} :
    Held (s.act parseInt (.dispatch worker id)) := by
  unfold act
  dsimp only
  split
  next hc =>
    obtain ⟨hidle, r, hr, hcond⟩ : s.executing worker = none ∧ ∃ r, s.runs.get? id = some r ∧
        (decide (r.status = .running) && JobRuns.ownedBy worker r && r.cancelRequestedAt.isNone) =
          true := by
      exact ⟨hc.1, (Option.any_eq_true _ _).1 hc.2⟩
    have hnone : r.cancelRequestedAt = none := by simpa using (Bool.and_eq_true_iff.1 hcond).2
    have hnot : id ∉ s.accepted := by
      intro hid
      obtain ⟨q, hq, hrow⟩ := h.rows id hid
      obtain rfl : q = r := Option.some.inj (hq.symm.trans hr)
      exact hrow.cancelled hnone
    refine h.of_runs rfl rfl (fun id' hid' r' hr' hbusy => ?_) (fun _ _ h => h) (if_neg hnot) rfl
    have hne : id ≠ r'.id := by
      rintro rfl
      exact hnot ((Table.key_of_get? hr').symm ▸ hid')
    unfold busy at hbusy ⊢
    cases ho : r'.leaseOwner with
    | none => rw [ho] at hbusy; exact hbusy
    | some owner =>
      rw [ho] at hbusy
      by_cases hw : owner = worker
      · subst hw
        simp [hne] at hbusy
      · simpa [Function.update_of_ne hw] using hbusy
  · exact h

theorem held_leave (h : Held s) {worker : String} :
    Held { s with executing := Function.update s.executing worker none } := by
  refine h.of_runs rfl rfl (fun _ _ r' _ hbusy => ?_) (fun _ _ h => h) rfl rfl
  unfold busy at hbusy ⊢
  cases ho : r'.leaseOwner with
  | none => rw [ho] at hbusy; exact hbusy
  | some owner =>
    rw [ho] at hbusy
    by_cases hw : owner = worker
    · subst hw; simp at hbusy
    · simpa [Function.update_of_ne hw] using hbusy

theorem held_closeSession (h : Held s) (n : Nat) : Held (s.closeSession n) := by
  refine h.of_runs rfl rfl (fun _ _ _ _ hb => hb) (fun m session hm => ?_) rfl rfl
  by_cases hmn : m = n
  · subst hmn
    rw [show (s.closeSession m).sessions m = none from Function.update_self ..] at hm
    cases hm
  · exact (Function.update_of_ne hmn ..).symm.trans hm

theorem update_eq_some {f : Nat → Option JobSession} {n m : Nat} {x y : JobSession}
    (h : Function.update f n (some x) m = some y) : y = x ∨ f m = some y := by
  by_cases hmn : m = n
  · subst hmn
    rw [Function.update_self] at h
    exact .inl (Option.some.inj h).symm
  · rw [Function.update_of_ne hmn] at h
    exact .inr h

/-- A worker that executes an accepted run and holds its lease finds it running. -/
theorem Held.running_of_busy (h : Held s) {id : Nat} (hr : s.runs.get? id = some r)
    (hc : r.cancelRequestedAt ≠ none) (hbusy : s.busy r = true) : r.status = .running := by
  obtain ⟨q, hq, hok⟩ := h.rows id (h.only id r hr hc)
  obtain rfl : q = r := Option.some.inj (hq.symm.trans hr)
  by_contra hne
  rw [hok.idle hne] at hbusy
  cases hbusy

theorem held_open (h : Held s) {n id : Nat} {write : JobWrite} (hr : s.runs.get? id = some r)
    (happlies : write.applies r = true)
    (hexec : write.executor.all (fun worker => s.executing worker = some id) = true) :
    Held { s with sessions := Function.update s.sessions n (some ⟨write, r⟩) } := by
  have hid : r.id = id := Table.key_of_get? hr
  have hsession : ∀ session, s.SessionOk session →
      { s with sessions := Function.update s.sessions n (some ⟨write, r⟩) }.SessionOk session :=
    fun session hok => ⟨hok.accepted, hok.lease, hok.running⟩
  refine ⟨fun id' hid' => ?_, h.only, fun m session hm => ?_, fun m session hm hcancel => ?_,
    h.notExecuted,
    h.interrupted⟩
  · obtain ⟨q, hq, hok⟩ := h.rows id' hid'
    exact ⟨q, hq, hok.mono fun hb => hb⟩
  · rcases update_eq_some hm with rfl | hm
    exacts [happlies, h.applies m session hm]
  · rcases update_eq_some hm with rfl | hm
    · refine hsession _ ⟨hid ▸ h.only id r hr hcancel, fun r' hr' hbusy => ?_,
        fun worker now report hw => ?_⟩
      · obtain rfl : r' = r := Option.some.inj (hr'.symm.trans (hid ▸ hr))
        intro hnone
        rw [busy, show r'.leaseOwner = none from hnone] at hbusy
        cases hbusy
      · obtain rfl : write = .monitor worker now report := hw
        have howned : r.leaseOwner = some worker := by
          simpa [JobWrite.applies, JobRuns.ownedBy] using happlies
        have hworker : s.executing worker = some id := by simpa [JobWrite.executor] using hexec
        exact h.running_of_busy hr hcancel (by rw [busy, howned]; simp [hworker, hid])
    · exact hsession _ (h.sessions m session hm hcancel)

theorem held_read (h : Held s) {n id : Nat} {write : JobWrite} :
    Held (s.act parseInt (.read n id write)) := by
  unfold act
  dsimp only
  split
  next row hrow =>
    split_ifs with hfree hc
    · exact held_open h hrow (Bool.and_eq_true_iff.1 hc).1 (Bool.and_eq_true_iff.1 hc).2
    · exact h
    · exact h
  · exact h

/-! ### Commits -/

section Commit
variable {n : Nat} {session : JobSession}

theorem busy_flush (happlies : session.write.applies session.loaded = true)
    (hb : (s.flush session).busy (session.loaded.flush (session.write.assign session.loaded) r) =
      true) :
    s.busy r = true := by
  have howner := JobRun.flush_leaseOwner r (session.write.assign_leaseOwner happlies)
  unfold busy at hb ⊢
  rcases howner with heq | hnone
  · rw [heq] at hb; exact hb
  · rw [hnone] at hb; cases hb

/-- A commit that knows of the cancellation, or changes no status. -/
theorem calm_flush (h : Held s) (hn : s.sessions n = some session)
    (hr : s.runs.get? session.loaded.id = some r)
    (hrow : s.AcceptedRow r) (hrequest : session.write.isRequest = false)
    (hclean : s.CleanCommit session r) :
    Calm s (s.flush session) r (session.loaded.flush (session.write.assign session.loaded) r) := by
  have happlies := h.applies n session hn
  have hcancel := JobRun.flush_cancel_of_eq r (session.write.assign_cancel session.loaded hrequest)
  have hassign : (session.write.assign session.loaded).status = session.loaded.status ∨
      session.loaded.cancelRequestedAt ≠ none ∧
        (session.write.assign session.loaded).status = .interrupted ∧
        (session.write.assign session.loaded).leaseOwner = none := by
    have hfresh : session.loaded.cancelRequestedAt ≠ none → _ → _ := fun hc hw =>
      (session.write.assign_of_cancelled hc hw).imp_right fun hi => And.intro hc hi
    unfold CleanCommit at hclean
    obtain ⟨write, loaded⟩ := session
    cases write with
    | request => cases hrequest
    | closed => exact absurd hclean hrow.cancelled
    | copySyncResult now sync =>
      obtain ⟨hc, hs⟩ := hclean.resolve_left hrow.cancelled
      exact hfresh hc hs
    | monitor worker now report =>
      rcases hclean.resolve_left hrow.cancelled with hc | hs
      · exact hfresh hc ((h.sessions n _ hn hc).running worker now report rfl)
      · exact .inl hs
    | _ =>
      rcases hclean.resolve_left hrow.cancelled with hc | hs
      · exact hfresh hc trivial
      · exact .inl hs
  have hsame : (session.loaded.flush (session.write.assign session.loaded) r).status = r.status →
      Calm s (s.flush session) r
        (session.loaded.flush (session.write.assign session.loaded) r) := by
    intro hs
    refine ⟨rfl,
      ⟨by rw [hcancel]; exact hrow.cancelled, by rw [hs]; exact hrow.status, fun hne => ?_⟩,
      fun hi => hs.trans hi, busy_flush happlies⟩
    have hidle := hrow.idle (by rw [← hs]; exact hne)
    cases hb :
      (s.flush session).busy (session.loaded.flush (session.write.assign session.loaded) r) with
    | false => rfl
    | true => rw [busy_flush happlies hb] at hidle; cases hidle
  rcases hassign with hs | ⟨hc, hi, hnone⟩
  · exact hsame (JobRun.flush_status_of_eq r hs)
  · rcases JobRun.flush_status_or session.loaded (session.write.assign session.loaded)
      r with hs | hs
    · exact hsame hs
    · have hint := hs.trans hi
      have hidle : (s.flush session).busy
          (session.loaded.flush (session.write.assign session.loaded) r) = false := by
        by_cases hl : session.loaded.leaseOwner = none
        · -- no worker that executes the run has held its lease since the session loaded it
          cases hb : (s.flush session).busy
            (session.loaded.flush (session.write.assign session.loaded) r) with
          | false => rfl
          | true =>
            exact absurd hl ((h.sessions n session hn hc).lease r hr (busy_flush happlies hb))
        · rw [busy, JobRun.flush_leaseOwner_none r hnone hl]; rfl
      exact ⟨rfl, ⟨by rw [hcancel]; exact hrow.cancelled, .inr hint, fun _ => hidle⟩, fun _ => hint,
        fun hb => by rw [hidle] at hb; cases hb⟩

/-- The commit of a request that comes in time. -/
theorem accepted_request (h : Held s) (hn : s.sessions n = some session)
    (hr : s.runs.get? session.loaded.id = some r)
    (hrequest : session.write.isRequest = true) (hclean : s.CleanCommit session r) :
    (s.flush session).AcceptedRow (session.loaded.flush (session.write.assign session.loaded) r) ∧
      (r.status = .interrupted →
        (session.loaded.flush (session.write.assign session.loaded) r).status = .interrupted) := by
  have happlies := h.applies n session hn
  have hidle : s.busy r = false →
      (s.flush session).busy (session.loaded.flush (session.write.assign session.loaded) r) =
        false := by
    intro hb
    cases hb' :
      (s.flush session).busy (session.loaded.flush (session.write.assign session.loaded) r) with
    | false => rfl
    | true => rw [busy_flush happlies hb'] at hb; cases hb
  obtain ⟨write, loaded⟩ := session
  cases write with
  | request now =>
    have hcancel : (loaded.flush (JobRun.cancel now loaded) r).cancelRequestedAt ≠ none := by
      have hassigned : (JobRun.cancel now loaded).cancelRequestedAt = some now := by
        unfold JobRun.cancel
        dsimp only
        split <;> rfl
      by_cases heq : (JobRun.cancel now loaded).cancelRequestedAt = loaded.cancelRequestedAt
      · rw [JobRun.flush_cancel_of_eq r heq]
        have hloaded : loaded.cancelRequestedAt ≠ none := by rw [← heq, hassigned]; simp
        obtain ⟨q, hq, hrow⟩ := h.rows _ (h.sessions n _ hn hloaded).accepted
        obtain rfl : q = r := Option.some.inj (hq.symm.trans hr)
        exact hrow.cancelled
      · rw [show (loaded.flush (JobRun.cancel now loaded) r).cancelRequestedAt =
          _ from if_neg heq, hassigned]
        simp
    unfold CleanCommit at hclean
    dsimp only at hclean
    split at hclean
    next hq =>
      have hint : (loaded.flush (JobRun.cancel now loaded) r).status = .interrupted := by
        have hassigned : (JobRun.cancel now loaded).status = .interrupted := by
          simp [JobRun.cancel, hq, JobRun.interrupt, JobRun.release]
        rw [JobRun.flush_status_of_ne r (by rw [hassigned, hq]; simp), hassigned]
      exact ⟨⟨hcancel, .inr hint, fun _ => hidle hclean⟩, fun _ => hint⟩
    next hq =>
      have hsame : (loaded.flush (JobRun.cancel now loaded) r).status = r.status :=
        JobRun.flush_status_of_eq r (by simp [JobRun.cancel, hq])
      refine ⟨⟨hcancel, ?_, fun hne => ?_⟩, fun hi => hsame.trans hi⟩
      · rw [show ((JobWrite.request now).assign loaded) = JobRun.cancel now loaded from rfl, hsame]
        rcases hclean with hs | ⟨hs | hs, -⟩
        exacts [.inl (by rw [hs]; rfl), .inl (by rw [hs]; rfl), .inr hs]
      · rcases hclean with hs | ⟨-, hb⟩
        · exact absurd (hsame.trans hs) hne
        · exact hidle hb
  | _ => cases hrequest

theorem held_flush (h : Held s) (hn : s.sessions n = some session)
    (hclean : ∀ r, s.runs.get? session.loaded.id = some r → s.CleanCommit session r) :
    Held (s.flush session) := by
  have hget : ∀ id, (s.flush session).runs.get? id = (s.runs.get? id).map fun r =>
      if r.id == session.loaded.id then session.loaded.flush
        (session.write.assign session.loaded) r else r :=
    fun id => Table.get?_update ..
  have hsub : s.accepted ⊆ (s.flush session).accepted := by
    intro id hid
    show id ∈ ite _ _ _
    split
    exacts [List.mem_cons_of_mem _ hid, hid]
  have hadded : ∀ id ∈ (s.flush session).accepted, id ∉ s.accepted →
      id = session.loaded.id ∧ session.write.isRequest = true ∧ s.runs.contains id = true := by
    intro id hid hnot
    have hid : id ∈ ite _ _ _ := hid
    split at hid
    next hc =>
      obtain ⟨hreq, hin⟩ := Bool.and_eq_true_iff.1 hc
      obtain rfl := (List.mem_cons.1 hid).resolve_right hnot
      exact ⟨rfl, hreq, hin⟩
    next => exact absurd hid hnot
  refine h.of_calm hsub (fun id hid hnot => ?_) (fun id hid r hr => ?_) (fun id r' hr' hc => ?_)
    (fun _ _ h => h) rfl rfl
  · obtain ⟨rfl, hreq, hin⟩ := hadded id hid hnot
    obtain ⟨r, hr⟩ := Option.isSome_iff_exists.1 hin
    exact ⟨_, by rw [hget, hr, Option.map_some, if_pos (by simpa using Table.key_of_get? hr)],
      (accepted_request h hn hr hreq (hclean r hr)).1⟩
  · obtain ⟨q, hq, hrow⟩ := h.rows id hid
    obtain rfl : q = r := Option.some.inj (hq.symm.trans hr)
    refine ⟨_, by rw [hget, hq, Option.map_some], ?_⟩
    have hqid : q.id = id := Table.key_of_get? hq
    split
    next heq =>
      have heq : q.id = session.loaded.id := by simpa using heq
      rw [← hqid, heq] at hq
      cases hreq : session.write.isRequest with
      | false => exact calm_flush h hn hq hrow hreq (hclean q hq)
      | true =>
        obtain ⟨hrow', hkept⟩ := accepted_request h hn hq hreq (hclean q hq)
        exact ⟨rfl, hrow', hkept, busy_flush (h.applies n session hn)⟩
    next => exact .same hrow fun hb => hb
  · rw [hget] at hr'
    obtain ⟨r, hr, rfl⟩ := Option.map_eq_some_iff.1 hr'
    have hrid : r.id = id := Table.key_of_get? hr
    by_cases heq : r.id = session.loaded.id
    · rw [if_pos (by simpa using heq)] at hc
      cases hreq : session.write.isRequest with
      | false =>
        rw [JobRun.flush_cancel_of_eq r (session.write.assign_cancel session.loaded hreq)] at hc
        exact hsub (h.only id r hr hc)
      | true =>
        show id ∈ ite _ _ _
        have hin : s.runs.contains session.loaded.id = true := by
          rw [← heq, hrid]; exact Option.isSome_iff_exists.2 ⟨r, hr⟩
        rw [if_pos (by rw [hreq, hin]; rfl), ← hrid, heq]
        exact List.mem_cons_self
    · rw [if_neg (by simpa using heq)] at hc
      exact hsub (h.only id r hr hc)

end Commit

theorem held_act (h : Held s) {e : CancelEvent} (hclean : s.Clean e) : Held (s.act parseInt e) := by
  cases e with
  | submit setting now job trigger => exact held_submit h
  | claim worker now id =>
    unfold act
    dsimp only
    split
    next hidle => exact held_claim h hidle
    next => exact h
  | renew worker now id => exact held_renew h
  | dispatch worker id => exact held_dispatch h
  | leave worker => exact held_leave h
  | read n id write => exact held_read h
  | commit n =>
    unfold act
    dsimp only
    split
    next session hn =>
      refine held_closeSession (held_flush h hn fun r hr => ?_) n
      exact hclean (session, r) (by simp [target, hn, hr])
    next => exact h
  | abort n => exact held_closeSession h n

theorem interrupted_act (e : CancelEvent) : (s.act parseInt e).interrupted = s.interrupted := by
  cases e with
  | claim => unfold act; dsimp only; split <;> rfl
  | dispatch => unfold act; dsimp only; split <;> rfl
  | read => unfold act; dsimp only; split <;> [split_ifs; skip] <;> rfl
  | commit => unfold act; dsimp only; split <;> rfl
  | _ => rfl

theorem held_step (h : Held s) {e : CancelEvent} (hclean : s.Clean e) :
    Held (s.step parseInt e) := by
  have hact : Held (s.act parseInt e) := held_act h hclean
  refine ⟨fun id hid => ?_, hact.only, hact.applies, fun n session hn hc => ?_, hact.notExecuted,
    fun id hid => ?_⟩
  · obtain ⟨r, hr, hrow⟩ := hact.rows id hid
    exact ⟨r, hr, hrow.mono fun hb => hb⟩
  · have hok := hact.sessions n session hn hc
    exact ⟨hok.accepted, hok.lease, hok.running⟩
  · rcases List.mem_append.1 hid with hid | hid
    · exact hact.interrupted id (by rw [interrupted_act]; exact hid)
    · obtain ⟨hacc, hi⟩ := List.mem_filter.1 hid
      refine ⟨hacc, fun r hr => ?_⟩
      obtain ⟨q, hq, hs⟩ := (Option.any_eq_true _ _).1 hi
      obtain rfl : q = r := Option.some.inj (hq.symm.trans hr)
      simpa using hs

theorem held_start : Held {} where
  rows _ h := nomatch h
  only _ _ h := nomatch h
  applies _ _ h := nomatch h
  sessions _ _ h := nomatch h
  notExecuted := rfl
  interrupted _ h := nomatch h

theorem Held.durable (h : Held s) : Durable s where
  final id hid r hr ha := by
    obtain ⟨q, hq, hrow⟩ := h.rows id hid
    obtain rfl : q = r := Option.some.inj (hq.symm.trans hr)
    rcases hrow.status with hs | hs
    · rw [ha] at hs; cases hs
    · exact hs
  notExecuted := h.notExecuted
  kept id hid r hr := by rw [(h.interrupted id hid).2 r hr]; simp

/-- In a run whose commits are clean, an accepted cancellation lasts in every state: the run is not
dispatched again, does not run again once interrupted, and ends interrupted. -/
theorem accepted_cancellation_durable (parseInt : String → Option Int) (es : List CancelEvent)
    (hes : Along (step parseInt) Clean {} es) : Durable (es.foldl (step parseInt) {}) := by
  have h : Held (es.foldl (step parseInt) {}) :=
    Along.invariant (fun _ _ h hclean => held_step h hclean) held_start hes
  exact h.durable

/-- A synchronization is cancelled while it runs and while its monitor is about to report. -/
theorem accepted_cancellation_durable_sync :
    let es : List CancelEvent := [.submit none 0 .syncPlex .manual, .claim "w" 1 1, .dispatch "w" 1,
      .read 0 1 (.started "w" (.sync 7)), .commit 0, .read 1 1 (.request 2),
      .read 0 1 (.monitor "w" 3 ⟨.running, 10, 1, 0, 0, ""⟩), .commit 1, .commit 0,
      .read 0 1 (.monitor "w" 4 ⟨.succeeded, 100, 1, 0, 0, ""⟩), .commit 0]
    let s := es.foldl (step fun _ => some 3) {}
    (s.accepted = [1] ∧ s.runs.rows.map (·.status) = [.interrupted]) ∧ Durable s :=
  ⟨by decide +kernel, accepted_cancellation_durable (fun _ => some 3) _ (by decide +kernel)⟩

/-- Maintenance that is cancelled while it runs. -/
def cancelledMaintenance : List CancelEvent :=
  [.submit none 0 .maintenance .manual, .claim "w" 1 1, .dispatch "w" 1,
    .read 0 1 (.request 2), .commit 0,
    .read 1 1 (.closed "w" 3 (some (0, 0)) ""), .commit 1]

/-- It ends as succeeded. -/
theorem cancelled_maintenance_succeeds :
    ¬ ∀ (parseInt : String → Option Int) (es : List CancelEvent),
      Durable (es.foldl (step parseInt) {}) := by
  intro h
  have hd := h (fun _ => some 3) cancelledMaintenance
  have hstatus : (CancelState.runs (cancelledMaintenance.foldl (step fun _ => some 3) {})).rows.map
      (fun r => (r.id, r.status)) = [(1, .succeeded)] := by decide +kernel
  have haccepted : CancelState.accepted (cancelledMaintenance.foldl (step fun _ => some 3) {}) =
      [1] := by decide +kernel
  generalize cancelledMaintenance.foldl (step fun _ => some 3) {} = s at hd hstatus haccepted
  obtain ⟨r, hrow, hr⟩ := List.map_eq_singleton_iff.1 hstatus
  obtain ⟨hid, hs⟩ : r.id = 1 ∧ r.status = .succeeded := by simpa using hr
  have hget : s.runs.get? 1 = some r := Table.get?_eq_some.2 ⟨by rw [hrow]; simp, hid⟩
  have hfinal := hd.final 1 (by rw [haccepted]; simp) r hget (by rw [hs]; rfl)
  rw [hs] at hfinal
  cases hfinal

end CancelState

end Euvieouvi
