import Euvieouvi.Jobs.Queue
import Euvieouvi.Lib.ReadyQueue

/-!
# Claiming a run

What `claim_next_job` (`sync/job_worker.py`) starts. A queued run waits for the queued runs of its
prerequisites that have smaller ids, whether or not these may start yet; the oldest queued run waits
for none. So the dependencies never stop the queue: only a running run, or the moments at which the
queued runs become available, can.
-/

namespace Euvieouvi

namespace JobRun
variable {a b c : JobRun}

theorem nullsFirst_trans {a b c : Option Time} (hab : nullsFirst a b = true)
    (hbc : nullsFirst b c = true) :
    nullsFirst a c = true := by
  cases a <;> cases b <;> cases c <;> simp_all [nullsFirst]
  exact lt_trans hab hbc

theorem nullsFirst_total (a b : Option Time) :
    nullsFirst a b = true ∨ a = b ∨ nullsFirst b a = true := by
  cases a <;> cases b <;> simp [nullsFirst]
  exact lt_trichotomy _ _

theorem claimOrder_refl (a : JobRun) : a.claimOrder a := .inr ⟨rfl, .inr ⟨rfl, Nat.le_refl _⟩⟩

theorem claimOrder_trans (hab : a.claimOrder b) (hbc : b.claimOrder c) : a.claimOrder c := by
  rcases hab with hab | ⟨hp, hab⟩ <;> rcases hbc with hbc | ⟨hp', hbc⟩
  · exact .inl (hab.trans hbc)
  · exact .inl (hp' ▸ hab)
  · exact .inl (hp ▸ hbc)
  refine .inr ⟨hp.trans hp', ?_⟩
  rcases hab with hab | ⟨ht, hab⟩ <;> rcases hbc with hbc | ⟨ht', hbc⟩
  · exact .inl (nullsFirst_trans hab hbc)
  · exact .inl (ht' ▸ hab)
  · exact .inl (ht ▸ hbc)
  · exact .inr ⟨ht.trans ht', hab.trans hbc⟩

theorem claimOrder_total (a b : JobRun) : a.claimOrder b ∨ b.claimOrder a := by
  unfold claimOrder
  rcases Nat.lt_trichotomy a.jobId.priority b.jobId.priority with h | h | h
  · exact .inl (.inl h)
  · rcases nullsFirst_total a.availableAt b.availableAt with ht | ht | ht
    · exact .inl (.inr ⟨h, .inl ht⟩)
    · rcases Nat.le_total a.id b.id with hid | hid
      · exact .inl (.inr ⟨h, .inr ⟨ht, hid⟩⟩)
      · exact .inr (.inr ⟨h.symm, .inr ⟨ht.symm, hid⟩⟩)
    · exact .inr (.inr ⟨h.symm, .inl ht⟩)
  · exact .inr (.inl h)

instance : Std.Total claimOrder := ⟨claimOrder_total⟩
instance : IsTrans JobRun claimOrder := ⟨fun _ _ _ => claimOrder_trans⟩

/-- The run may start at this moment as far as its retry time goes. -/
def availableBy (now : Time) (r : JobRun) : Bool := r.availableAt.all (· ≤ now)

/-- A run of the first is one that a run of the second has to wait for. -/
def prerequisite (r dependency : JobRun) : Bool := r.jobId.dependencies.contains dependency.jobId

end JobRun

namespace JobRuns
variable {runs : JobRuns} {now : Time} {worker : String} {r q : JobRun}

theorem candidate_eq (now : Time) (runs : JobRuns) :
    runs.candidate now = ReadyQueue.firstReady JobRun.claimOrder JobRun.id JobRun.prerequisite
      (JobRun.availableBy now) runs.queued :=
  rfl

theorem mem_queued : r ∈ runs.queued ↔ r ∈ runs.rows ∧ r.status = .queued := by
  simp [queued]

/-- A queued run of a prerequisite job with a smaller id. -/
def WaitsFor (runs : JobRuns) (r dependency : JobRun) : Prop :=
  dependency ∈ runs.rows ∧ dependency.status = .queued ∧ dependency.jobId ∈ r.jobId.dependencies ∧
    dependency.id < r.id

/-- A run that may be started at this moment. -/
structure Startable (runs : JobRuns) (now : Time) (r : JobRun) : Prop where
  mem : r ∈ runs.rows
  queued : r.status = .queued
  available : ∀ t, r.availableAt = some t → t ≤ now
  free : ∀ dependency, ¬ runs.WaitsFor r dependency
  idle : ∀ other ∈ runs.rows, other.status ≠ .running

/-- The run is started by the claim: its row becomes the one that the `UPDATE` writes, and no other
row changes. -/
def Starts (runs : JobRuns) (worker : String) (now : Time) (r : JobRun) : Prop :=
  r ∈ runs.rows ∧ r.status ≠ .running ∧
    (runs.claimNextJob worker now).get? r.id = some (JobRun.claimed worker now r) ∧
    ∀ id, id ≠ r.id → (runs.claimNextJob worker now).get? id = runs.get? id

theorem ready_iff (hidle : ∀ other ∈ runs.rows, other.status ≠ .running) :
    ReadyQueue.Ready JobRun.id JobRun.prerequisite (JobRun.availableBy now) runs.queued r ↔
    runs.Startable now r := by
  have hfree : ReadyQueue.heldUp JobRun.id JobRun.prerequisite runs.queued r = false ↔
      ∀ d, ¬ runs.WaitsFor r d := by
    rw [Bool.eq_false_iff, Ne, ReadyQueue.heldUp_eq_true]
    simp only [mem_queued, JobRun.prerequisite, List.contains_iff_mem, WaitsFor,
      not_exists, and_assoc]
  have havailable : JobRun.availableBy now r = true ↔ ∀ t, r.availableAt = some t → t ≤ now := by
    simp [JobRun.availableBy, Option.all_eq_true]
  refine ⟨fun ⟨hq, ha, hf⟩ => ?_, fun h => ?_⟩
  · obtain ⟨hmem, hqueued⟩ := mem_queued.1 hq
    exact ⟨hmem, hqueued, havailable.1 ha, hfree.1 hf, hidle⟩
  · exact ⟨mem_queued.2 ⟨h.mem, h.queued⟩, havailable.2 h.available, hfree.2 h.free⟩

/-- What the claim does: the candidate is started when nothing runs, and nothing happens
otherwise. -/
theorem claimNextJob_cases (runs : JobRuns) (worker : String) (now : Time) :
    (∃ other ∈ runs.rows, other.status = .running) ∧ runs.claimNextJob worker now = runs ∨
    (∀ other ∈ runs.rows, other.status ≠ .running) ∧ runs.candidate now = none ∧
    runs.claimNextJob worker now = runs ∨
    (∀ other ∈ runs.rows, other.status ≠ .running) ∧ ∃ r, runs.candidate now = some r ∧
    runs.Starts worker now r := by
  by_cases hidle : ∀ other ∈ runs.rows, other.status ≠ .running
  · refine .inr ?_
    cases hc : runs.candidate now with
    | none => exact .inl ⟨hidle, rfl, by simp [claimNextJob, hc]⟩
    | some r =>
      obtain ⟨hmem, hqueued⟩ :=
        mem_queued.1 (ReadyQueue.ready_of_firstReady (candidate_eq now runs ▸ hc)).1
      have hclaim : runs.claimNextJob worker now =
          runs.update (fun q => q.id == r.id && q.status = .queued)
            (JobRun.claimed worker now) := by
        simp only [claimNextJob, hc, claimRun]
        rw [if_neg (by simpa using hidle)]
      refine .inr ⟨hidle, r, rfl, hmem, by rw [hqueued]; decide, ?_, fun id hid => ?_⟩
      · rw [hclaim, Table.get?_update, Table.get?_of_mem hmem]
        simp [hqueued]
      · rw [hclaim, Table.get?_update]
        cases hq : runs.get? id with
        | none => rfl
        | some q =>
          have := Table.key_of_get? hq
          simp_all
  · push Not at hidle
    obtain ⟨other, hmem, hrunning⟩ := hidle
    refine .inl ⟨⟨other, hmem, hrunning⟩, ?_⟩
    have hany : (runs.rows.any fun r => decide (r.status = .running)) = true :=
      List.any_eq_true.2 ⟨other, hmem, by simpa using hrunning⟩
    unfold claimNextJob
    split
    · simp only [claimRun]
      rw [if_pos hany]
    · rfl

/-- No run is started twice over: what the claim starts is one run. -/
theorem Starts.unique (h : runs.Starts worker now r) (hq : runs.Starts worker now q) :
    q.id = r.id := by
  by_contra hne
  have hsame := h.2.2.2 q.id hne
  rw [hq.2.2.1, Table.get?_of_mem hq.1] at hsame
  exact hq.2.1 (Option.some.inj hsame ▸ rfl)

theorem startable_of_starts (h : runs.Starts worker now r) :
    runs.Startable now r ∧ ∀ q, runs.Startable now q → r.claimOrder q := by
  have hne : runs.claimNextJob worker now ≠ runs := fun heq => by
    have hr := h.2.2.1
    rw [heq, Table.get?_of_mem h.1] at hr
    exact h.2.1 (Option.some.inj hr ▸ rfl)
  rcases claimNextJob_cases runs worker now with ⟨-, heq⟩ | ⟨-, -, heq⟩ | ⟨hidle, c, hc, hs⟩
  · exact absurd heq hne
  · exact absurd heq hne
  · have hrc : r = c := runs.eq_of_key_eq h.1 hs.1 (hs.unique h)
    subst hrc
    rw [candidate_eq] at hc
    refine ⟨(ready_iff hidle).1 (ReadyQueue.ready_of_firstReady hc), fun q hq => ?_⟩
    exact ReadyQueue.prefers_of_firstReady JobRun.claimOrder_refl hc ((ready_iff hidle).2 hq)

theorem exists_starts (h : runs.Startable now r) : ∃ q, runs.Starts worker now q := by
  rcases claimNextJob_cases runs worker now with ⟨⟨other, hmem, hrunning⟩, -⟩ | ⟨hidle,
    hnone, -⟩ | ⟨-, c, -, hs⟩
  · exact absurd hrunning (h.idle other hmem)
  · have hsome : (runs.candidate now).isSome = true := by
      rw [candidate_eq]
      exact ReadyQueue.firstReady_isSome.2 ⟨r, (ready_iff hidle).2 h⟩
    rw [hnone] at hsome
    cases hsome
  · exact ⟨c, hs⟩

/-- A queue that is not empty has a run to start, when nothing runs and every retry time has
come. -/
theorem exists_startable (hr : r ∈ runs.rows) (hqueued : r.status = .queued)
    (hidle : ∀ other ∈ runs.rows, other.status ≠ .running)
    (hall : ∀ q ∈ runs.rows, q.status = .queued → ∀ t, q.availableAt = some t → t ≤ now) :
    ∃ q, runs.Startable now q := by
  have hmay : ∀ q ∈ runs.queued, JobRun.availableBy now q = true := by
    intro q hq
    obtain ⟨hmem, hq⟩ := mem_queued.1 hq
    simpa [JobRun.availableBy, Option.all_eq_true] using hall q hmem hq
  obtain ⟨q, hq⟩ := ReadyQueue.exists_ready (mem_queued.2 ⟨hr, hqueued⟩) hmay
  exact ⟨q, (ready_iff hidle).1 hq⟩

/-- `claim_next_job` starts at most one run and writes to no other row. It starts none while another
run is running; the run it starts is queued and available, waits for no older queued run of a
prerequisite, and is the first of all runs that could be started, by priority, availability and id.
It starts one as soon as there is one that could be started, and so always when nothing is running,
some run is queued and all queued runs are available. -/
theorem claim_respects_dependencies (runs : JobRuns) (worker : String) (now : Time) :
    (runs.claimNextJob worker now = runs ∨ ∃ r, runs.Starts worker now r) ∧
    (∀ r, runs.Starts worker now r → (∀ other ∈ runs.rows, other.status ≠ .running) ∧
      r.status = .queued ∧
      (∀ t, r.availableAt = some t → t ≤ now) ∧ (∀ dependency, ¬ runs.WaitsFor r dependency) ∧
      ∀ q, runs.Startable now q → r.claimOrder q) ∧
    ((∃ r, runs.Startable now r) → ∃ r, runs.Starts worker now r) ∧
    ((∃ r ∈ runs.rows, r.status = .queued) → (∀ other ∈ runs.rows, other.status ≠ .running) →
      (∀ q ∈ runs.rows, q.status = .queued → ∀ t, q.availableAt = some t → t ≤ now) →
        ∃ r, runs.Starts worker now r) := by
  refine ⟨?_, fun r hr => ?_, fun ⟨r, hr⟩ => exists_starts hr,
    fun ⟨r, hmem, hqueued⟩ hidle hall => ?_⟩
  · rcases claimNextJob_cases runs worker now with ⟨-, heq⟩ | ⟨-, -, heq⟩ | ⟨-, r, -, hs⟩
    · exact .inl heq
    · exact .inl heq
    · exact .inr ⟨r, hs⟩
  · obtain ⟨hstart, hfirst⟩ := startable_of_starts hr
    exact ⟨hstart.idle, hstart.queued, hstart.available, hstart.free, hfirst⟩
  · obtain ⟨q, hq⟩ := exists_startable hmem hqueued hidle hall
    exact exists_starts hq

end JobRuns

end Euvieouvi
