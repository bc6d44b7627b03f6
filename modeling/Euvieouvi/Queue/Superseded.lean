import Euvieouvi.Queue.AsyncTasks

/-!
# Superseded positions

`_is_superseded` drops a resume position as soon as a completion of its item is stored in another
task, whenever that completion was watched and however long it has been blocked. `obsolete_iff` says
which queues make that right: those whose newest completion of the item is no older than the
position. A position of a second viewing is lost to a completion of the first that still waits for
its retry (`newer_position_dropped`).
-/

namespace Euvieouvi

namespace WatchUpdate

def CompletionOf (position u : WatchUpdate) : Prop :=
  u.completed = true ∧ u.sourceId = position.sourceId ∧ u.externalId = position.externalId

instance (position u : WatchUpdate) : Decidable (position.CompletionOf u) :=
  inferInstanceAs (Decidable (_ ∧ _))

end WatchUpdate

/-- The payload and its successor. -/
def AsyncTask.payloads (t : AsyncTask) : List WatchUpdate := t.payload :: t.pendingPayload.toList

namespace Tasks
variable {tasks : Tasks} {id : Nat} {position : WatchUpdate}

/-- The completions of the item that the queue holds. -/
def queuedCompletions (position : WatchUpdate) (tasks : Tasks) : List WatchUpdate :=
  (tasks.rows.flatMap AsyncTask.payloads).filter (position.CompletionOf ·)

/-- When the item was last completed, as far as the queue knows. -/
def lastCompletion (position : WatchUpdate) (tasks : Tasks) : Option Time :=
  ((tasks.queuedCompletions position).map (·.watchedAt)).max?

/-- Another task is about a completion of the item. -/
def CompletesElsewhere (id : Nat) (position : WatchUpdate) (tasks : Tasks) : Prop :=
  ∃ t ∈ tasks.rows, t.id ≠ id ∧ position.CompletionOf t.payload

instance : Decidable (tasks.CompletesElsewhere id position) :=
  inferInstanceAs (Decidable (∃ t ∈ tasks.rows, _))

theorem isSuperseded_iff :
    tasks.isSuperseded id position = true ↔ position.completed = false ∧
    tasks.CompletesElsewhere id position := by
  simp [isSuperseded, CompletesElsewhere, WatchUpdate.CompletionOf, and_assoc]

/-- Some completion is no older than the position exactly when the last one is not. -/
theorem exists_completion_iff :
    (∃ c ∈ tasks.queuedCompletions position, position.watchedAt ≤ c.watchedAt) ↔
      ∃ time ∈ tasks.lastCompletion position, position.watchedAt ≤ time := by
  constructor
  · rintro ⟨c, hc, hle⟩
    have hmem : c.watchedAt ∈ (tasks.queuedCompletions position).map (·.watchedAt) :=
      List.mem_map_of_mem hc
    cases hlast : tasks.lastCompletion position with
    | none =>
      rw [lastCompletion, List.max?_eq_none_iff] at hlast
      rw [hlast] at hmem
      cases hmem
    | some last => exact ⟨last, rfl, hle.trans ((List.max?_eq_some_iff.1 hlast).2 _ hmem)⟩
  · rintro ⟨last, hlast, hle⟩
    obtain ⟨c, hc, rfl⟩ := List.mem_map.1 (List.max?_eq_some_iff.1 hlast).1
    exact ⟨c, hc, hle⟩

end Tasks

deriving instance DecidableEq for Execution

namespace QueueState

/-- The executor, having read a position, finishes its task without applying it. -/
def Discards (py : PyLib) (s : QueueState) (id : Nat) (position : WatchUpdate) : Prop :=
  s.execution = .read id position ∧ position.completed = false ∧
    (s.step py .superseded).execution = .finishing id position

theorem discards_iff {py : PyLib} {s : QueueState} {id : Nat} {position : WatchUpdate} :
    s.Discards py id position ↔ s.execution = .read id position ∧ position.completed = false ∧
      s.tasks.CompletesElsewhere id position := by
  refine and_congr_right fun hread => and_congr_right fun hposition => ?_
  rw [step, hread]
  dsimp only
  by_cases h : s.tasks.isSuperseded id position = true
  · rw [if_pos h]
    exact ⟨fun _ => (Tasks.isSuperseded_iff.1 h).2, fun _ => rfl⟩
  · rw [if_neg h]
    refine ⟨fun heq => (by cases heq), fun helsewhere => ?_⟩
    exact absurd (Tasks.isSuperseded_iff.2 ⟨hposition, helsewhere⟩) h

/-- Whatever the queue holds, the executor drops only positions that a queued completion follows,
exactly when the last completion of the item is no older than the position wherever another task is
about one. -/
theorem obsolete_iff (py : PyLib) (s : QueueState) :
    (∀ id position, s.Discards py id position →
        ∃ c ∈ s.tasks.queuedCompletions position, position.watchedAt ≤ c.watchedAt) ↔
      ∀ id position, s.execution = .read id position → position.completed = false →
        s.tasks.CompletesElsewhere id position →
          ∃ time ∈ s.tasks.lastCompletion position, position.watchedAt ≤ time := by
  refine forall_congr' fun id => forall_congr' fun position => ?_
  rw [discards_iff, Tasks.exists_completion_iff]
  exact ⟨fun h hread hposition helsewhere => h ⟨hread, hposition, helsewhere⟩,
    fun h hdiscards => h hdiscards.1 hdiscards.2.1 hdiscards.2.2⟩

/-- The completion of the first viewing fails and waits; the second viewing stops at ten minutes. -/
def secondViewing : List QueueEvent :=
  let completion : WatchUpdate := ⟨1, "10", 0, none, true, none⟩
  let position : WatchUpdate := ⟨1, "10", 5, some 600000, false, none⟩
  [.enqueueRead 1 completion, .enqueueWrite 1 0, .select 0, .claim 0, .readTask, .superseded,
    .applied (.error "ConnectorError"), .readAttempts, .retain 0,
    .enqueueRead 2 position, .enqueueWrite 2 5, .select 5, .claim 5, .readTask]

theorem newer_position_dropped :
    ¬ ∀ events : List QueueEvent, ∀ id position, (run .plain events).Discards .plain id position →
        ∃ c ∈ (run .plain events).tasks.queuedCompletions position,
          position.watchedAt ≤ c.watchedAt := by
  intro h
  have hdiscards : (run .plain secondViewing).Discards .plain 2
      ⟨1, "10", 5, some 600000, false, none⟩ := by
    refine ⟨?_, rfl, ?_⟩ <;> decide +kernel
  obtain ⟨c, hc, hle⟩ := h secondViewing 2 _ hdiscards
  have hlast : (run .plain secondViewing).tasks.lastCompletion
      ⟨1, "10", 5, some 600000, false, none⟩ = some 0 := by
    decide +kernel
  obtain ⟨time, htime, hle⟩ := Tasks.exists_completion_iff.1 ⟨c, hc, hle⟩
  rw [hlast] at htime
  cases htime
  exact absurd hle (by decide)

end QueueState

end Euvieouvi
