import Euvieouvi.Queue.AsyncTasks

/-!
# No instant update is lost

`Kept` says that the last committed payload of every dedup key is stored in a task or was consumed.
It fails when an enqueue that read an idle task writes its payload after an execution has read the
row: the execution then deletes the newer payload (`not_kept_of_late_write`). `InTime` names the
writes and recoveries that cannot do this, and `QueueInv` is the invariant that every step in time
keeps: each row's newest payload is the last committed one, and what an execution has read is the
row's payload unless a successor waits in it.
-/

namespace Euvieouvi

open QueueState

variable {py : PyLib}

/-- An enqueue that loaded `t` writes to the row `r` while `x` is the payload an execution has read.
The columns its flush leaves out still hold its payload, and a payload it assigns directly does not
pass a waiting successor and is not written below an execution of another payload. -/
def AsyncTask.Lands (payload : WatchUpdate) (t r : AsyncTask)
    (x : Option (Nat × WatchUpdate)) : Prop :=
  r.dedupKey = t.dedupKey ∧
    if t.status = .processing then
      t.pendingPayload = some payload →
        r.pendingPayload = some payload ∨ r.pendingPayload = none ∧ r.payload = payload
    else
      r.pendingPayload = none ∧ (t.payload = payload → r.payload = payload) ∧
        ∀ y ∈ x, y.1 = t.id → y.2 = payload

instance (payload : WatchUpdate) (t r : AsyncTask) (x : Option (Nat × WatchUpdate)) :
    Decidable (t.Lands payload r x) :=
  inferInstanceAs (Decidable (_ ∧ _))

namespace QueueState

/-- The last committed payload of every dedup key is stored in its task or has been consumed. -/
def Kept (s : QueueState) : Prop :=
  ∀ key p, s.committed key = some p →
    (∃ t ∈ s.tasks.rows, t.dedupKey = key ∧ (t.payload = p ∨ t.pendingPayload = some p)) ∨
      s.consumed key = some p

/-- Every task that is gone in `s'` carried nothing newer than what its execution had read. -/
def DeletesOnlyRead (s s' : QueueState) : Prop :=
  ∀ t ∈ s.tasks.rows, s'.tasks.get? t.id = none → s.execution.reading = some (t.id, t.newest)

/-- The write of an enqueue that loaded `t` finds its task under the same id, or has something to
write and is rolled back. -/
def WriteInTime (now : Time) (payload : WatchUpdate) (t : AsyncTask) (s : QueueState) : Prop :=
  (s.tasks.get? t.id = none → t.requeue now payload ≠ t) ∧
    ∀ r ∈ s.tasks.get? t.id, t.Lands payload r s.execution.reading

/-- The task an enqueue assigns to: the one it loaded, or the one that made its insert fail. -/
def target (py : PyLib) (e : Enqueue) (s : QueueState) : Option AsyncTask :=
  e.existing.or (s.tasks.byKey (e.payload.dedupKey py))

def InTime (py : PyLib) (s : QueueState) : QueueEvent → Prop
  | .enqueueWrite client now =>
    ∀ e ∈ s.enqueues.find? (·.client == client), ∀ t ∈ s.target py e, s.WriteInTime now e.payload t
  | .recover =>
    ∀ x ∈ s.execution.reading, ∀ t ∈ s.tasks.get? x.1, t.status = .processing →
      t.pendingPayload = none
  | _ => True

instance (now : Time) (payload : WatchUpdate) (t : AsyncTask) (s : QueueState) :
    Decidable (s.WriteInTime now payload t) :=
  inferInstanceAs (Decidable (_ ∧ _))

instance (s : QueueState) : ∀ e, Decidable (InTime py s e)
  | .enqueueWrite _ _ | .recover => inferInstanceAs (Decidable (∀ _ ∈ _, _))
  | .enqueueRead _ _ | .enqueueAbort _ | .select _ | .claim _ | .readTask | .superseded | .applied _
  | .finish _ | .readAttempts | .retain _ | .retryAll _ | .crash => isTrue trivial

end QueueState

structure QueueInv (py : PyLib) (s : QueueState) : Prop where
  newest : ∀ t ∈ s.tasks.rows, s.committed t.dedupKey = some t.newest
  payloadKey : ∀ t ∈ s.tasks.rows, t.payload.dedupKey py = t.dedupKey
  pendingKey : ∀ t ∈ s.tasks.rows, ∀ p, t.pendingPayload = some p → p.dedupKey py = t.dedupKey
  unique : ∀ t ∈ s.tasks.rows, ∀ t' ∈ s.tasks.rows, t.dedupKey = t'.dedupKey → t = t'
  absent : ∀ key p, s.committed key = some p →
    (∃ t ∈ s.tasks.rows, t.dedupKey = key) ∨ s.consumed key = some p
  loaded : ∀ e ∈ s.enqueues, ∀ t, e.existing = some t → t.dedupKey = e.payload.dedupKey py
  reading : ∀ id p, s.execution.reading = some (id, p) →
    ∃ t ∈ s.tasks.rows, t.id = id ∧ p.dedupKey py = t.dedupKey ∧
      (t.pendingPayload = none → t.payload = p)

namespace AsyncTask

theorem newest_of_none {t : AsyncTask} (h : t.pendingPayload = none) : t.newest = t.payload := by
  simp [newest, h]

/-- `u` carries what `t` carries, possibly with the successor moved into the payload. -/
def Carries (u t : AsyncTask) : Prop :=
  u.payload = t.payload ∧ u.pendingPayload = t.pendingPayload ∨
    u.payload = t.newest ∧ u.pendingPayload = none

theorem Carries.newest {u t : AsyncTask} (h : u.Carries t) : u.newest = t.newest := by
  rcases h with ⟨h1, h2⟩ | ⟨h1, h2⟩
  · simp [AsyncTask.newest, h1, h2]
  · rw [newest_of_none h2, h1]

theorem Carries.refl (t : AsyncTask) : t.Carries t := .inl ⟨rfl, rfl⟩

theorem Carries.foldPending (t : AsyncTask) : t.foldPending.Carries t := .inr ⟨rfl, rfl⟩

end AsyncTask

namespace AsyncTask
variable {now : Time} {payload : WatchUpdate} {t r : AsyncTask} {x : Option (Nat × WatchUpdate)}

theorem requeue_of_processing (h : t.status = .processing) :
    t.requeue now payload = { t with pendingPayload := some payload, nextAttemptAt := now } := by
  unfold requeue; rw [h]

theorem requeue_of_not_processing (h : t.status ≠ .processing) :
    t.requeue now payload = { t with
      payload := payload, status := .pending, attempts := 0, lastError :=
        none, nextAttemptAt := now } := by
  unfold requeue; split
  · contradiction
  · rfl

theorem flush_payload (now : Time) (payload : WatchUpdate) (t r : AsyncTask) :
    (t.flush (t.requeue now payload) r).payload = r.payload ∨
      (t.flush (t.requeue now payload) r).payload = payload := by
  by_cases hs : t.status = .processing
  · left; simp [flush, requeue_of_processing hs]
  · simp only [flush, requeue_of_not_processing hs]
    by_cases hp : payload = t.payload
    · exact .inl (if_pos hp)
    · exact .inr (if_neg hp)

theorem flush_newest (h : t.Lands payload r x) :
    (t.flush (t.requeue now payload) r).newest = payload := by
  unfold Lands at h
  by_cases hs : t.status = .processing
  · rw [if_pos hs] at h
    simp only [newest, flush, requeue_of_processing hs]
    by_cases hp : t.pendingPayload = some payload
    · rcases h.2 hp with hr | ⟨hr, hrp⟩ <;> simp [*]
    · simp [Ne.symm hp]
  · rw [if_neg hs] at h
    simp only [newest, flush, requeue_of_not_processing hs, if_true, h.2.1, Option.getD_none]
    by_cases hp : payload = t.payload
    · rw [if_pos hp]; exact h.2.2.1 hp.symm
    · exact if_neg hp

theorem newest_of_requeue_eq (hsame : t.requeue now payload = t) (h : t.Lands payload r x) :
    r.newest = payload := by
  have hflush : t.flush (t.requeue now payload) r = r := by rw [hsame]; simp [flush]
  rw [← hflush]; exact flush_newest h

/-- An execution that has read the row still finds its payload there, unless a successor waits. -/
theorem flush_read {q : WatchUpdate} (h : t.Lands payload r (some (t.id, q)))
    (hread : r.pendingPayload = none → r.payload = q)
    (hnone : (t.flush (t.requeue now payload) r).pendingPayload = none) :
    (t.flush (t.requeue now payload) r).payload = q := by
  unfold Lands at h
  by_cases hs : t.status = .processing
  · simp only [flush, requeue_of_processing hs] at hnone ⊢
    by_cases hp : some payload = t.pendingPayload
    · rw [if_pos hp] at hnone; simpa using hread hnone
    · rw [if_neg hp] at hnone; cases hnone
  · rw [if_neg hs] at h
    rcases flush_payload now payload t r with hp | hp <;> rw [hp]
    exacts [hread h.2.1, (h.2.2.2 _ rfl rfl).symm]

end AsyncTask

theorem Tasks.byKey_eq_some {tasks : Tasks} {key : String} {t : AsyncTask}
    (h : tasks.byKey key = some t) :
    t ∈ tasks.rows ∧ t.dedupKey = key :=
  ⟨List.mem_of_find?_eq_some h, by simpa using List.find?_some h⟩

theorem Tasks.byKey_eq_none {tasks : Tasks} {key : String} :
    tasks.byKey key = none ↔ ∀ t ∈ tasks.rows, t.dedupKey ≠ key := by
  simp [Tasks.byKey]

namespace QueueInv
variable {s : QueueState}

theorem init : QueueInv py {} where
  newest _ h := by cases h
  payloadKey _ h := by cases h
  pendingKey _ h := by cases h
  unique _ h := by cases h
  absent _ _ h := by cases h
  loaded _ h := by cases h
  reading _ _ h := by cases h

theorem kept (h : QueueInv py s) : s.Kept := by
  intro key p hp
  rcases h.absent key p hp with ⟨t, ht, rfl⟩ | hc
  · refine .inl ⟨t, ht, rfl, ?_⟩
    have hn : t.newest = p := Option.some.inj ((h.newest t ht).symm.trans hp)
    cases hpend : t.pendingPayload with
    | none => exact .inl (by rw [← hn, AsyncTask.newest_of_none hpend])
    | some q => exact .inr (by rw [← hn]; simp [AsyncTask.newest, hpend])
  · exact .inr hc

theorem of_enqueues (h : QueueInv py s) {l : List Enqueue} (hl : ∀ e ∈ l, e ∈ s.enqueues) :
    QueueInv py { s with enqueues := l } :=
  { h with loaded := fun e he => h.loaded e (hl e he) }

theorem closeEnqueue (h : QueueInv py s) (client : Nat) : QueueInv py (s.closeEnqueue client) :=
  h.of_enqueues fun _ he => (List.mem_filter.1 he).1

/-- The executor moves on without touching a row. -/
theorem of_execution (h : QueueInv py s) {x : Execution}
    (hx : ∀ id p, x.reading = some (id, p) → s.execution.reading = some (id, p)) :
    QueueInv py { s with execution := x } :=
  { h with reading := fun id p hr => h.reading id p (hx id p hr) }

/-- A statement that rewrites rows without losing what they carry. A row whose payload an execution
has read keeps its payload, or has a successor to keep waiting. -/
theorem of_update (h : QueueInv py s) {p : AsyncTask → Bool} {f : Assignment AsyncTask.id}
    {x : Execution} (hkey : ∀ t, (f t).dedupKey = t.dedupKey)
    (hcarry : ∀ t, (f t).Carries t)
    (hx : ∀ id q, x.reading = some (id, q) → s.execution.reading = some (id, q) ∧
      ∀ t ∈ s.tasks.rows, t.id = id → p t = true → (f t).pendingPayload = none →
        t.pendingPayload = none) :
    QueueInv py { s with tasks := s.tasks.update p f, execution := x } := by
  have hg : ∀ t, ∃ u, (if p t then f t else t) = u ∧ u.id = t.id ∧ u.dedupKey = t.dedupKey ∧
      u.Carries t := by
    intro t
    by_cases hp : p t
    · exact ⟨f t, by rw [if_pos hp], f.key_apply t, hkey t, hcarry t⟩
    · exact ⟨t, by rw [if_neg hp], rfl, rfl, .refl t⟩
  have hrow : ∀ u ∈ (s.tasks.update p f).rows, ∃ t ∈ s.tasks.rows,
      (if p t then f t else t) = u ∧ u.dedupKey = t.dedupKey ∧ u.Carries t := by
    intro u hu
    obtain ⟨t, ht, hu⟩ := Table.mem_update.1 hu
    obtain ⟨v, hv, -, hk, hc⟩ := hg t
    rw [hu] at hv; subst hv
    exact ⟨t, ht, hu, hk, hc⟩
  refine ⟨?_, ?_, ?_, ?_, ?_, h.loaded, ?_⟩
  · intro u hu
    obtain ⟨t, ht, -, hk, hc⟩ := hrow u hu
    show s.committed u.dedupKey = _
    rw [hk, hc.newest]; exact h.newest t ht
  · intro u hu
    obtain ⟨t, ht, -, hk, hc⟩ := hrow u hu
    rw [hk]
    rcases hc with ⟨h1, -⟩ | ⟨h1, -⟩ <;> rw [h1]
    · exact h.payloadKey t ht
    · cases hpend : t.pendingPayload with
      | none => rw [AsyncTask.newest_of_none hpend]; exact h.payloadKey t ht
      | some q => simpa [AsyncTask.newest, hpend] using h.pendingKey t ht q hpend
  · intro u hu q hq
    obtain ⟨t, ht, -, hk, hc⟩ := hrow u hu
    rcases hc with ⟨-, h2⟩ | ⟨-, h2⟩
    · rw [hk]; exact h.pendingKey t ht q (h2 ▸ hq)
    · rw [h2] at hq; cases hq
  · intro u hu u' hu' hkk
    obtain ⟨t, ht, hut, hk, -⟩ := hrow u hu
    obtain ⟨t', ht', hut', hk', -⟩ := hrow u' hu'
    have : t = t' := h.unique t ht t' ht' (by rw [← hk, ← hk', hkk])
    rw [← hut, ← hut', this]
  · intro key q hq
    rcases h.absent key q hq with ⟨t, ht, rfl⟩ | hc
    · obtain ⟨u, hu, -, hk, -⟩ := hg t
      exact .inl ⟨u, Table.mem_update.2 ⟨t, ht, hu⟩, hk⟩
    · exact .inr hc
  · intro id q hq
    obtain ⟨hr, hpend⟩ := hx id q hq
    obtain ⟨t, ht, hid, hk, hread⟩ := h.reading id q hr
    obtain ⟨u, hu, huid, huk, hc⟩ := hg t
    refine ⟨u, Table.mem_update.2 ⟨t, ht, hu⟩, huid.trans hid, hk.trans huk.symm, fun hnone => ?_⟩
    have ht0 : t.pendingPayload = none := by
      by_cases hp : p t
      · rw [if_pos hp] at hu
        exact hpend t ht hid hp (hu ▸ hnone)
      · rw [if_neg hp] at hu; rw [hu]; exact hnone
    rcases hc with ⟨h1, -⟩ | ⟨h1, -⟩ <;> rw [h1]
    · exact hread ht0
    · rw [AsyncTask.newest_of_none ht0]; exact hread ht0

/-- An enqueue that leaves the row `r` with its payload as the newest, and every other row alone. -/
theorem commit_update (h : QueueInv py s) {payload : WatchUpdate} {r : AsyncTask}
    (hr : r ∈ s.tasks.rows) (hrk : r.dedupKey = payload.dedupKey py) {f : Assignment AsyncTask.id}
    (hkey : (f r).dedupKey = r.dedupKey)
    (hpay : (f r).payload = r.payload ∨ (f r).payload = payload)
    (hnew : (f r).newest = payload)
    (hread : ∀ q, s.execution.reading = some (r.id, q) → (f r).pendingPayload = none →
      (f r).payload = q) :
    QueueInv py (s.commit py payload (s.tasks.setTask r.id f)) := by
  have hrow : ∀ u ∈ (s.tasks.setTask r.id f).rows, u = f r ∨ u ∈ s.tasks.rows ∧ u.id ≠ r.id := by
    intro u hu
    obtain ⟨t, ht, hu⟩ := Table.mem_update.1 hu
    by_cases hid : t.id = r.id
    · rw [if_pos (by simpa using hid), s.tasks.eq_of_key_eq ht hr hid] at hu
      exact .inl hu.symm
    · rw [if_neg (by simpa using hid)] at hu; subst hu
      exact .inr ⟨ht, hid⟩
  have hself : f r ∈ (s.tasks.setTask r.id f).rows :=
    Table.mem_update.2 ⟨r, hr, by simp⟩
  have hother : ∀ t ∈ s.tasks.rows, t.id ≠ r.id → t ∈ (s.tasks.setTask r.id f).rows :=
      fun t ht hid =>
    Table.mem_update.2 ⟨t, ht, by simp [hid]⟩
  have hne : ∀ t ∈ s.tasks.rows, t.id ≠ r.id → t.dedupKey ≠ payload.dedupKey py := by
    intro t ht hid hk
    exact hid (congrArg _ (h.unique t ht r hr (hk.trans hrk.symm)))
  refine ⟨?_, ?_, ?_, ?_, ?_, h.loaded, ?_⟩
  · intro u hu
    show Function.update _ _ _ _ = _
    rcases hrow u hu with rfl | ⟨ht, hid⟩
    · rw [hkey, hrk, Function.update_self, hnew]
    · rw [Function.update_of_ne (hne u ht hid)]; exact h.newest u ht
  · intro u hu
    rcases hrow u hu with rfl | ⟨ht, hid⟩
    · rw [hkey]
      rcases hpay with hp | hp <;> rw [hp]
      exacts [h.payloadKey r hr, hrk.symm]
    · exact h.payloadKey u ht
  · intro u hu p hp
    rcases hrow u hu with rfl | ⟨ht, hid⟩
    · have : p = payload := by simpa [AsyncTask.newest, hp] using hnew
      rw [this, hkey, hrk]
    · exact h.pendingKey u ht p hp
  · intro u hu u' hu' hk
    rcases hrow u hu with rfl | ⟨ht, hid⟩ <;> rcases hrow u' hu' with rfl | ⟨ht', hid'⟩
    · rfl
    · exact absurd (hk.symm.trans (hkey.trans hrk)) (hne u' ht' hid')
    · exact absurd (hk.trans (hkey.trans hrk)) (hne u ht hid)
    · exact h.unique u ht u' ht' hk
  · intro key p hp
    by_cases hk : key = payload.dedupKey py
    · exact .inl ⟨f r, hself, by rw [hkey, hrk, hk]⟩
    · replace hp : Function.update s.committed _ _ key = some p := hp
      rw [Function.update_of_ne hk] at hp
      show _ ∨ Function.update s.consumed _ _ key = some p
      rw [Function.update_of_ne hk]
      rcases h.absent key p hp with ⟨t, ht, rfl⟩ | hc
      · refine .inl ⟨t, hother t ht fun hid => hk ?_, rfl⟩
        rw [s.tasks.eq_of_key_eq ht hr hid, hrk]
      · exact .inr hc
  · intro id p hp
    obtain ⟨t, ht, hid, hk, hrd⟩ := h.reading id p hp
    by_cases htr : t.id = r.id
    · have hteq := s.tasks.eq_of_key_eq ht hr htr
      subst hteq
      subst hid
      exact ⟨f t, hself, f.key_apply t, hk.trans hkey.symm, hread p hp⟩
    · exact ⟨t, hother t ht htr, hid, hk, hrd⟩

/-- An enqueue that changes no row because its payload is already the newest. -/
theorem commit_same (h : QueueInv py s) {payload : WatchUpdate} {r : AsyncTask}
    (hr : r ∈ s.tasks.rows) (hrk : r.dedupKey = payload.dedupKey py) (hnew : r.newest = payload) :
    QueueInv py (s.commit py payload s.tasks) := by
  have hid : s.tasks.setTask r.id ⟨id, fun _ => rfl⟩ = s.tasks :=
    Table.ext_rows (by simp [Tasks.setTask])
  have hread : ∀ q, s.execution.reading = some (r.id, q) → r.pendingPayload = none →
      r.payload = q := by
    intro q hq hnone
    obtain ⟨t, ht, hidt, -, hrd⟩ := h.reading r.id q hq
    rw [s.tasks.eq_of_key_eq ht hr hidt] at hrd
    exact hrd hnone
  rw [← hid]
  exact h.commit_update hr hrk rfl (.inl rfl) hnew hread

theorem commit_insert (h : QueueInv py s) {payload : WatchUpdate} {now : Time}
    (hk : s.tasks.byKey (payload.dedupKey py) = none) :
    QueueInv py
      (s.commit py payload (s.tasks.insert (.ofPayload py now s.tasks.nextId payload))) := by
  set t : AsyncTask := .ofPayload py now s.tasks.nextId payload with ht
  have hrows : (s.tasks.insert t).rows = s.tasks.rows ++ [t] :=
    Table.rows_insert_of_get?_none s.tasks.get?_nextId
  have hne := Tasks.byKey_eq_none.1 hk
  have hrow : ∀ u ∈ (s.tasks.insert t).rows, u ∈ s.tasks.rows ∨ u = t := fun u hu => by
    rw [hrows] at hu; simpa using hu
  have hself : t ∈ (s.tasks.insert t).rows := by rw [hrows]; simp
  have hold : ∀ u ∈ s.tasks.rows, u ∈ (s.tasks.insert t).rows :=
    fun u hu => by rw [hrows]; simp [hu]
  refine ⟨?_, ?_, ?_, ?_, ?_, h.loaded, ?_⟩
  · intro u hu
    show Function.update _ _ _ _ = _
    rcases hrow u hu with hu | rfl
    · rw [Function.update_of_ne (hne u hu)]; exact h.newest u hu
    · exact Function.update_self ..
  · intro u hu
    rcases hrow u hu with hu | rfl
    exacts [h.payloadKey u hu, rfl]
  · intro u hu p hp
    rcases hrow u hu with hu | rfl
    · exact h.pendingKey u hu p hp
    · cases hp
  · intro u hu u' hu' hkk
    rcases hrow u hu with hu | rfl <;> rcases hrow u' hu' with hu' | rfl
    exacts [h.unique u hu u' hu' hkk, absurd hkk (hne u hu), absurd hkk.symm (hne u' hu'), rfl]
  · intro key p hp
    by_cases hkey : key = payload.dedupKey py
    · exact .inl ⟨t, hself, hkey.symm⟩
    · replace hp : Function.update s.committed _ _ key = some p := hp
      rw [Function.update_of_ne hkey] at hp
      show _ ∨ Function.update s.consumed _ _ key = some p
      rw [Function.update_of_ne hkey]
      exact (h.absent key p hp).imp (fun ⟨u, hu, huk⟩ => ⟨u, hold u hu, huk⟩) fun hc => hc
  · intro id p hp
    obtain ⟨u, hu, hrest⟩ := h.reading id p hp
    exact ⟨u, hold u hu, hrest⟩

theorem writeLoaded (h : QueueInv py s) {payload : WatchUpdate} {now : Time} {t : AsyncTask}
    (htk : t.dedupKey = payload.dedupKey py) (hok : s.WriteInTime now payload t) :
    QueueInv py (s.writeLoaded py now payload t) := by
  unfold QueueState.writeLoaded
  cases hg : s.tasks.get? t.id with
  | none =>
    rw [if_neg (hok.1 hg), if_neg (by simp [Table.contains, hg])]
    exact h
  | some r =>
    obtain ⟨hr, hid⟩ := Table.get?_eq_some.1 hg
    have hland := hok.2 r hg
    have hkey := hland.1.trans htk
    by_cases hsame : t.requeue now payload = t
    · rw [if_pos hsame]
      exact h.commit_same hr hkey (AsyncTask.newest_of_requeue_eq hsame hland)
    · rw [if_neg hsame, if_pos (by simp [Table.contains, hg]), ← hid]
      refine h.commit_update hr hkey rfl (AsyncTask.flush_payload now payload t r)
        (AsyncTask.flush_newest hland) fun q hq hnone => ?_
      obtain ⟨r', hr', hid', -, hread⟩ := h.reading _ _ hq
      rw [s.tasks.eq_of_key_eq hr' hr hid'] at hread
      rw [hq, hid] at hland
      exact AsyncTask.flush_read hland hread hnone

theorem write (h : QueueInv py s) {e : Enqueue} {now : Time} (he : e ∈ s.enqueues)
    (hok : ∀ t ∈ s.target py e, s.WriteInTime now e.payload t) :
    QueueInv py (s.write py now e) := by
  unfold QueueState.write
  unfold target at hok
  cases hex : e.existing with
  | some t => exact h.writeLoaded (h.loaded e he t hex) (hok t (by simp [hex]))
  | none =>
    cases hk : s.tasks.byKey (e.payload.dedupKey py) with
    | some t => exact h.writeLoaded (Tasks.byKey_eq_some hk).2 (hok t (by simp [hex, hk]))
    | none => exact h.commit_insert hk

theorem of_consumed (h : QueueInv py s) {key : String} {p : WatchUpdate}
    (hkey : ∃ t ∈ s.tasks.rows, t.dedupKey = key) :
    QueueInv py { s with consumed := Function.update s.consumed key (some p) } :=
  { h with
    absent := fun k q hq => by
      by_cases hk : k = key
      · exact .inl (hk ▸ hkey)
      · show _ ∨ Function.update s.consumed key (some p) k = some q
        rw [Function.update_of_ne hk]; exact h.absent k q hq }

/-- Tasks whose newest payload has been consumed may go while nothing is executed. -/
theorem of_delete (h : QueueInv py s) {p : AsyncTask → Bool}
    (hp : ∀ t ∈ s.tasks.rows, p t = true → s.consumed t.dedupKey = some t.newest) :
    QueueInv py { s with tasks := s.tasks.delete p, execution := .idle } where
  newest t ht := h.newest t (Table.mem_delete.1 ht).1
  payloadKey t ht := h.payloadKey t (Table.mem_delete.1 ht).1
  pendingKey t ht := h.pendingKey t (Table.mem_delete.1 ht).1
  unique t ht t' ht' := h.unique t (Table.mem_delete.1 ht).1 t' (Table.mem_delete.1 ht').1
  absent key q hq := by
    rcases h.absent key q hq with ⟨t, ht, rfl⟩ | hc
    · cases hpt : p t with
      | false => exact .inl ⟨t, Table.mem_delete.2 ⟨ht, hpt⟩, rfl⟩
      | true => exact .inr ((hp t ht hpt).trans ((h.newest t ht).symm.trans hq))
    · exact .inr hc
  loaded := h.loaded
  reading _ _ hr := by cases hr

/-- The end of a successful execution: the task it read is removed only while it still carries the
payload that was read, and is otherwise rewritten with its successor. -/
theorem finish (h : QueueInv py s) {id : Nat} {p : WatchUpdate} {now : Time}
    (hx : s.execution = .finishing id p) :
    QueueInv py { s with
      tasks := s.tasks.finish now id
      execution := .idle
      consumed := Function.update s.consumed (p.dedupKey py) (some p) } := by
  obtain ⟨r, hr, rfl, hk, hread⟩ := h.reading id p (by rw [hx]; rfl)
  have hc := h.of_consumed (p := p) ⟨r, hr, hk.symm⟩
  unfold Tasks.finish
  split
  · refine hc.of_delete fun t ht hpt => ?_
    simp only [Bool.and_eq_true, beq_iff_eq, Option.isNone_iff_eq_none] at hpt
    obtain rfl := s.tasks.eq_of_key_eq ht hr hpt.1
    show Function.update _ _ _ _ = _
    rw [hk, Function.update_self, AsyncTask.newest_of_none hpt.2, hread hpt.2]
  · exact hc.of_update (fun _ => rfl) AsyncTask.Carries.foldPending fun _ _ hr => by cases hr

theorem step (h : QueueInv py s) {e : QueueEvent} (hok : s.InTime py e) :
    QueueInv py (s.step py e) := by
  cases e with
  | enqueueRead client payload =>
    refine { h with loaded := fun e he t ht => ?_ }
    rcases List.mem_cons.1 he with rfl | he
    · exact (Tasks.byKey_eq_some ht).2
    · exact h.loaded e he t ht
  | enqueueWrite client now =>
    simp only [QueueState.step]
    cases he : s.enqueues.find? (·.client == client) with
    | none => exact h
    | some e => exact (h.write (List.mem_of_find?_eq_some he) (hok e he)).closeEnqueue client
  | enqueueAbort client => exact h.closeEnqueue client
  | select now =>
    simp only [QueueState.step]
    split
    · exact h.of_execution fun _ _ hr => by cases hr
    · exact h
  | claim now =>
    simp only [QueueState.step]
    split
    · split
      · exact h.of_update (fun _ => rfl) (fun t => .inl ⟨rfl, rfl⟩) fun _ _ hr => by cases hr
      · exact h.of_execution fun _ _ hr => by cases hr
    · exact h
  | readTask =>
    simp only [QueueState.step]
    split
    · split
      next id _ t ht =>
        refine { h with reading := fun id' p hr => ?_ }
        cases hr
        obtain ⟨hm, hid⟩ := Table.get?_eq_some.1 ht
        exact ⟨t, hm, hid, h.payloadKey t hm, fun _ => rfl⟩
      · exact h.of_execution fun _ _ hr => by cases hr
    · exact h
  | superseded =>
    simp only [QueueState.step]
    split
    next id p hx =>
      split <;> exact h.of_execution fun _ _ hr => by rw [hx]; exact hr
    · exact h
  | applied outcome =>
    simp only [QueueState.step]
    split
    next id p _ hx => exact h.of_execution fun _ _ hr => by rw [hx]; exact hr
    · exact h.of_execution fun _ _ hr => by cases hr
    · exact h
  | finish now =>
    simp only [QueueState.step]
    split
    next id p hx => exact h.finish hx
    · exact h
  | readAttempts =>
    simp only [QueueState.step]
    split
    · split <;> exact h.of_execution fun _ _ hr => by cases hr
    · exact h
  | retain now =>
    simp only [QueueState.step]
    split
    · exact h.of_update (fun _ => rfl) AsyncTask.Carries.foldPending fun _ _ hr => by cases hr
    · exact h
  | retryAll now =>
    exact h.of_update (fun _ => rfl) (fun t => .inl ⟨rfl, rfl⟩) fun id p hr =>
      ⟨hr, fun _ _ _ _ hn => hn⟩
  | recover =>
    refine h.of_update (fun _ => rfl) AsyncTask.Carries.foldPending fun id p hr =>
      ⟨hr, fun t ht hid hp _ => ?_⟩
    exact hok (id, p) hr t (Table.get?_eq_some.2 ⟨ht, hid⟩) (by simpa using hp)
  | crash => exact h.of_execution fun _ _ hr => by cases hr

end QueueInv

namespace QueueState
variable {s : QueueState}

/-- No task of `s` is gone in `s'`. -/
def KeepsIds (s s' : QueueState) : Prop := ∀ id, s'.tasks.get? id = none → s.tasks.get? id = none

theorem writeLoaded_keepsIds (now : Time) (payload : WatchUpdate) (t : AsyncTask) :
    s.KeepsIds (s.writeLoaded py now payload t) := by
  intro id h
  unfold writeLoaded at h
  split at h
  · exact h
  · split at h
    · exact Table.get?_update_eq_none.1 h
    · exact h

theorem write_keepsIds (now : Time) (e : Enqueue) : s.KeepsIds (s.write py now e) := by
  unfold write
  split
  · exact writeLoaded_keepsIds now _ _
  · split
    · exact writeLoaded_keepsIds now _ _
    · intro id h
      refine Table.get?_eq_none.2 fun t ht => Table.get?_eq_none.1 h t ?_
      exact Table.mem_insert_of_mem ht

theorem step_keepsIds (e : QueueEvent) (he : ∀ now, e ≠ .finish now) :
    s.KeepsIds (s.step py e) := by
  cases e with
  | enqueueWrite client now =>
    simp only [step]
    split
    · exact write_keepsIds now _
    · exact fun _ h => h
  | claim now =>
    simp only [step]
    split
    · split
      · exact fun _ h => Table.get?_update_eq_none.1 h
      · exact fun _ h => h
    · exact fun _ h => h
  | retain now =>
    simp only [step]
    split
    · exact fun _ h => Table.get?_update_eq_none.1 h
    · exact fun _ h => h
  | finish now => exact absurd rfl (he now)
  | retryAll | recover => exact fun _ h => Table.get?_update_eq_none.1 h
  | select | readTask | superseded | applied | readAttempts =>
    simp only [step]
    repeat' split
    all_goals exact fun _ h => h
  | enqueueRead | enqueueAbort | crash => exact fun _ h => h

end QueueState

/-- Only the end of a successful execution removes a task, and it removes only what it has read. -/
theorem QueueInv.deletesOnlyRead {s : QueueState} (h : QueueInv py s) (e : QueueEvent) :
    s.DeletesOnlyRead (s.step py e) := by
  intro t ht hgone
  have hthere : s.tasks.get? t.id ≠ none := by rw [Table.get?_of_mem ht]; simp
  by_cases he : ∃ now, e = .finish now
  · obtain ⟨now, rfl⟩ := he
    simp only [QueueState.step] at hgone
    split at hgone
    next id p hx =>
      obtain ⟨r, hr, rfl, -, hread⟩ := h.reading id p (by rw [hx]; rfl)
      simp only [Tasks.finish] at hgone
      split at hgone
      · have hp : t.id = r.id ∧ t.pendingPayload = none := by
          simpa [Table.get?_delete, Table.get?_of_mem ht] using hgone
        obtain rfl := s.tasks.eq_of_key_eq ht hr hp.1
        rw [hx, AsyncTask.newest_of_none hp.2, hread hp.2]; rfl
      · exact absurd (Table.get?_update_eq_none.1 hgone) hthere
    · exact absurd hgone hthere
  · exact absurd (step_keepsIds e (fun now hn => he ⟨now, hn⟩) t.id hgone) hthere

/-- In every run whose writes and recoveries come in time, the last committed payload of every
dedup key is stored or consumed, and no step deletes a payload newer than the one that was read. -/
theorem no_update_lost (py : PyLib) (events : List QueueEvent) (e : QueueEvent)
    (h : Along (step py) (InTime py) {} (events ++ [e])) :
    (run py (events ++ [e])).Kept ∧ (run py events).DeletesOnlyRead (run py (events ++ [e])) := by
  have hinv : QueueInv py (run py events) :=
    (Along.snoc.1 h).1.invariant (fun _ _ hs hok => hs.step hok) .init
  have hlast : run py (events ++ [e]) = (run py events).step py e := by simp [run]
  rw [hlast]
  exact ⟨(hinv.step (Along.snoc.1 h).2).kept, hinv.deletesOnlyRead e⟩

/-- A resume position of one item, stopped at `progressMs`. -/
def positionAt (watchedAt : Time) (progressMs : Int) : WatchUpdate where
  sourceId := 1
  externalId := "10"
  watchedAt := watchedAt
  progressMs := some progressMs
  completed := false
  libraryExternalId := none

/-- The second position arrives while the first is executed and waits as its successor. -/
theorem no_update_lost_successor :
    let before : List QueueEvent :=
      [.enqueueRead 1 (positionAt 1 60000), .enqueueWrite 1 1, .select 2, .claim 2, .readTask,
        .enqueueRead 2 (positionAt 3 120000), .enqueueWrite 2 3, .superseded, .applied (.ok true)]
    (run .plain (before ++ [.finish 4])).Kept ∧
      (run .plain before).DeletesOnlyRead (run .plain (before ++ [.finish 4])) :=
  no_update_lost .plain _ _ (by decide)

/-- The second request reads the idle task and writes after the executor has read the first
position: the flush assigns `payload` only, and the finished execution deletes the newer
position. -/
def lateWrite : List QueueEvent :=
  [.enqueueRead 1 (positionAt 1 60000), .enqueueWrite 1 1, .enqueueRead 2 (positionAt 3 120000),
    .select 3, .claim 3, .readTask, .superseded, .enqueueWrite 2 3, .applied (.ok true)]

theorem not_kept_of_late_write :
    ¬ (run .plain (lateWrite ++ [.finish 4])).Kept ∧
      ¬ (run .plain lateWrite).DeletesOnlyRead (run .plain (lateWrite ++ [.finish 4])) := by
  constructor
  · intro h
    rcases h "progress:1:10" (positionAt 3 120000) (by decide) with ⟨t, ht, -⟩ | hc
    · have hnone : (run .plain (lateWrite ++ [.finish 4])).tasks.rows = [] := by decide
      rw [hnone] at ht; cases ht
    · exact absurd hc (by decide)
  · intro h
    have hrow : ∃ t ∈ (run .plain lateWrite).tasks.rows, t.newest = positionAt 3 120000 := by decide
    obtain ⟨t, ht, hnew⟩ := hrow
    have hread := h t ht (by
      have hnone : (run .plain (lateWrite ++ [.finish 4])).tasks.rows = [] := by decide
      simp [Table.get?, hnone])
    rw [hnew] at hread
    have hx : (run .plain lateWrite).execution.reading = some (1, positionAt 1 60000) := by decide
    rw [hx] at hread
    exact absurd hread (by simp [positionAt])

end Euvieouvi
