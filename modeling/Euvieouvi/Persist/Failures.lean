import Euvieouvi.Persist.CacheKeys

/-!
# Items that fail

An item that raises and for which nothing is merged leaves the rows as they were, but not the
caches; nor does a first call that raised and is made again. A page ends as if the failing items had
not been on it, and as if its savepoints took back the caches too, when no call needs a key that
such a call has left.
-/

namespace Euvieouvi

namespace Database
variable {db : Database}

theorem le_length_mergeDuplicates (now : Time) (c : Nat) (duplicates : List Nat)
    (acc : Database × List MergeStep) :
    acc.2.length + duplicates.length ≤ (duplicates.foldl (mergeDuplicate now c) acc).2.length := by
  induction duplicates generalizing acc with
  | nil => exact Nat.le_refl _
  | cons d duplicates ih =>
    have hpair : (mergeDuplicate now c acc d).2.length =
        acc.2.length + (acc.1.mergePair now c d).2.length :=
      List.length_append
    have hone : 1 ≤ (acc.1.mergePair now c d).2.length := by
      unfold mergePair
      simp
    have := ih (mergeDuplicate now c acc d)
    rw [List.foldl_cons, List.length_cons]
    omega

/-- A group of which nothing is merged is left alone. -/
theorem mergeDuplicates_quiet {now : Time} {c : Nat} {items : List Nat}
    (h : (db.mergeDuplicates now c items).2 = []) :
    (db.mergeDuplicates now c items).1 = db := by
  have hlen := le_length_mergeDuplicates now c (items.filter (· ≠ c)) (db, [])
  have hlog : ((items.filter (· ≠ c)).foldl (mergeDuplicate now c) (db, [])).2 = [] := h
  rw [hlog] at hlen
  have hnone : items.filter (· ≠ c) = [] :=
    List.eq_nil_of_length_eq_zero (by rw [List.length_nil] at hlen; omega)
  unfold mergeDuplicates
  rw [hnone]
  rfl

theorem reconcileMatchingItems_quiet {now : Time} {kind : MediaKind}
    {identifiers : List ExternalIdentifier} {preferred : Option Nat}
    (h : (db.reconcileMatchingItems now kind identifiers preferred).2 = []) :
    (db.reconcileMatchingItems now kind identifiers preferred).1 = db := by
  unfold reconcileMatchingItems at h ⊢
  dsimp only at h ⊢
  split_ifs at h ⊢ with hstable hunsafe hlog
  · rfl
  · rfl
  · exact mergeDuplicates_quiet hlog
  · exact absurd h hlog

end Database

namespace MediaPersistenceService
variable (service : MediaPersistenceService)

/-- The program ends normally, and leaves the rows as they were where it returns 0. -/
def Counts (p : Persist Nat) : Prop :=
  ∀ s, ∃ n s', p.Returns s n s' ∧ (n = 0 → s'.store = s.store)

theorem counts_zero : Counts (pure 0 : Persist Nat) := fun s => ⟨0, s, rfl, fun _ => rfl⟩

theorem reconcileIdentityOnce_counts (kind : MediaKind) (identifiers : List ExternalIdentifier) :
    Counts (service.reconcileIdentityOnce kind identifiers) := by
  intro s
  unfold reconcileIdentityOnce
  split
  · exact counts_zero s
  · by_cases hkey : CacheKey.catalogIdentity kind (sortedIdentifiers identifiers) ∈ s.cache
    · refine ⟨0, s, Program.returns_bind.2 ⟨true, s, Program.returns_cached.2 ⟨by simp [hkey], rfl⟩,
        rfl⟩, fun _ => rfl⟩
    · refine ⟨_, _,
        Program.returns_bind.2 ⟨false, s, Program.returns_cached.2 ⟨by simp [hkey], rfl⟩,
        Program.returns_bind.2 ⟨(), _, Program.returns_enter.2 rfl, rfl⟩⟩, fun hn => ?_⟩
      exact Database.reconcileMatchingItems_quiet (List.eq_nil_of_length_eq_zero hn)

theorem counts_add {p q : Persist Nat} (hp : Counts p) (hq : Counts q) :
    Counts (do let a ← p; let b ← q; return a + b) := by
  intro s
  obtain ⟨a, u, ha, ha'⟩ := hp s
  obtain ⟨b, v, hb, hb'⟩ := hq u
  refine ⟨a + b, v, Program.returns_bind.2 ⟨a, u, ha, Program.returns_bind.2 ⟨b, v, hb, rfl⟩⟩,
    fun hn => ?_⟩
  rw [hb' (by omega), ha' (by omega)]

theorem reconcilePersistedItem_counts (item : MediaFields) (includeLeaf : Bool) :
    Counts (service.reconcilePersistedItem item includeLeaf) := by
  refine counts_add ?_ ?_
  · split
    exacts [service.reconcileIdentityOnce_counts _ _, counts_zero]
  · split
    exacts [service.reconcileIdentityOnce_counts _ _, counts_zero]

end MediaPersistenceService

/-- The item raised, and nothing was merged for it. -/
def PageOutcome.lost (outcome : PageOutcome) : Bool :=
  outcome.result.isNone && outcome.repaired == 0

namespace MediaPersistenceService
variable (service : MediaPersistenceService)

theorem reconcileAfter_returns (item : MediaFields) (result : PersistResult) (s : PersistSession) :
    ∃ outcome s', (service.reconcileAfter item result).Returns s outcome s' ∧
    outcome.lost = false := by
  unfold reconcileAfter
  rcases Program.returns_attempt (service.reconcileNow item result.mediaItemId) s with ⟨repaired,
    s', h⟩ | ⟨e, s', h, -⟩
  · exact ⟨_, s', Program.returns_bind.2 ⟨_, s', h, rfl⟩, rfl⟩
  · exact ⟨_, s', Program.returns_bind.2 ⟨_, s', h, rfl⟩, rfl⟩

theorem retry_returns (x : PagedItem) (repaired : Nat) (s : PersistSession) :
    ∃ outcome s', (service.retry x (repaired + 1)).Returns s outcome s' ∧ outcome.lost = false := by
  unfold retry
  rcases Program.returns_attempt (service.persistMedia x.item x.retriedAt) s with ⟨result, s',
    h⟩ | ⟨e, s', h, -⟩
  · exact ⟨_, s', Program.returns_bind.2 ⟨_, s', h, rfl⟩, rfl⟩
  · exact ⟨_, s', Program.returns_bind.2 ⟨_, s', h, rfl⟩, rfl⟩

theorem repair_returns (x : PagedItem) (original : PersistError) (s : PersistSession) :
    ∃ outcome s', (service.repair x original).Returns s outcome s' ∧
    (outcome.lost = true → s'.store = s.store) := by
  obtain ⟨n, u, hn, hzero⟩ := service.reconcilePersistedItem_counts x.item.toMediaFields true s
  have hattempt := Program.returns_attempt_ok hn
  unfold repair
  cases n with
  | zero => exact ⟨_, u, Program.returns_bind.2 ⟨_, u, hattempt, rfl⟩, fun _ => hzero rfl⟩
  | succ repaired =>
    obtain ⟨outcome, s', hr, hkept⟩ := service.retry_returns x repaired u
    exact ⟨outcome, s', Program.returns_bind.2 ⟨_, u, hattempt, hr⟩, fun hlost => by
      rw [hkept] at hlost; cases hlost⟩

/-- What happens to an item ends in an outcome, and a lost item leaves the rows as they were. -/
theorem persistMediaWithRepair_returns (x : PagedItem) (s : PersistSession) :
    ∃ outcome s', (service.persistMediaWithRepair x).Returns s outcome s' ∧
    (outcome.lost = true → s'.store = s.store) := by
  unfold persistMediaWithRepair
  rcases Program.returns_attempt (service.persistMedia x.item x.observedAt) s with ⟨result, u,
    h⟩ | ⟨e, u, h, hu⟩
  · obtain ⟨outcome, s', hr, hkept⟩ := service.reconcileAfter_returns x.item.toMediaFields result u
    exact ⟨outcome, s', Program.returns_bind.2 ⟨_, u, h, hr⟩, fun hlost => by
      rw [hkept] at hlost; cases hlost⟩
  · obtain ⟨outcome, s', hr, hlost⟩ := service.repair_returns x e u
    exact ⟨outcome, s', Program.returns_bind.2 ⟨_, u, h, hr⟩, fun h => (hlost h).trans hu⟩

/-- The item is lost in this run. -/
def lostItem : Except PersistError PageOutcome → Bool
  | .ok outcome => outcome.lost
  | .error _ => false

theorem run_persistMediaPage (items : List PagedItem) (s : PersistSession) :
    ((service.persistMediaPage items).run s).2 =
      Program.runEach service.persistMediaWithRepair items s := by
  have hreturns : ∀ s, ∃ outcomes, (service.persistMediaPage items).Returns s outcomes
      (Program.runEach service.persistMediaWithRepair items s) := by
    induction items with
    | nil => exact fun s => ⟨[], rfl⟩
    | cons x items ih =>
      intro s
      obtain ⟨outcome, u, hx, -⟩ := service.persistMediaWithRepair_returns x s
      obtain ⟨outcomes, hrest⟩ := ih u
      have hu : ((service.persistMediaWithRepair x).run s).2 = u := congrArg Prod.snd hx
      unfold Program.runEach persistMediaPage
      rw [hu]
      exact ⟨_, Program.returns_bind.2 ⟨_, u, hx, Program.returns_bind.2 ⟨_, _, hrest, rfl⟩⟩⟩
  obtain ⟨outcomes, h⟩ := hreturns s
  exact congrArg Prod.snd h

/-- The items of the page that are not lost. -/
def keptItems (items : List PagedItem) (s : PersistSession) : List PagedItem :=
  Program.kept service.persistMediaWithRepair lostItem items s

/-! ### Keys that are left behind -/

/-- The first call of `persist_media` raises. -/
def raises (x : PagedItem) (s : PersistSession) : Bool :=
  ((service.persistMedia x.item x.observedAt).run s).1.toOption.isNone

/-- The session after the first call, and after the repair that follows when it raised. -/
def afterRepair (x : PagedItem) (s : PersistSession) : PersistSession :=
  ((Program.attempt (service.reconcilePersistedItem x.item.toMediaFields true)).run
    ((Program.attempt (service.persistMedia x.item x.observedAt)).run s).2).2

/-- What the first call has left in the caches when it raised. -/
def leftByFirst (x : PagedItem) (s : PersistSession) : List CacheKey :=
  if service.raises x s then (service.persistMedia x.item x.observedAt).entered s else []

/-- What the second call has left in the caches when it raised, too. -/
def leftBySecond (x : PagedItem) (s : PersistSession) : List CacheKey :=
  if service.raises x s &&
    ((service.persistMedia x.item x.retriedAt).run (service.afterRepair x s)).1.toOption.isNone then
    (service.persistMedia x.item x.retriedAt).entered (service.afterRepair x s)
  else []

def leftKeys (x : PagedItem) (s : PersistSession) : List CacheKey :=
  service.leftByFirst x s ++ service.leftBySecond x s

/-- No call of `persist_media` for the item needs a stale key, nor is an identity stale that is
reconciled. What a first call left is stale for what follows. -/
def Clear (x : PagedItem) (s : PersistSession) (stale : List CacheKey) : Prop :=
  (∀ key ∈ service.neededKeys x.item x.observedAt s, key ∉ stale) ∧
  (∀ key ∈ identityKeys x.item.toMediaFields (service.raises x s || x.item.kind = .movie),
    key ∉ stale ++ service.leftByFirst x s) ∧
  (service.raises x s = true →
    ∀ key ∈ service.neededKeys x.item x.retriedAt (service.afterRepair x s),
    key ∉ stale ++ service.leftByFirst x s)

instance (x : PagedItem) (s : PersistSession) (stale : List CacheKey) :
    Decidable (service.Clear x s stale) := by
  unfold Clear
  infer_instance

section Consults
variable {service} {key : CacheKey} {s t : PersistSession} {x : PagedItem} {stale : List CacheKey}

theorem silent_reconciled (call : Database → Database × List MergeStep) :
    Program.Silent (reconciled call) :=
  fun _ => True.intro

theorem flat_reconcileIdentityOnce (kind : MediaKind) (identifiers : List ExternalIdentifier) :
    Program.Flat (service.reconcileIdentityOnce kind identifiers) :=
  .ite (Program.Silent.pure _).flat <| .bind (.cached _) fun _ =>
    .ite (Program.Silent.pure _).flat <|
    .bind (.enter _) fun _ => (silent_reconciled _).flat

theorem consults_reconcileIdentityOnce {kind : MediaKind} {identifiers : List ExternalIdentifier}
    (h : key ∈ (service.reconcileIdentityOnce kind identifiers).consults s) :
    identifiers ≠ [] ∧ key = .catalogIdentity kind (sortedIdentifiers identifiers) := by
  unfold reconcileIdentityOnce at h
  split at h
  · cases h
  next hsome =>
    refine ⟨by simpa using hsome, ?_⟩
    rcases Program.mem_consults_bind.1 h with h | ⟨known, u, -, h⟩
    · exact List.mem_singleton.1 h
    · split at h
      · cases h
      · rcases Program.mem_consults_bind.1 h with h | ⟨_, u, -, h⟩
        · cases h
        · rw [(silent_reconciled _).consults_eq_nil] at h
          cases h

theorem flat_reconcilePersistedItem (item : MediaFields) (includeLeaf : Bool) :
    Program.Flat (service.reconcilePersistedItem item includeLeaf) :=
  .bind (.ite (flat_reconcileIdentityOnce _ _) (Program.Silent.pure _).flat) fun _ =>
    .bind (.ite (flat_reconcileIdentityOnce _ _) (Program.Silent.pure _).flat) fun _ =>
      (Program.Silent.pure _).flat

theorem consults_reconcilePersistedItem {item : MediaFields} {includeLeaf : Bool}
    (h : key ∈ (service.reconcilePersistedItem item includeLeaf).consults s) :
    key ∈ identityKeys item includeLeaf := by
  unfold identityKeys
  refine List.mem_append.2 ?_
  rcases Program.mem_consults_bind.1 h with h | ⟨leaf, u, -, h⟩
  · split at h
    next hleaf =>
      obtain ⟨hsome, rfl⟩ := consults_reconcileIdentityOnce h
      exact .inl (by simp [hleaf, hsome])
    · cases h
  · rcases Program.mem_consults_bind.1 h with h | ⟨«show», u, -, h⟩
    · split at h
      next hkind =>
        obtain ⟨hsome, rfl⟩ := consults_reconcileIdentityOnce h
        exact .inr (by simp [hkind, hsome])
      · cases h
    · cases h

theorem flat_reconcileNow (item : MediaFields) (media : Nat) :
    Program.Flat (service.reconcileNow item media) :=
  .bind (.ite (Program.Silent.pure _).flat (silent_reconciled _).flat) fun _ =>
    .bind (flat_reconcilePersistedItem _ _) fun _ => (Program.Silent.pure _).flat

theorem consults_reconcileNow {item : MediaFields} {media : Nat}
    (h : key ∈ (service.reconcileNow item media).consults s) :
    key ∈ identityKeys item (item.kind = .movie) := by
  rcases (Program.Silent.ite (.pure _) (silent_reconciled _)).mem_consults_bind.1
    h with ⟨physical, u, -, h⟩
  rcases Program.mem_consults_bind.1 h with h | ⟨repaired, u, -, h⟩
  · exact consults_reconcilePersistedItem h
  · cases h

/-- A call, its repair and its second call ask for no stale key. -/
theorem not_stale_of_consults (h : service.Clear x s stale) :
    ∀ key ∈ (service.persistMediaWithRepair x).consults s, key ∉ stale := by
  intro key hkey
  obtain ⟨hneeded, hidentity, hretry⟩ := h
  rcases Program.mem_consults_bind.1 hkey with hkey | ⟨r, u, hr, hkey⟩
  · rw [Program.consults_attempt] at hkey
    exact hneeded key (service.consults_persistMedia hkey)
  have hraises : service.raises x s = r.toOption.isNone := by
    rw [Program.result_of_returns_attempt hr]
    rfl
  rw [hraises] at hidentity hretry
  cases r with
  | ok result =>
    rcases Program.mem_consults_bind.1 hkey with hkey | ⟨repaired, v, -, hkey⟩
    · rw [Program.consults_attempt] at hkey
      exact fun hin => hidentity key (consults_reconcileNow hkey) (List.mem_append_left _ hin)
    · split at hkey <;> cases hkey
  | error e =>
    rcases Program.mem_consults_bind.1 hkey with hkey | ⟨repaired, v, hrepaired, hkey⟩
    · rw [Program.consults_attempt] at hkey
      exact fun hin =>
        hidentity key (consults_reconcilePersistedItem hkey) (List.mem_append_left _ hin)
    · have hv : service.afterRepair x s = v := by
        unfold afterRepair
        rw [show (Program.attempt (service.persistMedia x.item x.observedAt)).run s =
          (.ok (.error e), u) from hr]
        exact congrArg Prod.snd hrepaired
      split at hkey
      · cases hkey
      · rcases Program.mem_consults_bind.1 hkey with hkey | ⟨again, w, -, hkey⟩
        · rw [Program.consults_attempt] at hkey
          exact fun hin =>
            hretry rfl key (hv ▸ service.consults_persistMedia hkey) (List.mem_append_left _ hin)
        · split at hkey <;> cases hkey

theorem reconcileNow_returns (item : MediaFields) (media : Nat) (s : PersistSession) :
    ∃ n s', (service.reconcileNow item media).Returns s n s' := by
  obtain ⟨physical, u, hphysical⟩ : ∃ n u, (if item.filePaths = [] then pure 0 else
      reconciled (·.reconcilePhysicalItem service.now media) : Persist Nat).Returns s n u := by
    split
    exacts [⟨_, _, rfl⟩, ⟨_, _, rfl⟩]
  obtain ⟨repaired, v, hrepaired, -⟩ :=
    service.reconcilePersistedItem_counts item (item.kind = .movie) u
  exact ⟨_, v,
    Program.returns_bind.2 ⟨_, u, hphysical, Program.returns_bind.2 ⟨_, v, hrepaired, rfl⟩⟩⟩

theorem reconcileAfter_taken_back {D : CacheKey → Prop} (item : MediaFields)
    (result : PersistResult)
    (hagree : Program.AgreeOff D s t)
    (hD : ∀ key ∈ identityKeys item (item.kind = .movie), ¬ D key) :
    Program.AgreeOff D ((service.reconcileAfter item result).run s).2
      ((service.reconcileAfter item result).runBack t).2 := by
  obtain ⟨n, u, hnow⟩ := @reconcileNow_returns service item result.mediaItemId s
  obtain ⟨v, hback, hagree⟩ := Program.attempt_runBack_of_ok (flat_reconcileNow _ _) hagree
    (fun key hkey => hD key (consults_reconcileNow hkey)) hnow
  have hrun : (Program.attempt (service.reconcileNow item result.mediaItemId)).run s =
      (.ok (.ok n), u) :=
    Program.returns_attempt_ok hnow
  unfold reconcileAfter
  rw [Program.run_bind, Program.runBack_bind, hback, hrun]
  exact hagree

theorem retry_taken_back {D : CacheKey → Prop} (repaired : Nat) (hagree : Program.AgreeOff D s t)
    (hD : ∀ key ∈ service.neededKeys x.item x.retriedAt s, ¬ D key) :
    Program.AgreeOff (fun key => D key ∨
      ((service.persistMedia x.item x.retriedAt).run s).1.toOption.isNone = true ∧
        key ∈ (service.persistMedia x.item x.retriedAt).entered s)
      ((service.retry x repaired).run s).2 ((service.retry x repaired).runBack t).2 := by
  have hcalls : ∀ key ∈ (service.persistMedia x.item x.retriedAt).consults s, ¬ D key :=
    fun key hkey => hD key (service.consults_persistMedia hkey)
  unfold retry
  rw [Program.run_bind, Program.runBack_bind, Program.run_attempt]
  rcases hrun : (service.persistMedia x.item x.retriedAt).run s with ⟨e | result, u⟩
  · obtain ⟨hback, hagree⟩ :=
      Program.attempt_runBack_of_error (service.flat_persistMedia _ _) hagree hcalls hrun
    rw [hback]
    exact hagree.mono fun key hk => hk.imp_right fun hk => ⟨rfl, hk⟩
  · obtain ⟨v, hback, hagree⟩ :=
      Program.attempt_runBack_of_ok (service.flat_persistMedia _ _) hagree hcalls hrun
    rw [hback]
    exact hagree.mono fun key hk => .inl hk

/-- What a second call from `s` leaves when it raises. -/
def LeftAgain (service : MediaPersistenceService) (x : PagedItem) (s : PersistSession)
    (key : CacheKey) : Prop :=
  ((service.persistMedia x.item x.retriedAt).run s).1.toOption.isNone = true ∧
    key ∈ (service.persistMedia x.item x.retriedAt).entered s

theorem repair_taken_back {D : CacheKey → Prop} (original : PersistError)
    (hagree : Program.AgreeOff D s t)
    (hD : ∀ key ∈ identityKeys x.item.toMediaFields true, ¬ D key) {u : PersistSession}
    (hu : ((Program.attempt (service.reconcilePersistedItem x.item.toMediaFields true)).run s).2 =
      u)
    (hretry : ∀ key ∈ service.neededKeys x.item x.retriedAt u, ¬ D key) :
    Program.AgreeOff (fun key => D key ∨ service.LeftAgain x u key)
      ((service.repair x original).run s).2 ((service.repair x original).runBack t).2 := by
  obtain ⟨n, v, hn, -⟩ := service.reconcilePersistedItem_counts x.item.toMediaFields true s
  obtain ⟨w, hback, hagree⟩ :=
    Program.attempt_runBack_of_ok (flat_reconcilePersistedItem _ _) hagree
    (fun key hkey => hD key (consults_reconcilePersistedItem hkey)) hn
  have hrun : (Program.attempt (service.reconcilePersistedItem x.item.toMediaFields true)).run s =
      (.ok (.ok n), v) :=
    Program.returns_attempt_ok hn
  rw [hrun] at hu
  obtain rfl : v = u := hu
  unfold repair
  rw [Program.run_bind, Program.runBack_bind, hback, hrun]
  cases n with
  | zero => exact hagree.mono fun key hk => .inl hk
  | succ n => exact retry_taken_back (n + 1) hagree hretry

/-- An item goes the same way where its savepoints take back the caches. -/
theorem run_taken_back (h : service.Clear x s stale) (hagree : Program.AgreeOff (· ∈ stale) s t) :
    Program.AgreeOff (· ∈ stale ++ service.leftKeys x s)
    ((service.persistMediaWithRepair x).run s).2
      ((service.persistMediaWithRepair x).runBack t).2 := by
  obtain ⟨hneeded, hidentity, hretry⟩ := h
  have hcalls : ∀ key ∈ (service.persistMedia x.item x.observedAt).consults s, key ∉ stale :=
    fun key hkey => hneeded key (service.consults_persistMedia hkey)
  have hattempt := Program.run_attempt (service.persistMedia x.item x.observedAt) s
  unfold persistMediaWithRepair
  rw [Program.run_bind, Program.runBack_bind]
  rcases hrun : (service.persistMedia x.item x.observedAt).run s with ⟨e | result, u⟩
  · have hraises : service.raises x s = true := by unfold raises; rw [hrun]; rfl
    have hfirst : service.leftByFirst x s = (service.persistMedia x.item x.observedAt).entered s :=
      if_pos hraises
    rw [hrun] at hattempt
    obtain ⟨hback, hagree⟩ :=
      Program.attempt_runBack_of_error (service.flat_persistMedia _ _) hagree hcalls hrun
    rw [hraises, hfirst] at hidentity
    rw [hfirst] at hretry
    rw [hback, hattempt]
    have hafter : ((Program.attempt (service.reconcilePersistedItem x.item.toMediaFields true)).run
        { u with store := s.store }).2 = service.afterRepair x s := by
      unfold afterRepair
      rw [hattempt]
    refine (repair_taken_back e hagree
      (fun key hkey hD => hidentity key hkey (List.mem_append.2 hD)) hafter
      fun key hkey hD => hretry hraises key hkey (List.mem_append.2 hD)).mono fun key hk => ?_
    unfold leftKeys leftBySecond
    rw [hfirst, hraises, Bool.true_and, List.mem_append, List.mem_append]
    rcases hk with (hk | hk) | ⟨hagain, hk⟩
    · exact .inl hk
    · exact .inr (.inl hk)
    · rw [if_pos hagain]
      exact .inr (.inr hk)
  · have hraises : service.raises x s = false := by unfold raises; rw [hrun]; rfl
    have hfirst : service.leftByFirst x s = [] := if_neg (by simp [hraises])
    rw [hraises, hfirst, List.append_nil] at hidentity
    obtain ⟨v, hback, hagree⟩ :=
      Program.attempt_runBack_of_ok (service.flat_persistMedia _ _) hagree hcalls hrun
    rw [hrun] at hattempt
    rw [hback, hattempt]
    exact (reconcileAfter_taken_back x.item.toMediaFields result hagree hidentity).mono
      fun key hk => List.mem_append_left _ hk

end Consults

/-! ### Pages -/

/-- No call for an item that is kept needs a key that a call which was taken back has left in the
caches. -/
def Unsuppressed (items : List PagedItem) (s : PersistSession) : Prop :=
  Program.Unsuppressed service.persistMediaWithRepair lostItem service.leftKeys
    service.Clear [] items s

instance (items : List PagedItem) (s : PersistSession) :
    Decidable (service.Unsuppressed items s) := by
  unfold Unsuppressed
  infer_instance

/-- The page as it is persisted where each savepoint that is taken back takes its cache entries
back, too. -/
def pageTakenBack (items : List PagedItem) (s : PersistSession) : PersistSession :=
  Program.runEachBack service.persistMediaWithRepair items s

/-- A page whose calls need no key that was left behind ends as the page without the lost items, and
no key has kept it from a write that was taken back. -/
theorem lost_items_leave_no_trace (items : List PagedItem) (s : PersistSession)
    (h : service.Unsuppressed items s) :
    ((service.persistMediaPage items).run s).2.store =
      ((service.persistMediaPage (service.keptItems items s)).run s).2.store ∧
      ((service.persistMediaPage items).run s).2.store =
        (service.pageTakenBack (service.keptItems items s) s).store := by
  have hlost (x : PagedItem) (s : PersistSession)
      (hx : lostItem ((service.persistMediaWithRepair x).run s).1 = true) :
      ((service.persistMediaWithRepair x).run s).2.store = s.store := by
    obtain ⟨outcome, s', hr, hstore⟩ := service.persistMediaWithRepair_returns x s
    have hrun : (service.persistMediaWithRepair x).run s = (.ok outcome, s') := hr
    rw [hrun] at hx ⊢
    exact hstore hx
  have hagree : Program.AgreeOff (· ∈ ([] : List CacheKey)) s s := ⟨rfl, fun _ _ => Iff.rfl⟩
  rw [run_persistMediaPage, run_persistMediaPage]
  exact ⟨Program.runEach_kept hlost (fun _ _ _ => not_stale_of_consults) hagree h,
    Program.runEach_taken_back hlost (fun _ _ _ _ _ => run_taken_back) hagree h⟩

section Example

def listedEpisode (number : Nat) (identifiers : List ExternalIdentifier)
    (metadata : Option ShowMetadata) : PagedItem where
  item := {
    externalId := toString number
    libraryExternalId := "1"
    kind := .episode
    title := toString number
    showExternalId := some "s"
    showTitle := some "S"
    showMetadata := metadata
    seasonNumber := some 1
    episodeNumber := some number
    identifiers := identifiers
    complete := by simp [MediaFields.Complete] }
  observedAt := 0
  retriedAt := 0

def describedShow : ShowMetadata where
  externalId := "s"
  title := "The show"

/-- An episode that lists one identifier twice, which a constraint refuses, and then one that does
not fail. -/
def refusedThen (metadata : Option ShowMetadata) : List PagedItem :=
  [listedEpisode 1 [⟨"tvdb", "1"⟩, ⟨"tvdb", "1"⟩] (some describedShow), listedEpisode 2 [] metadata]

/-- Two other sources have each their item of one film. -/
def filmTwice : Database :=
  let items : List MediaItem :=
    [{ id := 1, kind := .movie, title := "a" }, { id := 2, kind := .movie, title := "a" }]
  let refs : List SourceMediaRef := [
    { id := 1, sourceId := 2, libraryId := 2, mediaItemId := 1, externalId := "1" },
    { id := 2, sourceId := 3, libraryId := 3, mediaItemId := 2, externalId := "2" }]
  let identifiers : List MediaIdentifier := [
    { id := 1, mediaItemId := 1, provider := "tmdb", externalId := "9" },
    { id := 2, mediaItemId := 2, provider := "tmdb", externalId := "9" }]
  { Database.empty with
    mediaItems := items.foldl Table.insert .empty
    sourceMediaRefs := refs.foldl Table.insert .empty
    mediaIdentifiers := identifiers.foldl Table.insert .empty }

/-- The film is ambiguous until the repair merges the two. -/
def film : PagedItem where
  item := {
    externalId := "f"
    libraryExternalId := "1"
    kind := .movie
    title := "a"
    identifiers := [⟨"tmdb", "9"⟩]
    complete := by simp [MediaFields.Complete] }
  observedAt := 0
  retriedAt := 1

theorem lost_items_leave_no_trace_refused :
    let page := film :: refusedThen none
    (plainService 1).raises film ⟨filmTwice, []⟩ = true ∧
      ((plainService 1).keptItems page ⟨filmTwice, []⟩).map (·.item.externalId) = ["f", "2"] ∧
      (((plainService 1).persistMediaPage page).run ⟨filmTwice, []⟩).2.store =
        (((plainService 1).persistMediaPage ((plainService 1).keptItems page ⟨filmTwice, []⟩)).run
          ⟨filmTwice, []⟩).2.store ∧
      (((plainService 1).persistMediaPage page).run ⟨filmTwice, []⟩).2.store =
        ((plainService 1).pageTakenBack ((plainService 1).keptItems page ⟨filmTwice, []⟩)
          ⟨filmTwice, []⟩).store :=
  ⟨by decide +kernel, by
    decide +kernel, (plainService 1).lost_items_leave_no_trace _ _ (by decide +kernel)⟩

/-- The metadata of the show was entered in the cache by the episode that failed, so the other one
does not write them. -/
theorem lost_item_suppresses_metadata :
    let items := refusedThen (some describedShow)
    let full := (((plainService 1).persistMediaPage items).run ⟨.empty, []⟩).2.store
    let without := (((plainService 1).persistMediaPage
      ((plainService 1).keptItems items ⟨.empty, []⟩)).run ⟨.empty, []⟩).2.store
    ((plainService 1).keptItems items ⟨.empty, []⟩).map (·.item.externalId) = ["2"] ∧
      (full.mediaItems.get? 1).map (·.title) = some "S" ∧
        (without.mediaItems.get? 1).map (·.title) = some "The show" ∧
        full ≠ without := by
  have htitles : (((((plainService 1).persistMediaPage (refusedThen (some describedShow))).run
      ⟨.empty, []⟩).2.store.mediaItems.get? 1).map (·.title) = some "S") ∧
      ((((plainService 1).persistMediaPage
        ((plainService 1).keptItems (refusedThen (some describedShow)) ⟨.empty, []⟩)).run
        ⟨.empty, []⟩).2.store.mediaItems.get? 1).map (·.title) = some "The show" := by
    decide +kernel
  refine ⟨by decide +kernel, htitles.1, htitles.2, fun heq => ?_⟩
  have hsame := htitles.1.symm.trans
    ((congrArg (fun db => (db.mediaItems.get? 1).map (·.title)) heq).trans htitles.2)
  revert hsame
  decide

end Example

end MediaPersistenceService

end Euvieouvi
