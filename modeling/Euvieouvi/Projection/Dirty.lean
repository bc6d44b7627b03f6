import Euvieouvi.Lib.Runs
import Euvieouvi.Projection.Statements

/-!
# The need for a rebuild

The setting `catalog.projection.state` is written by the merges (`full`), by the identity triggers
(`identity`), by the activity triggers (anything but `identity` becomes `activity`) and by the
projection itself. `stale` records whether a change that only a rebuild can show has happened since
the last rebuild. It is honoured in a state when the next `ensure_catalog_projection` rebuilds. A
run honours it throughout exactly when no activity trigger meets a stale projection with entries in
a state other than `identity`, and no path changes under a projection that counts as current.
-/

namespace Euvieouvi

namespace Database

/-- Neither branch of `ensure_catalog_projection` that trusts the stored entries is taken. -/
def needsRebuild (db : Database) : Bool :=
  let entryCount := db.catalogEntries.rows.length
  let mediaCount := db.mediaItems.rows.countP fun m => isCatalogKind m.kind
  let state := db.settings.projectionState
  !decide (state = some (.clean projectionVersion) ∧ (entryCount > 0 ∨ mediaCount = 0)) &&
    !decide (state = some .activity ∧ entryCount > 0 ∧ db.dirtyItems.rows.length ≠ 0)

def rebuilds (py : PyLib) (now : Time) (db : Database) : Bool :=
  (db.ensureCatalogProjection py now).1.any (·.mode == "full")

theorem refresh_mode (py : PyLib) (now : Time) (db : Database) :
    (db.refreshCatalogActivity py now).1.mode = if db.dirtyItems.rows.length =
      0 then "full" else "activity" := by
  unfold refreshCatalogActivity
  by_cases h : db.dirtyItems.rows.length = 0
  · simp only [h, if_true]; rfl
  · simp only [h, if_false]
    split <;> rfl

theorem rebuilds_eq (py : PyLib) (now : Time) (db : Database) :
    db.rebuilds py now = db.needsRebuild := by
  unfold rebuilds ensureCatalogProjection needsRebuild
  by_cases hclean : db.settings.projectionState = some (.clean projectionVersion) ∧
      (db.catalogEntries.rows.length > 0 ∨
        db.mediaItems.rows.countP (fun m => isCatalogKind m.kind) = 0)
  · simp only [if_pos hclean, decide_eq_true hclean]; rfl
  · simp only [if_neg hclean, decide_eq_false hclean]
    by_cases hact : db.settings.projectionState = some .activity ∧ db.catalogEntries.rows.length > 0
    · simp only [if_pos hact, Option.any_some, refresh_mode]
      by_cases hd : db.dirtyItems.rows.length = 0 <;> simp [hd, hact.1, hact.2]
    · simp only [if_neg hact, Option.any_some]
      have : ¬ (db.settings.projectionState = some .activity ∧ db.catalogEntries.rows.length > 0 ∧
          db.dirtyItems.rows.length ≠ 0) := fun h => hact ⟨h.1, h.2.1⟩
      rw [decide_eq_false this]; rfl

end Database

structure ProjectionRun where
  db : Database
  /-- A merge, an identity row or a path row changed after the last rebuild. -/
  stale : Bool := false

inductive ProjectionEvent
  | markStale
  | identity (s : IdentityStatement)
  | activity (s : ActivityStatement)
  | paths (s : PathStatement)
  | ensure (now : Time)

def PathStatement.writes (py : PyLib) (db : Database) (s : PathStatement) : Bool :=
  decide ((s.apply py db).mediaFilePaths.rows ≠ db.mediaFilePaths.rows)

namespace ProjectionRun

variable {py : PyLib}

def step (py : PyLib) (s : ProjectionRun) : ProjectionEvent → ProjectionRun
  | .markStale => ⟨s.db.markProjectionStale, true⟩
  | .identity i => ⟨i.apply s.db, s.stale || i.writes s.db⟩
  | .activity a => ⟨a.apply s.db, s.stale⟩
  | .paths p => ⟨p.apply py s.db, s.stale || p.writes py s.db⟩
  | .ensure now => ⟨(s.db.ensureCatalogProjection py now).2, s.stale && !s.db.rebuilds py now⟩

/-- A stale projection is rebuilt by the next call, whenever it comes. -/
def Honoured (py : PyLib) (s : ProjectionRun) : Prop :=
  s.stale = true → ∀ now, s.db.rebuilds py now = true

/-- The triggers keep what a stale projection asks for, and paths change only below a projection
that is rebuilt anyway. -/
def Allowed (py : PyLib) (s : ProjectionRun) : ProjectionEvent → Prop
  | .activity a => s.stale = true → a.items s.db ≠ [] →
      s.db.settings.projectionState = none ∨ s.db.settings.projectionState = some .identity ∨
        s.db.catalogEntries.rows = []
  | .paths p => p.writes py s.db = true → s.db.needsRebuild = true
  | _ => True

theorem honoured_iff {s : ProjectionRun} :
    s.Honoured py ↔ (s.stale = true → s.db.needsRebuild = true) := by
  simp only [Honoured, Database.rebuilds_eq]
  exact ⟨fun h hs => h hs 0, fun h hs _ => h hs⟩

theorem needsRebuild_of_identity {db : Database}
    (h : db.settings.projectionState = none ∨ db.settings.projectionState = some .identity ∨
      db.settings.projectionState = some .full) : db.needsRebuild = true := by
  unfold Database.needsRebuild
  rcases h with h | h | h <;> simp [h]

/-- The trigger leaves a need for a rebuild exactly where it finds `identity` or no entries. -/
theorem needsRebuild_activityTrigger {db : Database} {items : List Nat} (hi : items ≠ []) :
    (db.activityTrigger items).needsRebuild = true ↔
      db.settings.projectionState = none ∨ db.settings.projectionState = some .identity ∨
        db.catalogEntries.rows = [] := by
  obtain ⟨i, rest, rfl⟩ := List.exists_cons_of_ne_nil hi
  have hdirty : (db.activityTrigger (i :: rest)).dirtyItems.rows ≠ [] := by
    show ((i :: rest).foldl Table.insert db.dirtyItems).rows ≠ []
    have hmem : ∀ (l : List Nat) (t : Table (id : Nat → Nat)), t.rows ≠ [] →
        (l.foldl Table.insert t).rows ≠ [] := by
      intro l
      induction l with
      | nil => exact fun _ h => h
      | cons j l ih =>
        intro t ht
        obtain ⟨r, rows, hr⟩ := List.exists_cons_of_ne_nil ht
        have hmem : r ∈ (t.insert j).rows := Table.mem_insert_of_mem (hr ▸ List.mem_cons_self)
        exact ih _ (List.ne_nil_of_mem hmem)
    refine hmem rest _ ?_
    cases hg : db.dirtyItems.get? i with
    | none => rw [Table.rows_insert_of_get?_none (r := i) hg]; simp
    | some r =>
      have hr := Table.mem_insert_of_mem (r := i) (Table.mem_of_get? hg)
      exact List.ne_nil_of_mem hr
  have hlen : (db.activityTrigger (i :: rest)).dirtyItems.rows.length ≠ 0 := by simpa using hdirty
  have hentries : (db.activityTrigger (i :: rest)).catalogEntries = db.catalogEntries := rfl
  have hstate : (db.activityTrigger (i :: rest)).settings.projectionState =
      db.settings.projectionState.map ProjectionState.markActivity := rfl
  unfold Database.needsRebuild
  rw [hentries, hstate]
  cases db.settings.projectionState with
  | none => simp
  | some state =>
    cases state <;> simp [ProjectionState.markActivity, hlen]

theorem step_honoured {s : ProjectionRun} (h : s.Honoured py) (e : ProjectionEvent) :
    (s.step py e).Honoured py ↔ s.Allowed py e := by
  rw [honoured_iff] at h ⊢
  cases e with
  | markStale => exact iff_of_true (fun _ => needsRebuild_of_identity (.inr (.inr rfl))) trivial
  | identity i =>
    refine iff_of_true (fun hs => ?_) trivial
    show (i.apply s.db).needsRebuild = true
    cases hw : i.writes s.db with
    | true =>
      refine needsRebuild_of_identity ?_
      rw [IdentityStatement.projectionState_of_writes hw]
      cases s.db.settings.projectionState <;> simp
    | false =>
      rw [IdentityStatement.apply_of_not_writes hw]
      exact h (by simpa [step, hw] using hs)
  | activity a =>
    obtain ⟨events, states, ha⟩ := a.apply_eq s.db
    show (s.stale = true → (a.apply s.db).needsRebuild = true) ↔ (s.stale = true → _ → _)
    refine imp_congr_right fun hs => ?_
    rw [ha]
    by_cases hi : a.items s.db = []
    · rw [hi]
      exact iff_of_true (h hs) fun hne => absurd rfl hne
    · rw [needsRebuild_activityTrigger hi]
      exact ⟨fun hor _ => hor, fun hor => hor hi⟩
  | paths p =>
    obtain ⟨paths, hp⟩ := p.apply_eq py s.db
    have hsame : (p.apply py s.db).needsRebuild = s.db.needsRebuild := by rw [hp]; rfl
    show ((s.stale || p.writes py s.db) = true → (p.apply py s.db).needsRebuild = true) ↔
      (p.writes py s.db = true → s.db.needsRebuild = true)
    rw [hsame]
    constructor
    · exact fun hw hp => hw (by simp [hp])
    · intro hp hw
      rcases Bool.or_eq_true_iff.1 hw with hs | hw
      exacts [h hs, hp hw]
  | ensure now =>
    refine iff_of_true (fun hs => ?_) trivial
    obtain ⟨hstale, hno⟩ := Bool.and_eq_true_iff.1 hs
    rw [Database.rebuilds_eq, h hstale] at hno
    cases hno

end ProjectionRun

/-- In every run from a projection that is not stale, the next call rebuilds a stale projection at
every moment exactly when each step of the run is allowed. -/
theorem rebuild_never_lost_iff (py : PyLib) (db : Database) (events : List ProjectionEvent) :
    (∀ before, before <+: events →
      (before.foldl (ProjectionRun.step py) ⟨db, false⟩).Honoured py) ↔
        Along (ProjectionRun.step py) (ProjectionRun.Allowed py) ⟨db, false⟩ events :=
  Along.iff_invariant (fun _ e hs => ProjectionRun.step_honoured hs e) (fun h => by cases h)

/-- A merge asks for a rebuild, and a playback that is stored next takes the request back. -/
def playedAfterMerge : List ProjectionEvent :=
  let played : WatchEvent :=
    { id := 1, mediaItemId := 1, sourceId := 1, watchedAt := 5, completed := true }
  [.markStale, .activity (.insertWatchEvent played)]

theorem rebuild_lost_after_merge :
    let items : Table MediaItem.id := .insert .empty { id := 1, kind := .movie, title := "a" }
    let db := ({ Database.empty with mediaItems := items }.rebuildCatalogProjection .plain 0).2
    ¬ (playedAfterMerge.foldl (ProjectionRun.step .plain) ⟨db, false⟩).Honoured .plain := by
  intro _ _ h
  exact absurd (h rfl 0) (by decide)

end Euvieouvi
