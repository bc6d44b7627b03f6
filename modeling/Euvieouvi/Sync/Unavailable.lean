import Euvieouvi.Persist.ReferenceInvariants
import Euvieouvi.Playback.Calls
import Euvieouvi.Sync.Availability
import Euvieouvi.Sync.SourceIdentity
import Euvieouvi.WatchSync.Delivery

/-!
# Availability and its moment

`available` and `unavailable_since` of a reference are written together: by a listing (the item, its
containers and a known album), by the sweep, by both repairs and by the retirement of a server.
Everything else that touches a reference keeps both, so a reference is available exactly when it has
no moment, over any run of calls.
-/

namespace Euvieouvi

open Database Program

/-- The two columns agree. -/
def SourceMediaRef.Agrees (r : SourceMediaRef) : Prop :=
  r.available = true ↔ r.unavailableSince = none

instance (r : SourceMediaRef) : Decidable r.Agrees := inferInstanceAs (Decidable (_ ↔ _))

def AvailabilityAgrees (db : Database) : Prop := ∀ r ∈ db.sourceMediaRefs.rows, r.Agrees

instance (db : Database) : Decidable (AvailabilityAgrees db) :=
  inferInstanceAs (Decidable (∀ r ∈ _, _))

section Statements
variable {db db' : Database}

theorem AvailabilityAgrees.of_table (h : AvailabilityAgrees db)
    (htable : db'.sourceMediaRefs = db.sourceMediaRefs) :
    AvailabilityAgrees db' := fun r hr => h r (by rwa [htable] at hr)

theorem AvailabilityAgrees.of_frame {written : List TableName} (h : AvailabilityAgrees db)
    (hframe : Frame written db db') (hw : .sourceMediaRefs ∉ written) : AvailabilityAgrees db' :=
  h.of_table (hframe .sourceMediaRefs hw)

/-- An update after which a row agrees if it did before. -/
theorem AvailabilityAgrees.update (h : AvailabilityAgrees db) (p : SourceMediaRef → Bool)
    {f : Assignment SourceMediaRef.id}
    (hf : ∀ r : SourceMediaRef, r.Agrees → (f r).Agrees) :
    AvailabilityAgrees (db.updateSourceMediaRefs p f) := by
  intro r hr
  rw [sourceMediaRefs_updateSourceMediaRefs] at hr
  obtain ⟨r₀, hr₀, rfl⟩ := Table.mem_update.1 hr
  split
  exacts [hf r₀ (h r₀ hr₀), h r₀ hr₀]

theorem AvailabilityAgrees.save (h : AvailabilityAgrees db) (now : Time) (i : Nat)
    {f : Assignment SourceMediaRef.id}
    (hf : ∀ r : SourceMediaRef, r.Agrees → (f r).Agrees) :
    AvailabilityAgrees (db.saveSourceMediaRef now i f) :=
  h.update _ hf

theorem AvailabilityAgrees.insert (h : AvailabilityAgrees db) {r : SourceMediaRef} (hr : r.Agrees) :
    AvailabilityAgrees (db.insertSourceMediaRef r) := by
  intro r' hr'
  rw [sourceMediaRefs_insertSourceMediaRef] at hr'
  rcases Table.mem_insert hr' with hr' | rfl
  exacts [h r' hr', hr]

theorem agrees_shown {r : SourceMediaRef} (hav : r.available = true)
    (hsince : r.unavailableSince = none) : r.Agrees :=
  iff_of_true hav hsince

theorem agrees_unavailable {r : SourceMediaRef} {t : Time} (hav : r.available = false)
    (hsince : r.unavailableSince = some t) :
    r.Agrees := by
  refine iff_of_false ?_ ?_
  · rw [hav]
    exact Bool.false_ne_true
  · rw [hsince]
    exact Option.some_ne_none t

end Statements

/-- Every branch of `persist_media` writes the two columns of a reference together, and a merge
leaves both. -/
theorem agrees_listed (now : Time) : ListedInvariant now AvailabilityAgrees where
  of_table htable h := h.of_table htable
  moveReferences _ _ h := h.update _ fun _ h => h
  insert hav hsince _ h := h.insert (agrees_shown hav hsince)
  save i _ hf h := h.save now i fun r _ => agrees_shown (hf r).1 (hf r).2

/-! ### Sweeps, repairs and retirements -/

theorem agrees_markMissingUnavailable {db : Database} (h : AvailabilityAgrees db)
    (l : LibraryScan) :
    AvailabilityAgrees (db.markMissingUnavailable l) :=
  h.update _ fun _ _ => agrees_unavailable rfl rfl

/-- A sweep does not select what is unavailable already. -/
theorem get?_markMissingUnavailable (l : LibraryScan) {db : Database} {i : Nat} {r : SourceMediaRef}
    (hr : db.sourceMediaRefs.get? i = some r) (hav : r.available = false) :
    (db.markMissingUnavailable l).sourceMediaRefs.get? i = some r := by
  unfold markMissingUnavailable
  rw [sourceMediaRefs_updateSourceMediaRefs, Table.get?_update, hr, Option.map_some, if_neg]
  simp [hav]

theorem get?_sweeps (sweeps : List LibraryScan) {db : Database} {i : Nat} {r : SourceMediaRef}
    (hr : db.sourceMediaRefs.get? i = some r) (hav : r.available = false) :
    (sweeps.foldl (fun db l => db.markMissingUnavailable l) db).sourceMediaRefs.get? i =
      some r := by
  induction sweeps generalizing db with
  | nil => exact hr
  | cons l sweeps ih => exact ih (get?_markMissingUnavailable l hr hav)

theorem agrees_invalidateReference {db : Database} (h : AvailabilityAgrees db) (now : Time)
    (reference : Nat) :
    AvailabilityAgrees (db.invalidateReference now reference).1 := by
  unfold invalidateReference
  split
  · split
    exacts [h.save _ _ fun _ _ => agrees_unavailable rfl rfl, h]
  · exact h

theorem agrees_applyWatchUpdate {db : Database} (h : AvailabilityAgrees db)
    (executor : AsyncTaskExecutor)
    (inputs : ExecutionInputs) (u : WatchUpdate) :
    AvailabilityAgrees (executor.applyWatchUpdate inputs u db).db := by
  obtain ⟨recovered, hrecovered, hwrites⟩ := executor.applyWatchUpdate_writes inputs u db
  have hrecovered : AvailabilityAgrees recovered := by
    cases hrecovered with
    | there => exact h
    | cataloged service found probe library result session _ _ _ hrun =>
      exact (agrees_listed service.now).statements.keeps_persistMedia service _ trivial
        ⟨db, []⟩ result session h hrun
  generalize (executor.applyWatchUpdate inputs u db).db = written at hwrites ⊢
  induction hwrites with
  | refl => exact hrecovered
  | tail _ hw ih =>
    cases hw with
    | invalidate => exact ih.save _ _ fun _ _ => agrees_unavailable rfl rfl
    | put => exact ih.of_frame (putWatchState_frame _ _ _ _ _) (by decide)

namespace ServerRows
variable {py : PyLib} {s : ServerRows} {source : Nat} {serverIdentifier : Option String}
  {now flushedAt : Time}

theorem agrees_retire (h : AvailabilityAgrees s.db) (identifier : String) :
    AvailabilityAgrees (s.retire py source identifier now flushedAt).db := by
  intro r hr
  obtain ⟨r₀, hr₀, -, -, hother, hown⟩ := mem_references_retire hr
  by_cases hs : r₀.sourceId = source
  · obtain ⟨-, hav, hsince⟩ := hown hs
    exact agrees_unavailable hav hsince
  · rw [hother hs]
    exact h r₀ hr₀

theorem agrees_applyServerIdentity (h : AvailabilityAgrees s.db) {after : ServerRows}
    {changed : Bool}
    (hcall : s.applyServerIdentity py source serverIdentifier now flushedAt =
      some (after, changed)) :
    AvailabilityAgrees after.db := by
  unfold applyServerIdentity at hcall
  dsimp only at hcall
  split_ifs at hcall <;> obtain ⟨rfl, -⟩ := Prod.mk.inj (Option.some.inj hcall)
  · exact h
  · exact h
  · exact agrees_retire h _

theorem sourceMediaRefs_upserted (found : List (String × LibraryMediaType)) (db : Database) :
    (found.foldl (upsertLibrary source) db).sourceMediaRefs = db.sourceMediaRefs := by
  induction found generalizing db with
  | nil => rfl
  | cons f found ih =>
    refine (ih _).trans ?_
    unfold upsertLibrary
    split <;> rfl

theorem agrees_discover (h : AvailabilityAgrees s.db) {found : List (String × LibraryMediaType)}
    {after : ServerRows}
    (hcall : s.discover py source serverIdentifier found now flushedAt = some after) :
    AvailabilityAgrees after.db := by
  obtain ⟨⟨identified, changed⟩, hidentified, rfl⟩ := Option.map_eq_some_iff.1 hcall
  exact (agrees_applyServerIdentity h hidentified).of_table
    (sourceMediaRefs_upserted found identified.db)

end ServerRows

/-- The calls that write references. -/
inductive AvailabilityCall
  | persistMedia (service : MediaPersistenceService) (cache : List CacheKey)
    (item : ExternalMediaItem) (observedAt : Time)
  | persistEvent (service : MediaPersistenceService) (cache : List CacheKey)
    (event : ExternalWatchEvent) (origin : EventOrigin)
  | sweep (l : LibraryScan)
  /-- `_invalidate_reference` of the propagation. -/
  | repair (now : Time) (reference : Nat)
  /-- An instant update, with its own `_invalidate_reference`. -/
  | watchUpdate (executor : AsyncTaskExecutor) (inputs : ExecutionInputs) (u : WatchUpdate)
  | identify (source : Nat) (serverIdentifier : Option String) (now flushedAt : Time)
  | discover (source : Nat) (serverIdentifier : Option String)
    (found : List (String × LibraryMediaType)) (now flushedAt : Time)
  | reconcile (now : Time) (call : ReconcileCall)

namespace AvailabilityCall

/-- The transaction of the call; one that raises is rolled back. -/
def step (py : PyLib) (s : ServerRows) : AvailabilityCall → ServerRows
  | persistMedia service cache item observedAt =>
    { s with db := (service.persistMedia item observedAt).commit cache s.db }
  | persistEvent service cache event origin =>
    { s with db := (service.persistEvent event origin).commit cache s.db }
  | sweep l => { s with db := s.db.markMissingUnavailable l }
  | repair now reference => { s with db := (s.db.invalidateReference now reference).1 }
  | watchUpdate executor inputs u => { s with db := (executor.applyWatchUpdate inputs u s.db).db }
  | identify source serverIdentifier now flushedAt =>
    ((s.applyServerIdentity py source serverIdentifier now flushedAt).map Prod.fst).getD s
  | discover source serverIdentifier found now flushedAt =>
    (s.discover py source serverIdentifier found now flushedAt).getD s
  | reconcile now call => { s with db := call.apply py now s.db }

theorem agrees_step {py : PyLib} {s : ServerRows} (h : AvailabilityAgrees s.db)
    (call : AvailabilityCall) :
    AvailabilityAgrees (call.step py s).db := by
  cases call with
  | persistMedia service cache item observedAt =>
    exact ((agrees_listed service.now).statements.keeps_persistMedia service item trivial).commit
      cache h
  | persistEvent service cache event origin =>
    exact ((agrees_listed service.now).statements.keeps_persistEvent service event origin).commit
      cache h
  | sweep l => exact agrees_markMissingUnavailable h l
  | repair now reference => exact agrees_invalidateReference h now reference
  | watchUpdate executor inputs u => exact agrees_applyWatchUpdate h executor inputs u
  | identify source serverIdentifier now flushedAt =>
    dsimp only [step]
    rcases hcall :
      s.applyServerIdentity py source serverIdentifier now flushedAt with - | ⟨after, changed⟩
    · exact h
    · exact ServerRows.agrees_applyServerIdentity h hcall
  | discover source serverIdentifier found now flushedAt =>
    dsimp only [step]
    rcases hcall : s.discover py source serverIdentifier found now flushedAt with - | after
    · exact h
    · exact ServerRows.agrees_discover h hcall
  | reconcile now call => exact (agrees_listed now).statements.reconcile h py call

theorem agrees_run {py : PyLib} (calls : List AvailabilityCall) {s : ServerRows}
    (h : AvailabilityAgrees s.db) :
    AvailabilityAgrees (calls.foldl (step py) s).db := by
  induction calls generalizing s with
  | nil => exact h
  | cons call calls ih => exact ih (agrees_step h call)

end AvailabilityCall

/-- From a database in which the columns agree, they agree after any run of calls; and however many
sweeps follow, a reference that is unavailable stays the row it is. -/
theorem availability_agrees (py : PyLib) (s : ServerRows) (h : AvailabilityAgrees s.db)
    (calls : List AvailabilityCall) :
    let current := calls.foldl (AvailabilityCall.step py) s
    AvailabilityAgrees current.db ∧ ∀ r ∈ current.db.sourceMediaRefs.rows, r.available = false →
      ∀ sweeps : List LibraryScan,
      (sweeps.foldl (fun db l => db.markMissingUnavailable l) current.db).sourceMediaRefs.get?
        r.id = some r :=
  ⟨AvailabilityCall.agrees_run calls h, fun _ hr hav sweeps =>
    get?_sweeps sweeps (Table.get?_of_mem hr) hav⟩

theorem availability_agrees_empty :
    let s : ServerRows := ⟨.empty, fun _ => none, .empty⟩
    let calls := [AvailabilityCall.persistMedia (plainService 1) []
      (MediaPersistenceService.movieNamed "m").item 0, .sweep (MediaPersistenceService.scanOf 1 [])]
    let current := calls.foldl (AvailabilityCall.step .plain) s
    AvailabilityAgrees current.db ∧ ∀ r ∈ current.db.sourceMediaRefs.rows, r.available = false →
      ∀ sweeps : List LibraryScan,
      (sweeps.foldl (fun db l => db.markMissingUnavailable l) current.db).sourceMediaRefs.get?
        r.id = some r :=
  availability_agrees .plain ⟨.empty, fun _ => none, .empty⟩ (fun _ hr => by cases hr) _

end Euvieouvi
