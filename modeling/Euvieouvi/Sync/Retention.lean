import Euvieouvi.Api.Collections
import Euvieouvi.Lib.Newest
import Mathlib.Data.List.Dedup

/-!
# Retention of synchronization runs

`_rotate_sync_runs` (`sync/jobs.py`): of the finished runs of each source the newest stay, as many
as the setting says. What is deleted with a run (its libraries and its errors) is left out.
-/

namespace Euvieouvi

/-- `sync_runs`. -/
abbrev SyncRunTable := Table (SyncRun.id ∘ SyncRunRow.toSyncRun)

/-- The setting `sync.retention.keep_last`. -/
def syncRetentionOf (parseInt : String → Option Int) (setting : Option String) : Nat :=
  match parseInt (setting.getD "15") with
  | some n => (max 1 (min 500 n)).toNat
  | none => 15

theorem syncRetentionOf_pos (parseInt : String → Option Int) (setting : Option String) :
    0 < syncRetentionOf parseInt setting := by
  unfold syncRetentionOf
  split <;> omega

/-- `ORDER BY created_at DESC, id DESC`. -/
def SyncRunRow.newer (a b : SyncRunRow) : Prop :=
  b.createdAt < a.createdAt ∨ a.createdAt = b.createdAt ∧ b.id ≤ a.id

instance SyncRunRow.decidableNewer (a b : SyncRunRow) :
    Decidable (a.newer b) := by unfold SyncRunRow.newer; infer_instance

instance SyncRunRow.totalNewer : Std.Total SyncRunRow.newer where
  total a b := by
    unfold SyncRunRow.newer
    rcases lt_trichotomy a.createdAt b.createdAt with hlt | heq | hlt
    · exact .inr (.inl hlt)
    · exact (Nat.le_total b.id a.id).imp (fun h => .inr ⟨heq, h⟩) fun h => .inr ⟨heq.symm, h⟩
    · exact .inl (.inl hlt)

instance SyncRunRow.transNewer : IsTrans SyncRunRow SyncRunRow.newer where
  trans a b c hab hbc := by
    unfold SyncRunRow.newer at *
    rcases hab with hab | ⟨hab, hid⟩
    · exact .inl (hbc.elim (fun h => h.trans hab) fun h => h.1 ▸ hab)
    · rcases hbc with hbc | ⟨hbc, hid'⟩
      · exact .inl (hab ▸ hbc)
      · exact .inr ⟨hab.trans hbc, hid'.trans hid⟩

theorem id_of_newer {a b : SyncRunRow} (hab : a.newer b) (hba : b.newer a) : a.id = b.id := by
  unfold SyncRunRow.newer at hab hba
  rcases hab with hab | ⟨heq, hid⟩
  · rcases hba with hba | ⟨heq, -⟩
    · exact absurd hab (lt_asymm hba)
    · exact absurd hab (heq ▸ lt_irrefl _)
  · rcases hba with hba | ⟨-, hid'⟩
    · exact absurd hba (heq ▸ lt_irrefl _)
    · exact Nat.le_antisymm hid' hid

namespace SyncRunTable

/-- The finished runs of a source. -/
def finishedOf (runs : SyncRunTable) (sourceId : Nat) : List SyncRunRow :=
  runs.rows.filter fun r => r.sourceId = sourceId ∧ r.status.active = false

/-- `keep_ids`. -/
def keepIds (keep : Nat) (runs : SyncRunTable) (sourceId : Nat) : List Nat :=
  (((finishedOf runs sourceId).insertionSort SyncRunRow.newer).take keep).map (·.id)

/-- The loop over the sources, for one of them. -/
def rotateSource (keep : Nat) (runs : SyncRunTable) (sourceId : Nat) : SyncRunTable :=
  if keepIds keep runs sourceId = [] then runs
  else Table.delete runs fun r => r.sourceId = sourceId ∧ r.id ∉ keepIds keep runs sourceId ∧
    r.status.active = false

/-- `_rotate_sync_runs`, with the number of runs that are removed. -/
def rotateSyncRuns (parseInt : String → Option Int) (setting : Option String)
    (runs : SyncRunTable) : SyncRunTable × Nat :=
  let rotated :=
    (runs.rows.map (·.sourceId)).dedup.foldl (rotateSource (syncRetentionOf parseInt setting)) runs
  (rotated, runs.rows.length - rotated.rows.length)

section
variable {keep : Nat} {runs : SyncRunTable} {sourceId other : Nat} {r : SyncRunRow}

theorem mem_finishedOf : r ∈ finishedOf runs sourceId ↔ r ∈ runs.rows ∧ r.sourceId = sourceId ∧
    r.status.active = false := by
  unfold finishedOf
  rw [List.mem_filter, decide_eq_true_iff]

theorem eq_of_id {a b : SyncRunRow} (ha : a ∈ runs.rows) (hb : b ∈ runs.rows)
    (h : a.id = b.id) : a = b :=
  List.inj_on_of_nodup_map runs.nodup ha hb h

theorem mem_keepIds (hr : r ∈ finishedOf runs sourceId) :
    r.id ∈ keepIds keep runs sourceId ↔
    countBefore SyncRunRow.newer (finishedOf runs sourceId) r < keep := by
  have hrows : ∀ a ∈ finishedOf runs sourceId, a ∈ runs.rows := fun a ha => (mem_finishedOf.1 ha).1
  have hnodup : (finishedOf runs sourceId).Nodup := (List.Nodup.of_map _ runs.nodup).filter _
  have htake : ∀ {a}, a ∈ ((finishedOf runs sourceId).insertionSort SyncRunRow.newer).take keep ↔
      a ∈ finishedOf runs sourceId ∧
        countBefore SyncRunRow.newer (finishedOf runs sourceId) a < keep :=
    mem_take_insertionSort hnodup fun a ha b hb hab hba =>
      eq_of_id (hrows a ha) (hrows b hb) (id_of_newer hab hba)
  unfold keepIds
  rw [List.mem_map]
  constructor
  · rintro ⟨a, ha, hid⟩
    obtain ⟨hmem, hfew⟩ := htake.1 ha
    rw [← eq_of_id (hrows a hmem) (hrows r hr) hid]
    exact hfew
  · exact fun hfew => ⟨r, htake.2 ⟨hr, hfew⟩, rfl⟩

theorem keepIds_ne_nil (hkeep : 0 < keep) (hr : r ∈ finishedOf runs sourceId) :
    keepIds keep runs sourceId ≠ [] := by
  unfold keepIds
  rw [Ne, List.map_eq_nil_iff, List.take_eq_nil_iff, not_or]
  refine ⟨hkeep.ne', fun hnil => ?_⟩
  have hmem := (List.perm_insertionSort SyncRunRow.newer (finishedOf runs sourceId)).mem_iff.2 hr
  rw [hnil] at hmem
  cases hmem

/-- A run stays unless it is a finished run of the source that too many others are newer than. -/
theorem mem_rotateSource (hkeep : 0 < keep) : r ∈ (rotateSource keep runs sourceId).rows ↔
    r ∈ runs.rows ∧
    (r.sourceId = sourceId → r.status.active = false →
      countBefore SyncRunRow.newer (finishedOf runs sourceId) r < keep) := by
  unfold rotateSource
  split
  next hnil =>
    refine (and_iff_left_of_imp fun hr hsource hfinished => ?_).symm
    exact absurd hnil (keepIds_ne_nil hkeep (mem_finishedOf.2 ⟨hr, hsource, hfinished⟩))
  · rw [Table.mem_delete, decide_eq_false_iff_not]
    refine and_congr_right fun hr => ⟨fun hkept hsource hfinished => ?_, fun hfew => ?_⟩
    · refine (mem_keepIds (mem_finishedOf.2 ⟨hr, hsource, hfinished⟩)).1 ?_
      by_contra hid
      exact hkept ⟨hsource, hid, hfinished⟩
    · rintro ⟨hsource, hid, hfinished⟩
      exact hid
        ((mem_keepIds (mem_finishedOf.2 ⟨hr, hsource, hfinished⟩)).2 (hfew hsource hfinished))

/-- The runs of the other sources are not touched. -/
theorem finishedOf_rotateSource (hother : other ≠ sourceId) :
    finishedOf (rotateSource keep runs sourceId) other = finishedOf runs other := by
  unfold rotateSource
  split
  · rfl
  unfold finishedOf
  rw [Table.rows_delete, List.filter_filter]
  refine List.filter_congr fun r _ => ?_
  by_cases hsource : r.sourceId = other
  · have hkept :
        ¬ (r.sourceId = sourceId ∧ r.id ∉ keepIds keep runs sourceId ∧ r.status.active = false) :=
      fun h => hother (hsource ▸ h.1)
    rw [decide_eq_false hkept, Bool.not_false, Bool.and_true]
  · rw [decide_eq_false fun h => hsource h.1, Bool.false_and]

theorem rows_rotateSource : (rotateSource keep runs sourceId).rows.Sublist runs.rows := by
  unfold rotateSource
  split
  · exact List.Sublist.refl _
  · exact List.filter_sublist

/-! ### All sources -/

theorem rows_rotateSources (sources : List Nat) :
    (sources.foldl (rotateSource keep) runs).rows.Sublist runs.rows := by
  induction sources generalizing runs with
  | nil => exact List.Sublist.refl _
  | cons sourceId sources ih => exact ih.trans rows_rotateSource

theorem mem_rotateSources (hkeep : 0 < keep) {sources : List Nat} (hnodup : sources.Nodup) :
    r ∈ (sources.foldl (rotateSource keep) runs).rows ↔ r ∈ runs.rows ∧
      (r.sourceId ∈ sources → r.status.active = false →
        countBefore SyncRunRow.newer (finishedOf runs r.sourceId) r < keep) := by
  induction sources generalizing runs with
  | nil => exact (and_iff_left fun h => absurd h List.not_mem_nil).symm
  | cons sourceId sources ih =>
    obtain ⟨hnew, hnodup⟩ := List.nodup_cons.1 hnodup
    rw [List.foldl_cons, ih hnodup, mem_rotateSource hkeep, and_assoc]
    refine and_congr_right fun _ =>
      ⟨fun ⟨hfirst, hrest⟩ hmem hfinished => ?_, fun hall => ⟨?_, fun hmem hfinished => ?_⟩⟩
    · rcases List.mem_cons.1 hmem with hsource | hmem
      · exact hsource ▸ hfirst hsource hfinished
      · have hother : r.sourceId ≠ sourceId := fun heq => hnew (heq ▸ hmem)
        rw [← finishedOf_rotateSource hother]
        exact hrest hmem hfinished
    · rintro rfl hfinished
      exact hall List.mem_cons_self hfinished
    · have hother : r.sourceId ≠ sourceId := fun heq => hnew (heq ▸ hmem)
      rw [finishedOf_rotateSource hother]
      exact hall (List.mem_cons_of_mem _ hmem) hfinished

/-- A finished run stays while fewer finished runs of its source are newer than the setting says,
and others stay anyway. -/
theorem mem_rotateSyncRuns {parseInt : String → Option Int} {setting : Option String} :
    r ∈ (rotateSyncRuns parseInt setting runs).1.rows ↔ r ∈ runs.rows ∧
      (r.status.active = false → countBefore SyncRunRow.newer (finishedOf runs r.sourceId) r <
        syncRetentionOf parseInt setting) := by
  unfold rotateSyncRuns
  dsimp only
  rw [mem_rotateSources (syncRetentionOf_pos parseInt setting) (List.nodup_dedup _)]
  refine and_congr_right fun hr => ⟨fun h => h ?_, fun h _ => h⟩
  exact List.mem_dedup.2 (List.mem_map_of_mem hr)

theorem rows_rotateSyncRuns (parseInt : String → Option Int) (setting : Option String)
    (runs : SyncRunTable) :
    (rotateSyncRuns parseInt setting runs).1.rows.Sublist runs.rows := rows_rotateSources _

end

variable (parseInt : String → Option Int) (setting : Option String) (runs : SyncRunTable)

theorem length_finishedOf_rotateSyncRuns (sourceId : Nat) :
    (finishedOf (rotateSyncRuns parseInt setting runs).1 sourceId).length ≤
      syncRetentionOf parseInt setting := by
  have hids : ((finishedOf (rotateSyncRuns parseInt setting runs).1 sourceId).map (·.id)).Nodup :=
    (List.filter_sublist.map _).nodup (rotateSyncRuns parseInt setting runs).1.nodup
  have hkept : (finishedOf (rotateSyncRuns parseInt setting runs).1 sourceId).map (·.id) ⊆
      keepIds (syncRetentionOf parseInt setting) runs sourceId := by
    intro id hid
    obtain ⟨r, hr, rfl⟩ := List.mem_map.1 hid
    obtain ⟨hrow, rfl, hfinished⟩ := mem_finishedOf.1 hr
    obtain ⟨hrow, hfew⟩ := mem_rotateSyncRuns.1 hrow
    exact (mem_keepIds (mem_finishedOf.2 ⟨hrow, rfl, hfinished⟩)).2 (hfew hfinished)
  calc (finishedOf (rotateSyncRuns parseInt setting runs).1 sourceId).length
      = ((finishedOf (rotateSyncRuns parseInt setting runs).1 sourceId).map (·.id)).length :=
        (List.length_map _).symm
    _ ≤ (keepIds (syncRetentionOf parseInt setting) runs sourceId).length :=
      (List.subperm_of_subset hids hkept).length_le
    _ ≤ syncRetentionOf parseInt setting := by
      unfold keepIds
      rw [List.length_map]
      exact List.length_take_le _ _

theorem rows_rotateSyncRuns_again :
    (rotateSyncRuns parseInt setting (rotateSyncRuns parseInt setting runs).1).1.rows =
    (rotateSyncRuns parseInt setting runs).1.rows := by
  have hnodup : (rotateSyncRuns parseInt setting runs).1.rows.Nodup :=
    List.Nodup.of_map _ (rotateSyncRuns parseInt setting runs).1.nodup
  refine (rows_rotateSyncRuns parseInt setting _).eq_of_length_le
    (List.subperm_of_subset hnodup fun r hr => ?_).length_le
  refine mem_rotateSyncRuns.2
    ⟨hr, fun hfinished => lt_of_le_of_lt ?_ ((mem_rotateSyncRuns.1 hr).2 hfinished)⟩
  exact List.Sublist.countP_le ((rows_rotateSyncRuns parseInt setting runs).filter _)

/-- A rotation keeps of each source exactly the runs that have not ended and the newest of those
that have, as many as the setting says; no source is left with more finished runs, and to rotate
once more changes nothing. -/
theorem retention_exact :
    (∀ r, r ∈ (rotateSyncRuns parseInt setting runs).1.rows ↔ r ∈ runs.rows ∧
      (r.status.active = false →
      countBefore SyncRunRow.newer (finishedOf runs r.sourceId) r <
        syncRetentionOf parseInt setting)) ∧
    (∀ sourceId, (finishedOf (rotateSyncRuns parseInt setting runs).1 sourceId).length ≤
      syncRetentionOf parseInt setting) ∧
    rotateSyncRuns parseInt setting (rotateSyncRuns parseInt setting runs).1 =
      ((rotateSyncRuns parseInt setting runs).1, 0) := by
  refine ⟨fun r => mem_rotateSyncRuns, length_finishedOf_rotateSyncRuns parseInt setting runs, ?_⟩
  have hrows := rows_rotateSyncRuns_again parseInt setting runs
  refine Prod.ext (Table.ext_rows hrows) ?_
  have hremoved : (rotateSyncRuns parseInt setting (rotateSyncRuns parseInt setting runs).1).2 =
      (rotateSyncRuns parseInt setting runs).1.rows.length -
        (rotateSyncRuns parseInt setting (rotateSyncRuns parseInt setting runs).1).1.rows.length :=
          rfl
  rw [hremoved, hrows]
  exact Nat.sub_self _

end SyncRunTable

end Euvieouvi
