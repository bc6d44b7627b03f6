import Euvieouvi.Enrichment.Additions
import Mathlib.Algebra.GroupWithZero.Nat

/-!
# The records of the enrichment

What a turn of `enrich_catalog` does to the records is `Asked`: the record of one item and provider
gets one more attempt and a status, and every other record stays. So the counters add up with the
attempts (`attempts_accounted`), a settled record is left alone (`keeps_enrichCatalog`), and a run
that comes to its end leaves only failed lookups to the next one (`enrichment_converges`).
-/

namespace Euvieouvi

/-- No later run of `enrich_catalog` asks for it. -/
def EnrichmentColumns.Settled (c : EnrichmentColumns) : Prop :=
  c.status = .succeeded ∨ c.status = .notFound

theorem EnrichmentColumns.Settled.migrate {c : EnrichmentColumns} (h : c.Settled) :
    c.migrate = c := by
  unfold EnrichmentColumns.migrate
  rw [if_neg]
  rintro ⟨hfailed, -⟩
  obtain h | h := h <;> cases hfailed.symm.trans h

theorem EnrichmentColumns.attempts_migrate (c : EnrichmentColumns) :
    c.migrate.attempts = c.attempts := by
  unfold EnrichmentColumns.migrate
  split <;> rfl

/-- The status that a lookup gives to the record. -/
def EnrichmentAnswer.status : EnrichmentAnswer → EnrichmentStatus
  | found _ => .succeeded
  | notFound _ => .notFound
  | failed _ | invalid _ => .failed
  | raised => .pending

theorem sum_attempts_update {rows : List EnrichmentRecord} (hnodup : (rows.map (·.id)).Nodup)
    {r : EnrichmentRecord} (hr : r ∈ rows)
    {columns : Nat → EnrichmentColumns} {c : EnrichmentColumns}
    (hc : c.attempts = (columns r.id).attempts + 1) :
    (rows.map fun q => (Function.update columns r.id c q.id).attempts).sum =
      (rows.map fun q => (columns q.id).attempts).sum + 1 := by
  induction rows with
  | nil => cases hr
  | cons q rows ih =>
    obtain ⟨hq, hnodup⟩ := List.nodup_cons.1 hnodup
    rw [List.map_cons, List.map_cons, List.sum_cons, List.sum_cons]
    obtain rfl | hr := List.mem_cons.1 hr
    · have hrest : (rows.map fun q => (Function.update columns r.id c q.id).attempts) =
          rows.map fun q => (columns q.id).attempts :=
        List.map_congr_left fun q' hq' => by
          have hne : q'.id ≠ r.id := fun heq => hq (List.mem_map.2 ⟨q', hq', heq⟩)
          rw [Function.update_of_ne hne]
      rw [Function.update_self, hc, hrest]
      omega
    · have hne : q.id ≠ r.id := fun heq => hq (List.mem_map.2 ⟨r, hr, heq.symm⟩)
      rw [Function.update_of_ne hne, ih hnodup hr]
      omega

namespace EnrichmentState
variable {st st' : EnrichmentState} {item : Nat} {provider : String} {now : Time}
  {status : EnrichmentStatus} {message : Option String}

/-- The attempts of all records. -/
def totalAttempts (st : EnrichmentState) : Nat :=
  (st.db.enrichmentRecords.rows.map fun r => (st.columns r.id).attempts).sum

theorem totalAttempts_migrate : st.migrate.totalAttempts = st.totalAttempts :=
  congrArg List.sum (List.map_congr_left fun r _ => (st.columns r.id).attempts_migrate)

/-- The record of an item and a provider has got one more attempt and this status. -/
structure Asked (item : Nat) (provider : String) (status : EnrichmentStatus)
    (st st' : EnrichmentState) : Prop where
  rows : st.db.enrichmentRecords.rows <+: st'.db.enrichmentRecords.rows
  other : ∀ r ∈ st.db.enrichmentRecords.rows, st.db.enrichmentRecord item provider ≠ some r →
    st'.columns r.id = st.columns r.id
  status : st'.statusOf item provider = some status
  attempts : st'.totalAttempts = st.totalAttempts + 1

theorem totalAttempts_settle {r : EnrichmentRecord} (hr : r ∈ st.db.enrichmentRecords.rows) :
    (st.settle r.id now status message).totalAttempts = st.totalAttempts + 1 :=
  sum_attempts_update st.db.enrichmentRecords.nodup hr rfl

theorem mem_of_enrichmentRecord {db : Database} {r : EnrichmentRecord}
    (h : db.enrichmentRecord item provider = some r) :
    r ∈ db.enrichmentRecords.rows ∧ r.mediaItemId = item ∧ r.provider = provider := by
  have hfound := List.find?_some h
  rw [Bool.and_eq_true, beq_iff_eq, beq_iff_eq] at hfound
  exact ⟨List.mem_of_find?_eq_some h, hfound⟩

/-- The first record stays the first. -/
theorem enrichmentRecord_of_append {db db' : Database}
    (h : db.enrichmentRecords.rows <+: db'.enrichmentRecords.rows)
    {r : EnrichmentRecord} (hr : db.enrichmentRecord item provider = some r) :
    db'.enrichmentRecord item provider = some r := by
  obtain ⟨rest, hrest⟩ := h
  unfold Database.enrichmentRecord at hr ⊢
  rw [← hrest, List.find?_append, hr, Option.some_or]

@[simp] theorem columns_settle_self {record : Nat} :
    (st.settle record now status message).columns record =
    { status := status, attempts := (st.columns record).attempts + 1, checkedAt := some now,
      message := message } :=
  Function.update_self ..

theorem columns_settle_of_ne {record id : Nat} (h : id ≠ record) :
    (st.settle record now status message).columns id = st.columns id :=
  Function.update_of_ne h ..

/-- The record that is opened is there afterwards, and nothing is known to have changed. -/
theorem openRecord_spec (st : EnrichmentState) (item : Nat) (provider : String) :
    ∃ r, (st.openRecord item provider).1 = r.id ∧
    (st.openRecord item provider).2.db.enrichmentRecord item provider = some r ∧
      st.db.enrichmentRecords.rows <+: (st.openRecord item provider).2.db.enrichmentRecords.rows ∧
      (∀ q ∈ st.db.enrichmentRecords.rows, (st.openRecord item provider).2.columns q.id =
        st.columns q.id) ∧
      (∀ q ∈ st.db.enrichmentRecords.rows, st.db.enrichmentRecord item provider ≠ some q →
        q.id ≠ r.id) ∧
      (st.openRecord item provider).2.totalAttempts = st.totalAttempts := by
  unfold openRecord
  cases hrecord : st.db.enrichmentRecord item provider with
  | some r =>
    refine ⟨r, rfl, hrecord, List.prefix_rfl, fun q _ => rfl, fun q hq hne heq => hne ?_, rfl⟩
    exact congrArg some
      (st.db.enrichmentRecords.eq_of_key_eq (mem_of_enrichmentRecord hrecord).1 hq heq.symm)
  | none =>
    have hrows := Table.rows_insert_of_get?_none (t := st.db.enrichmentRecords)
      (r := ⟨st.db.enrichmentRecords.nextId, item, provider⟩) st.db.enrichmentRecords.get?_nextId
    have hid : ∀ q ∈ st.db.enrichmentRecords.rows, q.id ≠ st.db.enrichmentRecords.nextId :=
      fun q hq => (Table.key_lt_nextId hq).ne
    dsimp only
    refine ⟨⟨st.db.enrichmentRecords.nextId, item, provider⟩, rfl, ?_, ?_, fun q hq =>
      Function.update_of_ne (hid q hq) ..,
      fun q hq _ => hid q hq, ?_⟩
    · unfold Database.enrichmentRecord at hrecord ⊢
      rw [hrows, List.find?_append, hrecord, Option.none_or, List.find?_singleton, if_pos (by simp)]
    · rw [hrows]
      exact List.prefix_append _ _
    · unfold totalAttempts
      dsimp only
      rw [hrows, List.map_append, List.sum_append, List.map_singleton, List.sum_singleton,
        Function.update_self, Nat.add_zero]
      exact congrArg List.sum
        (List.map_congr_left fun q hq => by rw [Function.update_of_ne (hid q hq)])

theorem asked_settle (st : EnrichmentState) (item : Nat) (provider : String) (now : Time)
    (status : EnrichmentStatus) (message : Option String) :
    Asked item provider status st ((st.openRecord item provider).2.settle
      (st.openRecord item provider).1 now status message) := by
  obtain ⟨r, hopen, hrecord, hpre, hcolumns, hother, hattempts⟩ := openRecord_spec st item provider
  rw [hopen]
  refine ⟨hpre, fun q hq hne => ?_, ?_, ?_⟩
  · rw [columns_settle_of_ne (hother q hq hne), hcolumns q hq]
  · show ((st.openRecord item provider).2.db.enrichmentRecord item provider).map _ = some status
    rw [hrecord, Option.map_some, columns_settle_self]
  · rw [totalAttempts_settle (mem_of_enrichmentRecord hrecord).1, hattempts]

/-- A write to other tables. -/
theorem Asked.write (h : Asked item provider status st st') {db : Database}
    (hdb : db.enrichmentRecords = st'.db.enrichmentRecords) :
    Asked item provider status st { st' with db := db } := by
  have hrecord : db.enrichmentRecord item provider = st'.db.enrichmentRecord item provider := by
    unfold Database.enrichmentRecord
    rw [hdb]
  refine ⟨hdb ▸ h.rows, h.other, ?_, ?_⟩
  · unfold statusOf
    rw [hrecord]
    exact h.status
  · unfold totalAttempts
    dsimp only
    rw [hdb]
    exact h.attempts

end EnrichmentState

namespace ProviderMetadata
variable {py : PyLib} {now : Time} {item : MediaItem} {metadata : ProviderMetadata}

theorem enrichmentRecords_linkGenres (py : PyLib) (i : Nat) (names : List String)
    (s : Database × Bool) :
    (names.foldl (linkGenre py i) s).1.enrichmentRecords = s.1.enrichmentRecords := by
  induction names generalizing s with
  | nil => rfl
  | cons name names ih =>
    refine (ih _).trans ?_
    unfold linkGenre
    dsimp only
    split
    · dsimp only
      split <;> rfl
    · dsimp only
      split <;> rfl

theorem enrichmentRecords_apply (db : Database) :
    (metadata.apply py now item db).1.enrichmentRecords = db.enrichmentRecords := by
  have hsaved : (db.saveMediaItem now item.id ⟨metadata.fill, fun _ => rfl⟩).enrichmentRecords =
      db.enrichmentRecords :=
    Database.updateMediaItems_frame _ _ .enrichmentRecords (by decide)
  have hgenred := (enrichmentRecords_linkGenres py item.id metadata.genres
    (db.saveMediaItem now item.id ⟨metadata.fill, fun _ => rfl⟩,
      decide (metadata.fill item ≠ item))).trans hsaved
  unfold apply
  dsimp only
  split
  · split <;> exact hgenred
  · exact hgenred

end ProviderMetadata

namespace EnrichmentRun
variable {run run' : EnrichmentRun} {py : PyLib} {settings : EnrichmentSettings} {total : Nat}
  {call : EnrichmentTurn}
  {provider : EnrichmentProvider} {identifier : MediaIdentifier} {item : MediaItem}

/-- What asking does: the record is settled by the answer, and one more item is counted. -/
theorem ask_spec (h : run.ask py settings total call provider identifier item = some run') :
    EnrichmentState.Asked item.id identifier.provider
      (call.metadata settings provider item.kind identifier.externalId).status run.state
        run'.state ∧
    run'.committed = run'.state ∧ run'.counters.processed = run.counters.processed + 1 ∧
    (∃ updated failed, run'.counters.updated = run.counters.updated + updated ∧
      run'.counters.failed = run.counters.failed + failed ∧
      updated + failed ≤ 1) ∧
    run'.reports = run.reports ++ [(run'.counters, run'.counters.percent total)] ∧
    call.metadata settings provider item.kind identifier.externalId ≠ .raised := by
  unfold ask at h
  dsimp only at h
  split at h <;> cases h
  next metadata hanswer =>
    rw [hanswer]
    refine ⟨?_, rfl, rfl, ⟨_, 0, rfl, rfl, Bool.toNat_le _⟩, rfl, nofun⟩
    exact (EnrichmentState.asked_settle ..).write (ProviderMetadata.enrichmentRecords_apply _)
  next text hanswer =>
    rw [hanswer]
    exact ⟨EnrichmentState.asked_settle .., rfl, rfl, ⟨0, 1, rfl, rfl, le_rfl⟩, rfl, nofun⟩
  next text hanswer =>
    rw [hanswer]
    exact ⟨EnrichmentState.asked_settle .., rfl, rfl, ⟨0, 1, rfl, rfl, le_rfl⟩, rfl, nofun⟩
  next text hanswer =>
    rw [hanswer]
    exact ⟨EnrichmentState.asked_settle .., rfl, rfl, ⟨0, 1, rfl, rfl, le_rfl⟩, rfl, nofun⟩

end EnrichmentRun

/-! ### Attempts -/

/-- What the counters and the reports of a run say. -/
structure EnrichmentRun.Accounted (st : EnrichmentState) (total : Nat)
    (run : EnrichmentRun) : Prop where
  state : run.state.totalAttempts = st.totalAttempts + run.counters.processed
  committed : run.committed.totalAttempts = st.totalAttempts + run.counters.processed
  counted : run.counters.updated + run.counters.failed ≤ run.counters.processed
  reported : run.reports.Pairwise fun a b => a.1.processed ≤ b.1.processed ∧ a.2 ≤ b.2
  bounded : ∀ report ∈ run.reports, report.1.processed ≤ run.counters.processed ∧
    report.2 ≤ run.counters.percent total

theorem EnrichmentRun.Accounted.turn {st : EnrichmentState} {total id : Nat}
    {run run' : EnrichmentRun} {py : PyLib}
    {settings : EnrichmentSettings} {call : EnrichmentTurn} (h : run.Accounted st total)
    (hturn : run.turn py settings total call id = .asked run') : run'.Accounted st total := by
  obtain ⟨identifier, item, provider, -, -, -, hask⟩ := EnrichmentRun.turn_asked hturn
  obtain ⟨hasked, hcommitted, hprocessed, ⟨updated, failed, hupdated, hfailed, hone⟩,
    hreports, -⟩ := ask_spec hask
  have hstate : run'.state.totalAttempts = st.totalAttempts + run'.counters.processed := by
    rw [hasked.attempts, h.state, hprocessed, Nat.add_assoc]
  have hpercent : run.counters.percent total ≤ run'.counters.percent total :=
    min_le_min_left 100 (Nat.div_le_div_right (Nat.mul_le_mul_right 100 (by omega)))
  have hbounded : ∀ report ∈ run.reports,
      report.1.processed ≤ run'.counters.processed ∧ report.2 ≤ run'.counters.percent total := by
    intro report hreport
    obtain ⟨hle, hle'⟩ := h.bounded report hreport
    exact ⟨by omega, hle'.trans hpercent⟩
  have hcounted := h.counted
  refine ⟨hstate, hcommitted ▸ hstate, by omega, ?_, ?_⟩
  · rw [hreports, List.pairwise_append]
    refine ⟨h.reported, List.pairwise_singleton _ _, fun a ha b hb => ?_⟩
    rw [List.mem_singleton.1 hb]
    exact hbounded a ha
  · rw [hreports]
    intro report hreport
    obtain hreport | hreport := List.mem_append.1 hreport
    · exact hbounded report hreport
    · rw [List.mem_singleton.1 hreport]
      exact ⟨le_rfl, le_rfl⟩

/-- The lookup whose exception has ended the run: it is counted, and no attempt of it is stored. -/
def EnrichmentEnd.unstored : EnrichmentEnd → Nat
  | raised (.fault _) _ => 1
  | _ => 0

/-- What the end of a run says. -/
structure EnrichmentEnd.Accounted (st : EnrichmentState) (e : EnrichmentEnd) : Prop where
  attempts : e.state.totalAttempts + e.unstored = st.totalAttempts + e.run.counters.processed
  counted : e.run.counters.updated + e.run.counters.failed + e.unstored ≤ e.run.counters.processed
  reported : e.run.reports.Pairwise fun a b => a.1.processed ≤ b.1.processed ∧ a.2 ≤ b.2
  bounded : ∀ report ∈ e.run.reports, report.2 ≤ 100

theorem EnrichmentEnd.Accounted.close {st : EnrichmentState} {e : EnrichmentEnd}
    (h : e.Accounted st) : e.close.Accounted st := by
  cases e <;> exact ⟨h.attempts, h.counted, h.reported, h.bounded⟩

theorem EnrichmentRun.Accounted.loop {st : EnrichmentState} {total : Nat} {run : EnrichmentRun}
    (py : PyLib)
    (settings : EnrichmentSettings) (limit : Option Nat) (turns : Nat → EnrichmentTurn)
    (h : run.Accounted st total)
    (ids : List Nat) : (loop py settings limit total turns run ids).Accounted st := by
  have hpercent : ∀ {run : EnrichmentRun}, run.Accounted st total → ∀ report ∈ run.reports,
      report.2 ≤ 100 :=
    fun h report hreport => (h.bounded report hreport).2.trans (Nat.min_le_left _ _)
  induction ids generalizing run with
  | nil => exact ⟨h.state, h.counted, h.reported, hpercent h⟩
  | cons id ids ih =>
    unfold EnrichmentRun.loop
    split
    · exact ⟨h.state, h.counted, h.reported, hpercent h⟩
    · split
      · exact ih h
      · have hreports : ∀ report ∈ run.reports, report.2 ≤ 100 := hpercent h
        exact ⟨congrArg (· + 1) h.committed, Nat.succ_le_succ h.counted, h.reported, hreports⟩
      next run' hturn =>
        have hnext := h.turn hturn
        split
        · exact ⟨hnext.committed, hnext.counted, hnext.reported, hpercent hnext⟩
        · exact ih hnext

theorem EnrichmentRun.processed_loop_le (py : PyLib) (settings : EnrichmentSettings)
    (limit : Option Nat) (total : Nat)
    (turns : Nat → EnrichmentTurn) (run : EnrichmentRun) (ids : List Nat) :
    (loop py settings limit total turns run ids).run.counters.processed ≤ run.counters.processed +
      ids.length := by
  induction ids generalizing run with
  | nil => exact le_rfl
  | cons id ids ih =>
    unfold loop
    rw [List.length_cons]
    split
    · exact Nat.le_add_right _ _
    · split
      · exact (ih run).trans (by omega)
      · show run.counters.processed + 1 ≤ _
        omega
      next run' hturn =>
        obtain ⟨identifier, item, provider, -, -, -, hask⟩ := turn_asked hturn
        have hprocessed := (ask_spec hask).2.2.1
        split
        · show run'.counters.processed ≤ _
          omega
        · exact (ih run').trans (by omega)

namespace EnrichmentState
variable {py : PyLib} {settings : EnrichmentSettings} {limit : Option Nat} {calls : EnrichmentTurns}
  {st : EnrichmentState}

theorem length_limitedCandidates_le (settings : EnrichmentSettings) (limit : Option Nat)
    (st : EnrichmentState) :
    (st.limitedCandidates settings limit).length ≤ (st.candidates settings).length ∧
    ∀ n, limit = some n → (st.limitedCandidates settings limit).length ≤ n := by
  unfold limitedCandidates
  cases limit with
  | none => exact ⟨le_rfl, nofun⟩
  | some n =>
    refine ⟨List.length_take_le' n _, fun m hm => ?_⟩
    cases hm
    exact List.length_take_le n _

theorem totalAttempts_start (calls : EnrichmentTurns) (st : EnrichmentState) (total : Nat) :
    (EnrichmentRun.start calls st total).committed.totalAttempts = st.totalAttempts := by
  obtain heq | heq := EnrichmentRun.committed_start calls st total
  · rw [heq]
  · rw [heq, totalAttempts_migrate]

theorem accounted_start (calls : EnrichmentTurns) (st : EnrichmentState) (total : Nat)
    (htotal : total ≠ 0) :
    (EnrichmentRun.start calls st total).Accounted st total where
  state := totalAttempts_migrate
  committed := totalAttempts_start calls st total
  counted := le_rfl
  reported := List.pairwise_singleton _ _
  bounded report h := by
    rw [List.mem_singleton.1 h, if_neg htotal]
    exact ⟨le_rfl, Nat.zero_le _⟩

/-- However a run ends, the attempts that are stored have grown by the number of items that it has
counted as processed, less the one whose lookup has raised an exception that ended the run; these
are no more than there are candidates or the limit allows, and what it reports never goes back or
beyond 100. -/
theorem attempts_accounted (py : PyLib) (settings : EnrichmentSettings) (limit : Option Nat)
    (calls : EnrichmentTurns) (st : EnrichmentState) :
    (st.enrichCatalog py settings limit calls).Accounted st ∧
    (st.enrichCatalog py settings limit calls).run.counters.processed ≤
      (st.migrate.candidates settings).length ∧
    ∀ n, limit = some n →
    (st.enrichCatalog py settings limit calls).run.counters.processed ≤ n := by
  unfold enrichCatalog
  dsimp only
  split
  · have hreport : ∀ report ∈ [(({} : EnrichmentCounters), 100)], report.2 ≤ 100 :=
      fun report h => List.mem_singleton.1 h ▸ le_rfl
    split
    · exact ⟨⟨rfl, le_rfl, List.pairwise_singleton _ _, hreport⟩, Nat.zero_le _, fun n _ =>
        Nat.zero_le n⟩
    · exact ⟨⟨totalAttempts_migrate, le_rfl, List.pairwise_singleton _ _, hreport⟩, Nat.zero_le _,
        fun n _ => Nat.zero_le n⟩
  · have hfirst : ∀ total report, report ∈ (EnrichmentRun.start calls st total).reports →
        report.2 ≤ 100 := by
      intro total report h
      rw [List.mem_singleton.1 h]
      dsimp only
      split <;> omega
    split
    · exact ⟨⟨totalAttempts_start calls st _, le_rfl, List.pairwise_singleton _ _, hfirst _⟩,
        Nat.zero_le _,
        fun n _ => Nat.zero_le n⟩
    · obtain ⟨hlength, hlimit⟩ := length_limitedCandidates_le settings limit st.migrate
      generalize st.migrate.limitedCandidates settings limit = candidates at hlength hlimit ⊢
      have hprocessed :=
        EnrichmentRun.processed_loop_le py settings limit candidates.length calls.turn
        (.start calls st candidates.length) (candidates.map (·.id))
      have haccounted : (EnrichmentRun.loop py settings limit candidates.length calls.turn
          (.start calls st candidates.length)
          (candidates.map (·.id))).Accounted st := by
        obtain rfl | hne := eq_or_ne candidates []
        · exact ⟨totalAttempts_migrate, le_rfl, List.pairwise_singleton _ _, hfirst _⟩
        · exact (accounted_start calls st _ (mt List.length_eq_zero_iff.1 hne)).loop ..
      generalize EnrichmentRun.loop py settings limit candidates.length calls.turn _ _ =
        e at hprocessed haccounted ⊢
      have hle : e.close.run.counters.processed ≤ candidates.length := by
        rw [e.close_state.2.2.1]
        rw [List.length_map] at hprocessed
        exact hprocessed.trans (Nat.zero_add _).le
      exact ⟨haccounted.close, hle.trans hlength, fun n hn => hle.trans (hlimit n hn)⟩

theorem statusOf_eq_some {item : Nat} {provider : String} {status : EnrichmentStatus} :
    st.statusOf item provider = some status ↔
    ∃ r, st.db.enrichmentRecord item provider = some r ∧ (st.columns r.id).status = status :=
  Option.map_eq_some_iff

/-- A record that is there from the start is the first of its item and provider, if it is that
later. -/
theorem enrichmentRecord_of_mem {db db' : Database} {item : Nat} {provider : String}
    (h : db.enrichmentRecords.rows <+: db'.enrichmentRecords.rows) {r : EnrichmentRecord}
    (hr : r ∈ db.enrichmentRecords.rows)
    (hr' : db'.enrichmentRecord item provider = some r) :
    db.enrichmentRecord item provider = some r := by
  cases hrecord : db.enrichmentRecord item provider with
  | some q => exact (enrichmentRecord_of_append h hrecord).symm.trans hr'
  | none =>
    obtain ⟨-, hitem, hprovider⟩ := mem_of_enrichmentRecord hr'
    have hno := List.find?_eq_none.1 hrecord r hr
    rw [hitem, hprovider, beq_self_eq_true, beq_self_eq_true] at hno
    exact absurd rfl hno

theorem mem_candidates {i : MediaIdentifier} :
    i ∈ st.candidates settings ↔ i ∈ st.db.mediaIdentifiers.rows ∧
    settings.eligible st.db i = true ∧ ∀ status, st.statusOf i.mediaItemId i.provider =
      some status → status ≠ .succeeded ∧ status ≠ .notFound := by
  unfold candidates
  rw [(List.perm_insertionSort _ _).mem_iff, List.mem_filter, Bool.and_eq_true, Option.all_eq_true]
  simp only [Bool.and_eq_true, bne_iff_ne]

/-- The record is there with the columns that it had at the start. -/
structure Keeps (r : EnrichmentRecord) (st st' : EnrichmentState) : Prop where
  rows : st.db.enrichmentRecords.rows <+: st'.db.enrichmentRecords.rows
  columns : st'.columns r.id = st.columns r.id

theorem Keeps.refl (r : EnrichmentRecord) (st : EnrichmentState) : Keeps r st st :=
  ⟨List.prefix_rfl, rfl⟩

theorem Keeps.asked {r : EnrichmentRecord} {st st' st'' : EnrichmentState} {item : Nat}
    {provider : String} {status : EnrichmentStatus}
    (h : Keeps r st st') (hr : r ∈ st.db.enrichmentRecords.rows)
    (hne : st.db.enrichmentRecord item provider ≠ some r)
    (hasked : Asked item provider status st' st'') : Keeps r st st'' where
  rows := h.rows.trans hasked.rows
  columns := by
    rw [hasked.other r (h.rows.subset hr) fun heq =>
      hne (enrichmentRecord_of_mem h.rows hr heq), h.columns]

/-- A settled record is no candidate's. -/
theorem ne_of_mem_candidates {i : MediaIdentifier} (hi : i ∈ st.candidates settings)
    {r : EnrichmentRecord}
    (hsettled : (st.columns r.id).Settled) :
    st.db.enrichmentRecord i.mediaItemId i.provider ≠ some r := by
  intro hrecord
  obtain ⟨-, -, hopen⟩ := mem_candidates.1 hi
  obtain ⟨hsucceeded, hnot⟩ := hopen _ (statusOf_eq_some.2 ⟨r, hrecord, rfl⟩)
  exact hsettled.elim hsucceeded hnot

theorem mem_candidates_of_limited {i : MediaIdentifier}
    (h : i ∈ st.limitedCandidates settings limit) : i ∈ st.candidates settings := by
  unfold limitedCandidates at h
  split at h
  · exact List.mem_of_mem_take h
  · exact h

/-- The identifier of a candidate is found again. -/
theorem get?_candidate {db : Database} {i identifier : MediaIdentifier} (hadds : OnlyAdds st.db db)
    (hi : i ∈ st.candidates settings)
    (hget : db.mediaIdentifiers.get? i.id = some identifier) : identifier = i := by
  have hsame : db.mediaIdentifiers = st.db.mediaIdentifiers :=
    hadds.frame .mediaIdentifiers (by decide)
  rw [hsame] at hget
  exact Option.some.inj (hget.symm.trans (Table.get?_of_mem (mem_candidates.1 hi).1))

theorem keeps_turn {r : EnrichmentRecord} {run run' : EnrichmentRun} {total : Nat}
    {call : EnrichmentTurn} {i : MediaIdentifier}
    (hr : r ∈ st.db.enrichmentRecords.rows) (hsettled : (st.columns r.id).Settled)
    (hi : i ∈ st.candidates settings)
    (hadds : OnlyAdds st.db run.state.db) (h : Keeps r st run.state)
    (hturn : run.turn py settings total call i.id = .asked run') :
    Keeps r st run'.state := by
  obtain ⟨identifier, item, provider, hget, hitem, -, hask⟩ := EnrichmentRun.turn_asked hturn
  cases get?_candidate hadds hi hget
  have hne := ne_of_mem_candidates hi hsettled
  rw [← Table.key_of_get? hitem] at hne
  exact h.asked hr hne (EnrichmentRun.ask_spec hask).1

theorem keeps_loop (py : PyLib) (settings : EnrichmentSettings) (limit : Option Nat)
    (calls : EnrichmentTurns) (st : EnrichmentState)
    {r : EnrichmentRecord} (hr : r ∈ st.db.enrichmentRecords.rows)
    (hsettled : (st.migrate.columns r.id).Settled) (total : Nat) :
    Keeps r st.migrate
      (EnrichmentRun.loop py settings limit total calls.turn (.start calls st total)
      ((st.migrate.limitedCandidates settings limit).map (·.id))).run.state ∧
    (Keeps r st.migrate st → Keeps r st.migrate
      (EnrichmentRun.loop py settings limit total calls.turn (.start calls st total)
      ((st.migrate.limitedCandidates settings limit).map (·.id))).run.committed) := by
  have hstart : Keeps r st.migrate st →
      Keeps r st.migrate (EnrichmentRun.start calls st total).committed := by
    intro h
    obtain heq | heq := EnrichmentRun.committed_start calls st total
    · rw [heq]
      exact h
    · rw [heq]
      exact .refl r _
  refine (EnrichmentRun.loop_invariant (I := fun run => OnlyAdds st.db run.state.db ∧
    Keeps r st.migrate run.state ∧
    (Keeps r st.migrate st → Keeps r st.migrate run.committed)) (fun run run' id hid h hturn => ?_)
      (fun _ h => h)
    ⟨.refl st.db, .refl r _, hstart⟩).2
  obtain ⟨i, hi, rfl⟩ := List.mem_map.1 hid
  obtain ⟨hadds, hstate, -⟩ := h
  have hstate' : Keeps r st.migrate run'.state :=
    keeps_turn hr hsettled (mem_candidates_of_limited hi) hadds hstate hturn
  obtain ⟨hadds', heq⟩ := OnlyAdds.of_turn hturn
  exact ⟨hadds.trans hadds', hstate', fun _ => heq ▸ hstate'⟩

theorem keeps_enrichCatalog {r : EnrichmentRecord} (hr : r ∈ st.db.enrichmentRecords.rows)
    (hsettled : (st.columns r.id).Settled) :
    Keeps r st (st.enrichCatalog py settings limit calls).state := by
  have hsame : st.migrate.columns r.id = st.columns r.id := hsettled.migrate
  unfold enrichCatalog
  dsimp only
  split
  · split
    · exact .refl r st
    · exact ⟨List.prefix_rfl, hsame⟩
  · split
    · show Keeps r st (EnrichmentRun.start calls st _).committed
      obtain heq | heq :=
        EnrichmentRun.committed_start calls st (st.migrate.limitedCandidates settings limit).length
      · rw [heq]
        exact .refl r st
      · rw [heq]
        exact ⟨List.prefix_rfl, hsame⟩
    · have hkeeps := keeps_loop py settings limit calls st hr (hsame ▸ hsettled)
        (st.migrate.limitedCandidates settings limit).length
      generalize EnrichmentRun.loop py settings limit _ calls.turn _ _ = e at hkeeps ⊢
      have hend : Keeps r st.migrate e.state := by
        obtain heq | heq := e.state_cases
        · exact heq ▸ hkeeps.1
        · exact heq ▸ hkeeps.2 ⟨List.prefix_rfl, hsame.symm⟩
      obtain ⟨hdb, hcolumns, -⟩ := e.close_state
      exact ⟨by rw [hdb]; exact hend.rows, by rw [hcolumns]; exact hend.columns.trans hsame⟩

/-! ### Convergence -/

theorem eligible_of_adds {db db' : Database} (h : OnlyAdds db db') {i : MediaIdentifier}
    (hi : settings.eligible db' i = true) :
    settings.eligible db i = true := by
  unfold EnrichmentSettings.eligible at hi ⊢
  have hrel := h.items i.mediaItemId
  generalize db.mediaItems.get? i.mediaItemId = before at hrel ⊢
  generalize db'.mediaItems.get? i.mediaItemId = after at hrel hi
  cases hrel with
  | none => exact hi
  | @some m m' hfilled =>
    obtain ⟨metadata, now, rfl⟩ := hfilled.columns
    have hposter : db'.hasPoster m.id = false → db.hasPoster m.id = false := by
      intro hnone
      cases hold : db.hasPoster m.id with
      | false => rfl
      | true => exact (h.hasPoster hold).symm.trans hnone
    simp only [Option.any_some, ProviderMetadata.fill] at hi ⊢
    generalize settings.provider i.provider m.kind = provider at hi ⊢
    cases provider with
    | none => exact hi
    | some provider =>
      cases provider with
      | tmdb =>
        simp only [Bool.or_eq_true, Bool.not_eq_true', Option.isNone_or, Bool.and_eq_true] at hi ⊢
        exact hi.imp (Or.imp (Or.imp (Or.imp And.left And.left) And.left) And.left) hposter
      | musicbrainz =>
        simp only [Bool.not_eq_true'] at hi ⊢
        exact hposter hi

/-- The record of an item and a provider has a status that a lookup gives, or a certain one of
them. -/
def Answered (P : EnrichmentStatus → Prop) (st : EnrichmentState) (item : Nat)
    (provider : String) : Prop :=
  ∃ status, st.statusOf item provider = some status ∧ P status

theorem Answered.asked {P : EnrichmentStatus → Prop} {st st' : EnrichmentState} {item item' : Nat}
    {provider provider' : String}
    {status : EnrichmentStatus} (h : Answered P st item provider)
    (hasked : Asked item' provider' status st st') (hP : P status) :
    Answered P st' item provider := by
  obtain ⟨old, hold, hPold⟩ := h
  obtain ⟨r, hr, rfl⟩ := statusOf_eq_some.1 hold
  obtain ⟨hmem, hitem, hprovider⟩ := mem_of_enrichmentRecord hr
  by_cases hsame : st.db.enrichmentRecord item' provider' = some r
  · obtain ⟨-, rfl, rfl⟩ := mem_of_enrichmentRecord hsame
    exact ⟨status, hitem ▸ hprovider ▸ hasked.status, hP⟩
  · refine ⟨_, statusOf_eq_some.2 ⟨r, enrichmentRecord_of_append hasked.rows hr, rfl⟩, ?_⟩
    rw [hasked.other r hmem hsame]
    exact hPold

/-- The identifier belongs to an item that a client knows by it. -/
def Askable (settings : EnrichmentSettings) (db : Database) (i : MediaIdentifier) : Prop :=
  db.mediaIdentifiers.get? i.id = some i ∧
    ∃ m, db.mediaItems.get? i.mediaItemId = some m ∧
      (settings.provider i.provider m.kind).isSome = true

theorem Askable.adds {db db' : Database} {i : MediaIdentifier} (h : Askable settings db i)
    (hadds : OnlyAdds db db') :
    Askable settings db' i := by
  obtain ⟨hget, m, hm, hprovider⟩ := h
  have hsame : db'.mediaIdentifiers = db.mediaIdentifiers :=
    hadds.frame .mediaIdentifiers (by decide)
  have hrel := hadds.items i.mediaItemId
  rw [hm] at hrel
  generalize hafter : db'.mediaItems.get? i.mediaItemId = after at hrel
  cases hrel with
  | some hfilled =>
    obtain ⟨metadata, now, rfl⟩ := hfilled.columns
    exact ⟨hsame ▸ hget, _, hafter, hprovider⟩

theorem askable_candidate {i : MediaIdentifier} (hi : i ∈ st.candidates settings) :
    Askable settings st.db i := by
  obtain ⟨hmem, heligible, -⟩ := mem_candidates.1 hi
  refine ⟨Table.get?_of_mem hmem, ?_⟩
  unfold EnrichmentSettings.eligible at heligible
  obtain ⟨m, hm, hprovider⟩ := (Option.any_eq_true _ _).1 heligible
  refine ⟨m, hm, ?_⟩
  cases hp : settings.provider i.provider m.kind with
  | none =>
    rw [hp] at hprovider
    cases hprovider
  | some provider => rfl

/-- Every answer gives a status of this kind. -/
def Answers (P : EnrichmentStatus → Prop) (settings : EnrichmentSettings)
    (turns : Nat → EnrichmentTurn) : Prop :=
  ∀ id provider kind externalId, (turns id).metadata settings provider kind externalId ≠ .raised →
    P ((turns id).metadata settings provider kind externalId).status

/-- The turn for an identifier that can be asked for is skipped only if it has succeeded. -/
theorem turn_askable (py : PyLib) {run : EnrichmentRun} (total : Nat) (turn : EnrichmentTurn)
    {i : MediaIdentifier} (hi : Askable settings run.state.db i) :
    run.turn py settings total turn i.id = .skipped ∧
    run.state.statusOf i.mediaItemId i.provider = some .succeeded ∨
    run.turn py settings total turn i.id = .raised ∨
    ∃ run' m provider, run.turn py settings total turn i.id = .asked run' ∧ m.id = i.mediaItemId ∧
      run.ask py settings total turn provider i m = some run' := by
  obtain ⟨hget, m, hm, hprovider⟩ := hi
  obtain ⟨provider, hprovider⟩ := Option.isSome_iff_exists.1 hprovider
  have hid : m.id = i.mediaItemId := Table.key_of_get? hm
  have hturn : run.turn py settings total turn i.id =
      if run.state.statusOf m.id i.provider = some .succeeded then .skipped
      else .ofAsk (run.ask py settings total turn provider i m) := by
    unfold EnrichmentRun.turn
    simp only [hget, hm, hprovider]
  by_cases hstatus : run.state.statusOf m.id i.provider = some .succeeded
  · exact .inl ⟨hturn.trans (if_pos hstatus), hid ▸ hstatus⟩
  · rw [if_neg hstatus] at hturn
    cases hask : run.ask py settings total turn provider i m with
    | none =>
      rw [hask] at hturn
      exact .inr (.inl hturn)
    | some run' =>
      rw [hask] at hturn
      exact .inr (.inr ⟨run', m, provider, hturn, hid, hask⟩)

theorem answered_loop {P : EnrichmentStatus → Prop} (hsucceeded : P .succeeded)
    {turns : Nat → EnrichmentTurn}
    (hanswers : Answers P settings turns) (hcancelled : ∀ id, (turns id).cancelledBefore = false)
    {total : Nat}
    {run run' : EnrichmentRun} {candidates : List MediaIdentifier}
    (hcandidates : ∀ i ∈ candidates, Askable settings run.state.db i)
    (hend : EnrichmentRun.loop py settings none total turns run (candidates.map (·.id)) =
      .finished run') :
    (∀ item provider, Answered P run.state item provider → Answered P run'.state item provider) ∧
      ∀ i ∈ candidates, Answered P run'.state i.mediaItemId i.provider := by
  induction candidates generalizing run with
  | nil =>
    cases hend
    exact ⟨fun _ _ h => h, nofun⟩
  | cons i candidates ih =>
    have hi := hcandidates i List.mem_cons_self
    have hrest := fun j hj => hcandidates j (List.mem_cons_of_mem i hj)
    rw [List.map_cons] at hend
    unfold EnrichmentRun.loop at hend
    rw [if_neg (by rw [hcancelled]; simp)] at hend
    obtain ⟨hturn, hstatus⟩ | hturn | ⟨run₁, m, provider, hturn, hid, hask⟩ :=
      turn_askable py total (turns i.id) hi
    · rw [hturn] at hend
      obtain ⟨hkept, hall⟩ := ih hrest hend
      refine ⟨hkept, fun j hj => ?_⟩
      obtain rfl | hj := List.mem_cons.1 hj
      · exact hkept _ _ ⟨_, hstatus, hsucceeded⟩
      · exact hall j hj
    · rw [hturn] at hend
      cases hend
    · rw [hturn] at hend
      dsimp only at hend
      split at hend
      · cases hend
      · obtain ⟨hasked, -, -, -, -, hne⟩ := EnrichmentRun.ask_spec hask
        have hP := hanswers i.id provider m.kind i.externalId hne
        have hadds := (OnlyAdds.ask hask).1
        obtain ⟨hkept, hall⟩ := ih (fun j hj => (hrest j hj).adds hadds) hend
        refine ⟨fun item provider h => hkept item provider (h.asked hasked hP), fun j hj => ?_⟩
        obtain rfl | hj := List.mem_cons.1 hj
        · exact hkept _ _ ⟨_, hid ▸ hasked.status, hP⟩
        · exact hall j hj

/-- Without a client there are no candidates. -/
theorem client_of_candidate {i : MediaIdentifier} (hi : i ∈ st.candidates settings) :
    ¬ (settings.tmdb = false ∧ settings.musicbrainz = false) := by
  rintro ⟨htmdb, hmusicbrainz⟩
  obtain ⟨-, m, -, hprovider⟩ := askable_candidate hi
  unfold EnrichmentSettings.provider at hprovider
  rw [htmdb, hmusicbrainz] at hprovider
  simp at hprovider

theorem migrate_status {c : EnrichmentColumns} (h : c.status ≠ .failed) : c.migrate = c := by
  unfold EnrichmentColumns.migrate
  exact if_neg fun hfailed => h hfailed.1

theorem enrichCatalog_of_client (h : ¬ (settings.tmdb = false ∧ settings.musicbrainz = false))
    {run : EnrichmentRun} (hend : st.enrichCatalog py settings limit calls = .finished run) :
    ∃ last, EnrichmentRun.loop py settings limit
      (st.migrate.limitedCandidates settings limit).length calls.turn
      (.start calls st (st.migrate.limitedCandidates settings limit).length)
      ((st.migrate.limitedCandidates settings limit).map (·.id)) =
        .finished last ∧ run = last.saveSummary := by
  unfold enrichCatalog at hend
  rw [if_neg h] at hend
  dsimp only at hend
  split at hend
  · cases hend
  · generalize EnrichmentRun.loop py settings limit _ calls.turn _ _ = e at hend ⊢
    cases e with
    | raised e last => cases hend
    | finished last =>
      cases hend
      exact ⟨last, rfl, rfl⟩

/-- What is asked for again after a run was a candidate of it, and the run has given its record a
status. -/
theorem candidate_again {P : EnrichmentStatus → Prop} (hsucceeded : P .succeeded)
    (hanswers : Answers P settings calls.turn)
    (hcancelled : ∀ id, (calls.turn id).cancelledBefore = false) {run : EnrichmentRun}
    (hend : st.enrichCatalog py settings none calls = .finished run) {i : MediaIdentifier}
    (hi : i ∈ run.state.migrate.candidates settings) :
    i ∈ st.migrate.candidates settings ∧ ∃ status, run.state.statusOf i.mediaItemId i.provider =
      some status ∧ P status := by
  have hclient := client_of_candidate hi
  have hadds : OnlyAdds st.db run.state.db := by
    have hadds := OnlyAdds.enrichCatalog py settings none calls st
    rw [hend] at hadds
    exact hadds
  obtain ⟨last, hloop, rfl⟩ := enrichCatalog_of_client hclient hend
  obtain ⟨hmem, heligible, hopen⟩ := mem_candidates.1 hi
  have hsame : last.state.db.mediaIdentifiers = st.db.mediaIdentifiers :=
    hadds.frame .mediaIdentifiers (by decide)
  have hcandidate : i ∈ st.migrate.candidates settings := by
    refine mem_candidates.2
      ⟨hsame ▸ hmem, eligible_of_adds hadds heligible, fun status hstatus => ?_⟩
    -- a settled record would still be settled
    by_contra hsettled
    obtain ⟨r, hr, rfl⟩ := statusOf_eq_some.1 hstatus
    have hsettled : (st.migrate.columns r.id).Settled := by
      unfold EnrichmentColumns.Settled
      tauto
    obtain ⟨hkeeps, -⟩ :=
      keeps_loop py settings none calls st (mem_of_enrichmentRecord hr).1 hsettled
      (st.migrate.limitedCandidates settings none).length
    rw [hloop] at hkeeps
    have hcolumns : (last.state.columns r.id).Settled := hkeeps.columns ▸ hsettled
    have hmigrate : last.state.migrate.columns r.id = last.state.columns r.id := hcolumns.migrate
    have hlater := hopen (last.state.columns r.id).status
      (statusOf_eq_some.2
        ⟨r, enrichmentRecord_of_append hkeeps.rows hr, congrArg EnrichmentColumns.status hmigrate⟩)
    exact hcolumns.elim hlater.1 hlater.2
  refine ⟨hcandidate, ?_⟩
  have hall : ∀ j ∈ st.migrate.candidates settings, Askable settings (EnrichmentRun.start calls st
      (st.migrate.limitedCandidates settings none).length).state.db j :=
        fun j hj => askable_candidate hj
  exact (answered_loop hsucceeded hanswers hcancelled hall hloop).2 i hcandidate

/-- A run that nobody cancels and no exception ends leaves to the next one only what a client has
failed on: each candidate of the next run was one of this run, and its record is failed. Where every
answer was definite the next run asks nothing. -/
theorem enrichment_converges (hcancelled : ∀ id, (calls.turn id).cancelledBefore = false)
    {run : EnrichmentRun} (hend : st.enrichCatalog py settings none calls = .finished run) :
    (∀ i ∈ run.state.migrate.candidates settings,
      i ∈ st.migrate.candidates settings ∧
        run.state.statusOf i.mediaItemId i.provider = some .failed) ∧
    (Answers (fun status => status ≠ .failed) settings calls.turn → ∀ limit calls',
      (run.state.enrichCatalog py settings limit calls').run.counters = {} ∧
      (run.state.enrichCatalog py settings limit calls').state.db = run.state.db) := by
  have hpending : Answers (fun status => status ≠ .pending) settings calls.turn := by
    intro id provider kind externalId hne
    generalize (calls.turn id).metadata settings provider kind externalId = answer at hne ⊢
    cases answer with
    | raised => exact absurd rfl hne
    | _ => exact nofun
  have hfailed : ∀ i ∈ run.state.migrate.candidates settings,
      i ∈ st.migrate.candidates settings ∧
        run.state.statusOf i.mediaItemId i.provider = some .failed := by
    intro i hi
    obtain ⟨hcandidate, status, hstatus, hne⟩ := candidate_again nofun hpending hcancelled hend hi
    refine ⟨hcandidate, ?_⟩
    obtain ⟨-, -, hopen⟩ := mem_candidates.1 hi
    by_contra hnot
    have hnot' : status ≠ .failed := fun heq => hnot (heq ▸ hstatus)
    obtain ⟨r, hr, rfl⟩ := statusOf_eq_some.1 hstatus
    have hlater :=
      hopen _ (statusOf_eq_some.2 ⟨r, hr, congrArg EnrichmentColumns.status (migrate_status hnot')⟩)
    generalize (run.state.columns r.id).status = status at hne hnot' hlater
    cases status with
    | pending => exact hne rfl
    | succeeded => exact hlater.1 rfl
    | failed => exact hnot' rfl
    | notFound => exact hlater.2 rfl
  refine ⟨hfailed, fun hdefinite limit calls' => ?_⟩
  have hnone : run.state.migrate.candidates settings = [] := by
    refine List.eq_nil_iff_forall_not_mem.2 fun i hi => ?_
    obtain ⟨-, status, hstatus, hne⟩ := candidate_again nofun hdefinite hcancelled hend hi
    exact hne (Option.some.inj (hstatus.symm.trans (hfailed i hi).2))
  have hlimited : run.state.migrate.limitedCandidates settings limit = [] := by
    unfold limitedCandidates
    rw [hnone]
    split
    · exact List.take_nil
    · rfl
  unfold enrichCatalog
  dsimp only
  rw [hlimited]
  split
  · split <;> exact ⟨rfl, rfl⟩
  · split
    · exact ⟨rfl, EnrichmentRun.db_start ..⟩
    · exact ⟨rfl, rfl⟩

/-- A movie without a poster, whose record has failed once. -/
def failedMovie : EnrichmentState where
  db := { Database.empty with
    mediaItems := .insert .empty { id := 1, kind := .movie }
    mediaIdentifiers := .insert .empty ⟨1, 1, "tmdb", "603", 0⟩
    enrichmentRecords := .insert .empty ⟨1, 1, "tmdb"⟩ }
  columns _ :=
    { status := .failed, attempts := 1, checkedAt := some 0, message := some "TMDB request failed" }

def knownMovie : EnrichmentTurn where
  now := 1
  lookup _ _ _ := .found { summary := some "A summary", tagline := some "A tagline" }
  lookupExternal _ _ _ _ := .notFound "TMDB external identifier was not found"
  lookupRecording _ := .notFound "MusicBrainz recording was not found"
  lookupReleaseArtwork _ := .invalid "Invalid exact MusicBrainz release MBID"

theorem answers_knownMovie : Answers (fun status => status ≠ .failed)
    { tmdb := true, musicbrainz := false } fun _ => knownMovie := by
  intro id provider kind externalId _
  cases provider <;> exact nofun

theorem enrichment_converges_known :
    ∃ run, failedMovie.enrichCatalog .plain { tmdb := true, musicbrainz := false }
    none { turn := fun _ => knownMovie } = .finished run ∧
      run.counters = ⟨1, 1, 0⟩ ∧ ∀ calls',
        (run.state.enrichCatalog .plain { tmdb := true, musicbrainz := false } none
          calls').run.counters = {} := by
  refine ⟨_, rfl, by decide +kernel, fun calls' => ?_⟩
  exact ((@enrichment_converges .plain { tmdb := true, musicbrainz := false }
    { turn := fun _ => knownMovie } failedMovie (fun _ => rfl)
    _ rfl).2 answers_knownMovie none calls').1

end EnrichmentState

end Euvieouvi
