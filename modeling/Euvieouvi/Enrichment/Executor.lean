import Euvieouvi.Enrichment.Records

/-!
# The enrichment as the executor sees it

The executor of a synchronization knows of `enrich_catalog` how each identifier came out and what
the token said (`EnrichmentCalls`). Every run of the service is such a run, with the same counters
or the same exception (`enrich_refines`).
-/

namespace Euvieouvi

/-- What the executor gets to know of a turn. -/
def EnrichmentStep.result (counters : EnrichmentCounters) : EnrichmentStep → EnrichmentResult
  | skipped => .skipped
  | raised => .raised .other
  | asked run =>
    if counters.failed < run.counters.failed then .failed else .succeeded
      (decide (counters.updated < run.counters.updated))

/-- The run before the next turn. -/
def EnrichmentStep.next (run : EnrichmentRun) : EnrichmentStep → EnrichmentRun
  | asked run' => run'
  | _ => run

namespace EnrichmentRun
variable (py : PyLib) (settings : EnrichmentSettings) (total : Nat) (turns : Nat → EnrichmentTurn)

/-- The turns of a loop, as the executor gets to know them. -/
def seen : EnrichmentRun → List Nat → List EnrichmentCall
  | _, [] => []
  | run, id :: ids =>
    let step := run.turn py settings total (turns id) id
    { cancelledBefore := (turns id).cancelledBefore
      result := step.result run.counters
      cancelledAfter := (turns id).cancelledAfter } ::
    seen (step.next run) ids

theorem length_seen (run : EnrichmentRun) (ids : List Nat) :
    (run.seen py settings total turns ids).length = ids.length := by
  induction ids generalizing run with
  | nil => rfl
  | cons id ids ih => exact congrArg (· + 1) (ih _)

end EnrichmentRun

/-- The counters, or the exception. -/
def EnrichmentEnd.outcome : EnrichmentEnd → Except Raised EnrichmentCounters
  | finished run => .ok run.counters
  | raised e _ => .error e

theorem EnrichmentEnd.outcome_close (e : EnrichmentEnd) : e.close.outcome = e.outcome := by
  cases e <;> rfl

namespace EnrichmentRun
variable {py : PyLib} {settings : EnrichmentSettings} {total : Nat} {turns : Nat → EnrichmentTurn}

/-- How a turn that asks counts. -/
theorem result_asked {call : EnrichmentTurn} {id : Nat} {run run' : EnrichmentRun}
    (h : run.turn py settings total call id = .asked run') :
    (EnrichmentStep.asked run').result run.counters = .failed ∧
    run'.counters = run.counters.lookedInVain ∨
      ∃ changed, (EnrichmentStep.asked run').result run.counters = .succeeded changed ∧
      run'.counters = run.counters.looked changed := by
  obtain ⟨identifier, item, provider, -, -, -, hask⟩ := turn_asked h
  unfold ask at hask
  dsimp only at hask
  unfold EnrichmentStep.result
  split at hask <;> cases hask
  next metadata _ =>
    refine .inr ⟨_, ?_, rfl⟩
    dsimp only [commit, EnrichmentCounters.looked]
    rw [if_neg (lt_irrefl _)]
    cases (metadata.apply py call.now item
      (run.state.openRecord item.id identifier.provider).2.db).2 <;> simp
  · exact .inl ⟨if_pos (Nat.lt_succ_self _), rfl⟩
  · exact .inl ⟨if_pos (Nat.lt_succ_self _), rfl⟩
  · exact .inl ⟨if_pos (Nat.lt_succ_self _), rfl⟩

theorem enrichItems_seen (now : Time) (row : SyncRun) (run : EnrichmentRun) (ids : List Nat) :
    (enrichItems total now (run.seen py settings total turns ids) run.counters row).1 =
      (loop py settings none total turns run ids).outcome := by
  induction ids generalizing run row with
  | nil => rfl
  | cons id ids ih =>
    unfold seen loop enrichItems
    dsimp only
    by_cases hbefore : (turns id).cancelledBefore = true
    · rw [if_pos hbefore, if_pos (.inl hbefore)]
      rfl
    · have hgo : ¬ ((turns id).cancelledBefore = true ∨
          Option.any (fun n => decide (n ≤ run.counters.processed)) none = true) := by
        rintro (h | h)
        · exact hbefore h
        · cases h
      rw [if_neg hbefore, if_neg hgo]
      cases hturn : run.turn py settings total (turns id) id with
      | skipped => exact ih row run
      | raised => rfl
      | asked run' =>
        dsimp only [EnrichmentStep.next]
        obtain ⟨hresult, hcounters⟩ | ⟨changed, hresult, hcounters⟩ := result_asked hturn
        · rw [hresult]
          dsimp only
          rw [← hcounters]
          split
          · rfl
          · exact ih _ run'
        · rw [hresult]
          dsimp only
          rw [← hcounters]
          split
          · rfl
          · exact ih _ run'

end EnrichmentRun

namespace EnrichmentState

/-- What a run of `enrich_catalog` tells the executor is what the executor makes of it: for every
database, every answer and every cancellation there are turns as it sees them, one for each
candidate, that give the same counters or exception. -/
theorem enrich_refines (py : PyLib) (settings : EnrichmentSettings) (turns : EnrichmentTurns)
    (st : EnrichmentState) :
    ∃ calls : EnrichmentCalls, calls.setup = .ok () ∧ calls.cancelledFirst = turns.cancelledFirst ∧
      calls.items.length = (st.migrate.candidates settings).length ∧
      ∀ now row, (calls.enrich now row).1 = (st.enrichCatalog py settings none turns).outcome := by
  refine ⟨{ setup := .ok (), eligible := settings.tmdb || settings.musicbrainz,
            cancelledFirst := turns.cancelledFirst
            items := (EnrichmentRun.start turns st (st.migrate.candidates settings).length).seen py
              settings
              (st.migrate.candidates settings).length turns.turn
                ((st.migrate.candidates settings).map (·.id)) }, rfl, rfl, ?_, ?_⟩
  · rw [EnrichmentRun.length_seen, List.length_map]
  · intro now row
    unfold EnrichmentCalls.enrich enrichCatalog
    dsimp only
    rw [EnrichmentRun.length_seen, List.length_map]
    cases hclient : settings.tmdb || settings.musicbrainz with
    | false =>
      rw [Bool.or_eq_false_iff] at hclient
      rw [if_pos hclient]
      cases turns.cancelledFirst <;> rfl
    | true =>
      have hclient' : ¬ (settings.tmdb = false ∧ settings.musicbrainz = false) := by
        rw [← Bool.or_eq_false_iff, hclient]
        exact nofun
      rw [if_neg hclient']
      cases turns.cancelledFirst with
      | true => rfl
      | false =>
        exact (EnrichmentRun.enrichItems_seen now _ (.start turns st _) _).trans
          (EnrichmentEnd.outcome_close _).symm

end EnrichmentState

end Euvieouvi
