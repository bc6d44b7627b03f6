import Euvieouvi.Enrichment.Records

/-!
# Posters for items that have none

The candidates of `recover_missing_artwork` are items without a poster, each of them once, so each
item that is processed gets its poster, fails or is not found (`artwork_accounted`). A record that
has come to its end is left alone by the runs of both functions (`settled_records_final`).
-/

namespace Euvieouvi

namespace Database
variable {db db' : Database}

theorem hasPoster_congr (h : db'.mediaImages = db.mediaImages) (item : Nat) :
    db'.hasPoster item = db.hasPoster item := by
  unfold hasPoster byItemAndType
  rw [h]

theorem rows_addPoster (now : Time) (item : Nat) (provider url : String) (db : Database) :
    ∃ image, (db.addPoster now item provider url).mediaImages.rows =
      db.mediaImages.rows ++ [image] ∧ image.mediaItemId = item :=
  ⟨_, Table.rows_insert_of_get?_none db.mediaImages.get?_nextId, rfl⟩

/-- A poster of another item. -/
theorem hasPoster_of_append {item : Nat} {image : MediaImage}
    (h : db'.mediaImages.rows = db.mediaImages.rows ++ [image])
    (hne : image.mediaItemId ≠ item) (hnone : db.hasPoster item = false) :
    db'.hasPoster item = false := by
  rw [← Bool.not_eq_true, hasPoster_iff] at hnone ⊢
  rintro ⟨i, hi, hitem, htype⟩
  rw [h, List.mem_append, List.mem_singleton] at hi
  obtain hi | rfl := hi
  · exact hnone ⟨i, hi, hitem, htype⟩
  · exact hne hitem

end Database

namespace EnrichmentState
variable {settings : EnrichmentSettings} {st st' : EnrichmentState}

theorem mem_artworkRows {i : MediaIdentifier} (h : i ∈ st.artworkRows settings) :
    st.db.hasPoster i.mediaItemId = false := by
  unfold artworkRows at h
  obtain ⟨-, hselected⟩ := List.mem_filter.1 ((List.perm_insertionSort _ _).mem_iff.1 h)
  obtain ⟨m, hm, hselected⟩ := (Option.any_eq_true _ _).1 hselected
  obtain ⟨-, hposter⟩ := Bool.and_eq_true .. ▸ hselected
  rw [← Table.key_of_get? hm]
  exact Bool.not_eq_true' _ ▸ hposter

theorem collectArtwork_invariant {P : Nat → Prop} {s : List (Nat × String) × Dict Nat (List Nat)}
    {i : MediaIdentifier}
    (h : ∀ c ∈ s.2.rows, P c.1) (hi : P i.mediaItemId) :
    ∀ c ∈ (st.collectArtwork s i).2.rows, P c.1 := by
  unfold collectArtwork
  split
  · exact h
  · dsimp only
    unfold Dict.upsert
    split
    · exact Table.forall_update h fun _ hc => hc
    · exact Table.forall_insert h hi

theorem hasPoster_candidate : ∀ c ∈ st.artworkCandidates settings, st.db.hasPoster c.1 = false := by
  have hfold : ∀ (rows : List MediaIdentifier) (s : List (Nat × String) × Dict Nat (List Nat)),
      (∀ i ∈ rows, st.db.hasPoster i.mediaItemId = false) →
        (∀ c ∈ s.2.rows, st.db.hasPoster c.1 = false) →
        ∀ c ∈ (rows.foldl st.collectArtwork s).2.rows, st.db.hasPoster c.1 = false := by
    intro rows
    induction rows with
    | nil => exact fun s _ h => h
    | cons i rows ih =>
      intro s hrows h
      exact ih _ (fun j hj => hrows j (List.mem_cons_of_mem _ hj))
        (collectArtwork_invariant (P := fun item => st.db.hasPoster item = false) h
          (hrows i List.mem_cons_self))
  exact hfold _ _ (fun i hi => mem_artworkRows hi) nofun

theorem nodup_artworkCandidates : ((st.artworkCandidates settings).map Prod.fst).Nodup :=
  ((st.artworkRows settings).foldl st.collectArtwork ([], .empty)).2.nodup

/-- What one item gets: nothing but a poster, and that only as the result `updated`. -/
structure Recovered (item : Nat) (st st' : EnrichmentState) (result : ArtworkResult) : Prop where
  present : st.db.hasPoster item = false → result ≠ .present
  same : result ≠ .updated → st'.db.mediaImages = st.db.mediaImages
  added : result = .updated → ∃ image, st'.db.mediaImages.rows = st.db.mediaImages.rows ++ [image] ∧
    image.mediaItemId = item

theorem mediaImages_openRecord (st : EnrichmentState) (item : Nat) (provider : String) :
    (st.openRecord item provider).2.db.mediaImages = st.db.mediaImages := by
  unfold openRecord
  split <;> rfl

theorem Recovered.of_same {item : Nat} {st₀ : EnrichmentState} {result : ArtworkResult}
    (hrecovered : Recovered item st₀ st' result) (h : st₀.db.mediaImages = st.db.mediaImages) :
    Recovered item st st' result where
  present hnone := hrecovered.present ((Database.hasPoster_congr h item).trans hnone)
  same hne := (hrecovered.same hne).trans h
  added heq := h ▸ hrecovered.added heq

theorem recovered_recoverItem {call : EnrichmentTurn} {item : MediaItem} {ids : List Nat}
    {result : ArtworkResult}
    (h : st.recoverItem settings call item ids = some (st', result)) :
    Recovered item.id st st' result := by
  induction ids generalizing st with
  | nil =>
    cases h
    exact ⟨fun _ heq => (by cases heq), fun _ => rfl, fun heq => by cases heq⟩
  | cons id ids ih =>
    unfold recoverItem at h
    split at h
    · exact ih h
    next identifier _ =>
      have hopen := mediaImages_openRecord st item.id (artworkRecordProvider identifier.provider)
      dsimp only at h
      split at h
      · split at h
        · split at h
          next hposter =>
            cases h
            refine ⟨fun hnone => ?_, fun _ => hopen, fun heq => by cases heq⟩
            rw [Database.hasPoster_congr hopen, hnone] at hposter
            cases hposter
          next =>
            cases h
            refine ⟨fun _ heq => (by cases heq), fun hne => absurd rfl hne, fun _ => ?_⟩
            obtain ⟨image, hrows, himage⟩ := Database.rows_addPoster call.now item.id _ _
              (st.openRecord item.id (artworkRecordProvider identifier.provider)).2.db
            rw [hopen] at hrows
            exact ⟨image, hrows, himage⟩
        · have hrest := ih h
          exact hrest.of_same hopen
      · have hrest := ih h
        exact hrest.of_same hopen
      · have hrest := ih h
        exact hrest.of_same hopen
      · cases h
        exact ⟨fun _ heq => (by cases heq), fun _ => hopen, fun heq => by cases heq⟩
      · cases h

end EnrichmentState

/-- What the counters of a run say, and that the items to come have no poster. -/
structure ArtworkRun.Accounted (st : EnrichmentState) (candidates : List (Nat × List Nat))
    (run : ArtworkRun) : Prop where
  counted : run.counters.processed =
    run.counters.updated + run.counters.failed + run.counters.notFound
  images : run.state.db.mediaImages.rows.length =
    st.db.mediaImages.rows.length + run.counters.updated
  missing : ∀ c ∈ candidates, run.state.db.hasPoster c.1 = false

namespace ArtworkRun.Accounted
variable {st : EnrichmentState} {settings : EnrichmentSettings} {total : Nat}
  {turns : Nat → EnrichmentTurn} {run : ArtworkRun}
  {candidates : List (Nat × List Nat)}

theorem item {c : Nat × List Nat} (h : run.Accounted st (c :: candidates))
    (hc : c.1 ∉ candidates.map Prod.fst) {m : MediaItem}
    (hm : m.id = c.1) {state : EnrichmentState} {result : ArtworkResult}
    (hitem : run.state.recoverItem settings (turns c.1) m c.2 = some (state, result))
    (reports : List (ArtworkCounters × Nat)) :
    ArtworkRun.Accounted st candidates { state := state, counters := run.counters.count result,
                                         reports := reports } := by
  have hrecovered := EnrichmentState.recovered_recoverItem hitem
  have hpresent := hrecovered.present (hm ▸ h.missing c List.mem_cons_self)
  have hmissing : ∀ d ∈ candidates, run.state.db.hasPoster d.1 = false :=
    fun d hd => h.missing d (List.mem_cons_of_mem _ hd)
  have hcounted := h.counted
  have himages := h.images
  by_cases hupdated : result = .updated
  · obtain ⟨image, hrows, himage⟩ := hrecovered.added hupdated
    subst hupdated
    refine ⟨?_, ?_, fun d hd => Database.hasPoster_of_append hrows ?_ (hmissing d hd)⟩
    · show run.counters.processed + 1 =
        run.counters.updated + 1 + run.counters.failed + run.counters.notFound
      omega
    · show state.db.mediaImages.rows.length =
        st.db.mediaImages.rows.length + (run.counters.updated + 1)
      rw [hrows, List.length_append, List.length_singleton, himages, Nat.add_assoc]
    · rw [himage, hm]
      exact fun heq => hc (List.mem_map.2 ⟨d, hd, heq.symm⟩)
  · have hsame := hrecovered.same hupdated
    refine ⟨?_, ?_, fun d hd => (Database.hasPoster_congr hsame d.1).trans (hmissing d hd)⟩
    · cases result with
      | updated => exact absurd rfl hupdated
      | present => exact absurd rfl hpresent
      | failed =>
        show run.counters.processed + 1 =
          run.counters.updated + (run.counters.failed + 1) + run.counters.notFound
        omega
      | notFound =>
        show run.counters.processed + 1 =
          run.counters.updated + run.counters.failed + (run.counters.notFound + 1)
        omega
    · have hcount : (run.counters.count result).updated = run.counters.updated := by
        cases result with
        | updated => exact absurd rfl hupdated
        | _ => rfl
      show state.db.mediaImages.rows.length =
        st.db.mediaImages.rows.length + (run.counters.count result).updated
      rw [hsame, hcount, himages]

theorem loop (settings : EnrichmentSettings) (total : Nat) (turns : Nat → EnrichmentTurn)
    (h : run.Accounted st candidates) (hnodup : (candidates.map Prod.fst).Nodup) :
    (run.loop settings total turns candidates).1.Accounted st [] ∧
      (run.loop settings total turns candidates).1.counters.processed ≤ run.counters.processed +
        candidates.length := by
  induction candidates generalizing run with
  | nil => exact ⟨h, le_rfl⟩
  | cons c candidates ih =>
    obtain ⟨hc, hnodup⟩ := List.nodup_cons.1 hnodup
    have hstop : run.Accounted st [] := ⟨h.counted, h.images, nofun⟩
    have hskip : run.Accounted st candidates :=
      ⟨h.counted, h.images, fun d hd => h.missing d (List.mem_cons_of_mem _ hd)⟩
    unfold ArtworkRun.loop
    rw [List.length_cons]
    split
    · exact ⟨hstop, Nat.le_add_right _ _⟩
    · split
      · obtain ⟨hend, hle⟩ := ih hskip hnodup
        exact ⟨hend, hle.trans (by omega)⟩
      next m hm =>
        split
        · exact ⟨hstop, Nat.le_add_right _ _⟩
        next state result hitem =>
          have hnext := h.item hc (Table.key_of_get? hm) hitem
            (run.reports ++ [(run.counters.count result).report total])
          obtain ⟨hend, hle⟩ := ih hnext hnodup
          have hcount : (run.counters.count result).processed = run.counters.processed + 1 := by
            cases result <;> rfl
          dsimp only at hle ⊢
          split
          · exact ⟨⟨hnext.counted, hnext.images, nofun⟩, hcount.le.trans (by omega)⟩
          · exact ⟨hend, by omega⟩

end ArtworkRun.Accounted

namespace EnrichmentState
variable {settings : EnrichmentSettings} {st st' : EnrichmentState}

/-- However a run ends, every item that it has processed has got a poster, has failed or was not
found, and as many images are stored as it says it has updated items. -/
theorem artwork_accounted (settings : EnrichmentSettings) (calls : EnrichmentTurns)
    (st : EnrichmentState) :
    (st.recoverMissingArtwork settings calls).1.counters.processed =
      (st.recoverMissingArtwork settings calls).1.counters.updated +
        (st.recoverMissingArtwork settings calls).1.counters.failed +
        (st.recoverMissingArtwork settings calls).1.counters.notFound ∧
    (st.recoverMissingArtwork settings calls).1.state.db.mediaImages.rows.length =
      st.db.mediaImages.rows.length + (st.recoverMissingArtwork settings calls).1.counters.updated ∧
    (st.recoverMissingArtwork settings calls).1.counters.processed ≤
      (st.artworkCandidates settings).length := by
  unfold recoverMissingArtwork
  dsimp only
  split
  · exact ⟨rfl, rfl, Nat.zero_le _⟩
  split
  · exact ⟨rfl, rfl, Nat.zero_le _⟩
  · have hstart : ArtworkRun.Accounted st (st.artworkCandidates settings)
        { state := st,
          reports := [({} : ArtworkCounters).report (st.artworkCandidates settings).length] } :=
      ⟨rfl, rfl, hasPoster_candidate⟩
    obtain ⟨hend, hle⟩ :=
      hstart.loop settings (st.artworkCandidates settings).length calls.turn nodup_artworkCandidates
    obtain ⟨hdb, -, hcounters⟩ := @ArtworkRun.close_state
      (ArtworkRun.loop settings (st.artworkCandidates settings).length calls.turn
        { state := st
          reports := [({} : ArtworkCounters).report (st.artworkCandidates settings).length] }
        (st.artworkCandidates settings))
    rw [hdb, hcounters]
    exact ⟨hend.counted, hend.images, hle.trans (Nat.zero_add _).le⟩

/-! ### Records that stay -/

/-- The identifiers of a candidate are its own, and no provider that does not know it is among
theirs. -/
def FreshCandidate (st : EnrichmentState) (c : Nat × List Nat) : Prop :=
  ∀ id ∈ c.2, ∃ i, st.db.mediaIdentifiers.get? id = some i ∧ i.mediaItemId = c.1 ∧
    st.statusOf i.mediaItemId (artworkRecordProvider i.provider) ≠ some .notFound

theorem freshCandidate_collect {s : List (Nat × String) × Dict Nat (List Nat)} {i : MediaIdentifier}
    (hi : st.db.mediaIdentifiers.get? i.id = some i) (h : ∀ c ∈ s.2.rows, st.FreshCandidate c) :
    ∀ c ∈ (st.collectArtwork s i).2.rows, st.FreshCandidate c := by
  unfold collectArtwork
  split
  · exact h
  next hfresh =>
    simp only [Bool.or_eq_true, beq_iff_eq, not_or] at hfresh
    have hlast : ∀ ids, st.FreshCandidate (i.mediaItemId, ids) →
        st.FreshCandidate (i.mediaItemId, ids ++ [i.id]) := by
      intro ids hids id hid
      obtain hid | hid := List.mem_append.1 hid
      · exact hids id hid
      · rw [List.mem_singleton.1 hid]
        exact ⟨i, hi, rfl, hfresh.2⟩
    dsimp only
    unfold Dict.upsert
    split
    next c hc =>
      intro d hd
      obtain ⟨e, he, rfl⟩ := Table.mem_update.1 hd
      split
      next heq =>
        have hkey : e.1 = i.mediaItemId := of_decide_eq_true heq
        have hold : st.FreshCandidate (i.mediaItemId, e.2) := hkey ▸ h e he
        show st.FreshCandidate (e.1, e.2 ++ [i.id])
        rw [hkey]
        exact hlast e.2 hold
      next => exact h e he
    · exact Table.forall_insert h (hlast [] fun _ hid => by cases hid)

theorem freshCandidate_of_mem : ∀ c ∈ st.artworkCandidates settings, st.FreshCandidate c := by
  have hfold : ∀ (rows : List MediaIdentifier) (s : List (Nat × String) × Dict Nat (List Nat)),
      (∀ i ∈ rows, st.db.mediaIdentifiers.get? i.id = some i) →
        (∀ c ∈ s.2.rows, st.FreshCandidate c) →
        ∀ c ∈ (rows.foldl st.collectArtwork s).2.rows, st.FreshCandidate c := by
    intro rows
    induction rows with
    | nil => exact fun s _ h => h
    | cons i rows ih =>
      intro s hrows h
      exact ih _ (fun j hj => hrows j (List.mem_cons_of_mem _ hj))
        (freshCandidate_collect (hrows i List.mem_cons_self) h)
  refine hfold _ _ (fun i hi => ?_) nofun
  exact Table.get?_of_mem (List.mem_filter.1 ((List.perm_insertionSort _ _).mem_iff.1 hi)).1

theorem keeps_recoverItem {r : EnrichmentRecord} (hr : r ∈ st.db.enrichmentRecords.rows)
    {call : EnrichmentTurn} {item : MediaItem}
    {ids : List Nat} {st₀ : EnrichmentState} {result : ArtworkResult} (h : Keeps r st st₀)
    (hids : ∀ id ∈ ids, ∀ i, st₀.db.mediaIdentifiers.get? id = some i →
      st.db.enrichmentRecord item.id (artworkRecordProvider i.provider) ≠ some r)
    (hitem : st₀.recoverItem settings call item ids = some (st', result)) : Keeps r st st' := by
  induction ids generalizing st₀ with
  | nil =>
    cases hitem
    exact h
  | cons id ids ih =>
    have hrest := fun id' hid => hids id' (List.mem_cons_of_mem id hid)
    unfold recoverItem at hitem
    split at hitem
    · exact ih h hrest hitem
    next identifier hget =>
      have hne := hids id List.mem_cons_self identifier hget
      have hasked := fun now status message =>
        h.asked hr hne
          (asked_settle st₀ item.id (artworkRecordProvider identifier.provider) now status message)
      have hsame : (st₀.openRecord item.id (artworkRecordProvider
          identifier.provider)).2.db.mediaIdentifiers = st₀.db.mediaIdentifiers :=
        (OnlyAdds.openRecord st₀ item.id _).frame .mediaIdentifiers (by decide)
      rw [← hsame] at hrest
      dsimp only at hitem
      split at hitem
      · split at hitem
        · split at hitem
          · cases hitem
            exact hasked _ _ _
          · cases hitem
            exact h.asked hr hne ((asked_settle ..).write rfl)
        · exact ih (hasked _ _ _) hrest hitem
      · exact ih (hasked _ _ _) hrest hitem
      · exact ih (hasked _ _ _) hrest hitem
      · cases hitem
        exact hasked _ _ _
      · cases hitem

theorem keeps_artworkLoop {r : EnrichmentRecord} (hr : r ∈ st.db.enrichmentRecords.rows)
    {total : Nat} {turns : Nat → EnrichmentTurn}
    {run : ArtworkRun} {candidates : List (Nat × List Nat)} (hadds : OnlyAdds st.db run.state.db)
    (h : Keeps r st run.state)
    (hcandidates : ∀ c ∈ candidates, ∀ id ∈ c.2, ∀ i, st.db.mediaIdentifiers.get? id = some i →
      st.db.enrichmentRecord c.1 (artworkRecordProvider i.provider) ≠ some r) :
    Keeps r st (run.loop settings total turns candidates).1.state := by
  induction candidates generalizing run with
  | nil => exact h
  | cons c candidates ih =>
    have hrest := fun d hd => hcandidates d (List.mem_cons_of_mem c hd)
    have hsame : run.state.db.mediaIdentifiers = st.db.mediaIdentifiers :=
      hadds.frame .mediaIdentifiers (by decide)
    unfold ArtworkRun.loop
    split
    · exact h
    · split
      · exact ih hadds h hrest
      next m hm =>
        split
        · exact h
        next hitem =>
          have hids := hcandidates c List.mem_cons_self
          rw [← hsame, ← Table.key_of_get? hm] at hids
          have hkeeps := keeps_recoverItem hr h hids hitem
          dsimp only
          split
          · exact hkeeps
          · exact ih (hadds.trans (OnlyAdds.recoverItem hitem)) hkeeps hrest

theorem Keeps.close {r : EnrichmentRecord} {ended : ArtworkRun × Bool}
    (h : Keeps r st ended.1.state) :
    Keeps r st (ArtworkRun.close ended).1.state := by
  obtain ⟨hdb, hcolumns, -⟩ := @ArtworkRun.close_state ended
  exact ⟨by rw [hdb]; exact h.rows, by rw [hcolumns]; exact h.columns⟩

/-- No run asks for the record again: the provider does not know the item, or it has told the
facts. -/
def Final (r : EnrichmentRecord) (c : EnrichmentColumns) : Prop :=
  c.status = .notFound ∨ c.status = .succeeded ∧ ∀ p, r.provider ≠ artworkRecordProvider p

theorem keeps_operate {r : EnrichmentRecord} (hr : r ∈ st.db.enrichmentRecords.rows)
    (hfinal : Final r (st.columns r.id))
    (op : EnrichmentOperation) : Keeps r st (st.operate op) := by
  cases op with
  | enrich py settings limit calls => exact keeps_enrichCatalog hr (hfinal.symm.imp_left And.left)
  | recover settings calls =>
    unfold operate recoverMissingArtwork
    dsimp only
    split
    · exact .refl r st
    split
    · exact .refl r st
    · refine Keeps.close
        (keeps_artworkLoop hr (.refl st.db) (.refl r st) fun c hc id hid i hi hrecord => ?_)
      obtain ⟨i', hi', hitem, hstatus⟩ := freshCandidate_of_mem c hc id hid
      cases hi.symm.trans hi'
      obtain hnotFound | ⟨-, hother⟩ := hfinal
      · exact hstatus (statusOf_eq_some.2 ⟨r, hitem ▸ hrecord, hnotFound⟩)
      · exact hother i.provider (mem_of_enrichmentRecord hrecord).2.2

/-- Once a provider does not know an item, or has told its facts, no sequence of runs of the two
functions asks for that record again: its status, its attempts and everything else of it stay. -/
theorem settled_records_final (ops : List EnrichmentOperation) {r : EnrichmentRecord}
    (hr : r ∈ st.db.enrichmentRecords.rows) (hfinal : Final r (st.columns r.id)) :
    r ∈ (ops.foldl operate st).db.enrichmentRecords.rows ∧
    (ops.foldl operate st).columns r.id = st.columns r.id := by
  induction ops generalizing st with
  | nil => exact ⟨hr, rfl⟩
  | cons op ops ih =>
    have hkeeps := keeps_operate hr hfinal op
    have hrest := ih (hkeeps.rows.subset hr) (hkeeps.columns ▸ hfinal)
    rw [hkeeps.columns] at hrest
    exact hrest

/-- A movie that TMDB does not know. -/
def unknownMovie : EnrichmentState where
  db := { Database.empty with
    mediaItems := .insert .empty { id := 1, kind := .movie }
    mediaIdentifiers := .insert .empty ⟨1, 1, "tmdb", "603", 0⟩
    enrichmentRecords := .insert .empty ⟨1, 1, "artwork:tmdb"⟩ }
  columns _ := { status := .notFound, attempts := 1, checkedAt := some 0,
                 message := some "TMDB item was not found" }

/-- The provider would know it by now. -/
def laterRuns : List EnrichmentOperation :=
  [.recover { tmdb := true, musicbrainz := false } { turn := fun _ => knownMovie },
    .enrich .plain { tmdb := true, musicbrainz := false } none { turn := fun _ => knownMovie }]

theorem settled_records_final_unknown :
    (laterRuns.foldl operate unknownMovie).columns 1 =
      { status := .notFound, attempts := 1, checkedAt := some 0,
        message := some "TMDB item was not found" } :=
  (@settled_records_final unknownMovie laterRuns ⟨1, 1, "artwork:tmdb"⟩ (by decide) (.inl rfl)).2

end EnrichmentState

end Euvieouvi
