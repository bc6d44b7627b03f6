import Euvieouvi.Catalog.Durable

/-!
# Runs with manual matches

Calls of `apply_manual_match` among the calls that write to the catalog. The matches of a run are
those that were applied in it; what an item with a manual match says is what one of them said.
-/

namespace Euvieouvi

namespace Database
variable {db db' : Database} {py : PyLib} {now : Time} {item i : Nat} {found t : TmdbMatch}
  {known : List TmdbMatch}

theorem identifiersAt_replaceIdentifiers (now : Time) (item : Nat)
    (identifiers : List ExternalIdentifier) (db : Database) :
    ((db.replaceIdentifiers now item identifiers).identifiersAt item).map
      (fun r => (⟨r.provider, r.externalId⟩ : ExternalIdentifier)) = identifiers := by
  have hinsert : ∀ (added : List ExternalIdentifier) (d : Database),
      ((added.foldl (fun (db : Database) v => db.insertMediaIdentifier
        ⟨db.mediaIdentifiers.nextId, item, v.provider, v.externalId, now⟩) d).identifiersAt
          item).map
          (fun r => (⟨r.provider, r.externalId⟩ : ExternalIdentifier)) =
        (d.identifiersAt item).map (fun r => ⟨r.provider, r.externalId⟩) ++ added := by
    intro added
    induction added with
    | nil => exact fun d => (List.append_nil _).symm
    | cons v added ih =>
      intro d
      have hrows : (d.mediaIdentifiers.insert
          ⟨d.mediaIdentifiers.nextId, item, v.provider, v.externalId, now⟩).rows =
          d.mediaIdentifiers.rows ++
            [⟨d.mediaIdentifiers.nextId, item, v.provider, v.externalId, now⟩] :=
        Table.rows_insert_of_get?_none d.mediaIdentifiers.get?_nextId
      rw [List.foldl_cons, ih]
      unfold identifiersAt
      rw [mediaIdentifiers_insertMediaIdentifier, hrows, List.filter_append, List.map_append]
      simp
  unfold replaceIdentifiers
  rw [hinsert]
  have hdeleted : (db.deleteMediaIdentifiers (·.mediaItemId == item)).identifiersAt item = [] := by
    unfold identifiersAt
    rw [mediaIdentifiers_deleteMediaIdentifiers, List.filter_eq_nil_iff]
    intro r hr
    simpa using (Table.mem_delete.1 hr).2
  rw [hdeleted]
  rfl

theorem replaceIdentifiers_identified (now : Time) (item : Nat)
    (identifiers : List ExternalIdentifier) (db : Database) :
    Identified item db (db.replaceIdentifiers now item identifiers) := by
  refine Identified.trans ⟨deleteMediaIdentifiers_frame _, ?_⟩
    (insertIdentifiers_identified now item identifiers _)
  rw [mediaIdentifiers_deleteMediaIdentifiers]
  exact Table.filter_delete fun r _ hr => by simpa using hr

/-- The row of the item after a match. -/
theorem assignMatch_row (h : db.assignMatch py now item found = .ok db') {m : MediaItem}
    (hm : db.mediaItems.get? item = some m) :
    ∃ m', db'.mediaItems.get? item = some m' ∧ m'.kind = m.kind ∧ m'.parentId = m.parentId ∧
      m'.manualMatchTmdbId = some found.externalId ∧ m'.title = found.title ∧
      m'.originalTitle = found.originalTitle ∧
        m'.year = found.year := by
  have hspec := assignMatch_spec h
  have hitems : db'.mediaItems =
      (db.saveMediaItem now item ⟨fun m => m.assignMatch found, fun _ => rfl⟩).mediaItems :=
    (hspec .mediaItems (by decide)).trans
      ((replaceIdentifiers_identified now item found.identifiers _).frame .mediaItems (by decide))
  refine ⟨_, by rw [hitems, get?_saveMediaItem, hm]; rfl, ?_⟩
  have hid : (m.id == item) = true := beq_iff_eq.2 (Table.key_of_get? hm)
  dsimp only
  rw [hid, Bool.true_and]
  split
  · exact ⟨rfl, rfl, rfl, rfl, rfl, rfl⟩
  next hsame =>
    have hsame : m.assignMatch found = m := by simpa using hsame
    rw [← hsame]
    exact ⟨rfl, rfl, rfl, rfl, rfl, rfl⟩

theorem assignMatch_matched (h : db.assignMatch py now item found = .ok db') {m : MediaItem}
    (hm : db.mediaItems.get? item = some m) : Matched found db' item := by
  obtain ⟨m', hm', -, -, hx, htitle, ho, hy⟩ := assignMatch_row h hm
  refine ⟨⟨m', hm', hx, htitle, fun o h => ho.trans h, fun y h => hy.trans h⟩, fun v => ?_⟩
  rw [(assignMatch_spec h).identifiersAt (by decide), identifiersAt_replaceIdentifiers]

/-- The other items keep their rows and their identifiers. -/
theorem assignMatch_others (h : db.assignMatch py now item found = .ok db') (hi : i ≠ item) :
    db'.mediaItems.get? i = db.mediaItems.get? i ∧ db'.identifiersAt i = db.identifiersAt i := by
  have hspec := assignMatch_spec h
  have hids := replaceIdentifiers_identified now item found.identifiers
    (db.saveMediaItem now item ⟨fun m => m.assignMatch found, fun _ => rfl⟩)
  have hframe : Frame [.mediaItems] db
      (db.saveMediaItem now item ⟨fun m => m.assignMatch found, fun _ => rfl⟩) :=
    updateMediaItems_frame _ _
  have hitems : db'.mediaItems =
      (db.saveMediaItem now item ⟨fun m => m.assignMatch found, fun _ => rfl⟩).mediaItems :=
    (hspec .mediaItems (by decide)).trans (hids.frame .mediaItems (by decide))
  constructor
  · rw [hitems, get?_saveMediaItem]
    cases hm : db.mediaItems.get? i with
    | none => rfl
    | some m =>
      have hid : (m.id == item) = false := by simpa [Table.key_of_get? hm] using hi
      rw [Option.map_some, hid]; rfl
  · rw [hspec.identifiersAt (by decide), hids.identifiersAt hi, hframe.identifiersAt (by decide)]

theorem MatchesKept.assignMatch (h : MatchesKept known db) (hfound : found ∈ known) {m : MediaItem}
    (hm : db.mediaItems.get? item = some m) (hkind : m.kind = .movie ∨ m.kind = .show)
    (hassign : db.assignMatch py now item found = .ok db') : MatchesKept known db' := by
  obtain ⟨m', hm', hk, hparent, hx, -⟩ := assignMatch_row hassign hm
  have hmanual : db'.identityRows.manualMatchOf item = some found.externalId := by
    rw [manualMatchOf_of_get? hm']
    unfold MediaItem.manualMatch
    rw [hx]
    exact Option.filter_some_pos (decide_eq_true found.identified)
  have hothers : ∀ i, i ≠ item →
      db'.identityRows.manualMatchOf i = db.identityRows.manualMatchOf i ∧
      db'.identityRows.kindOf i = db.identityRows.kindOf i := fun i hi =>
    have hrow : db'.identityRows.mediaItems.get? i = db.identityRows.mediaItems.get? i :=
      (assignMatch_others hassign hi).1
    ⟨congrArg (Option.bind · _) hrow, congrArg (Option.map _) hrow⟩
  refine ⟨fun i m₁ hm₁ => ?_, fun i x hi => ?_, fun i x hi => ?_⟩
  all_goals by_cases hitem : i = item
  · rw [hitem] at hm₁
    obtain rfl : m' = m₁ := Option.some_inj.1 (hm'.symm.trans hm₁)
    rw [hk, hparent]
    exact h.rooted item m hm
  · exact h.rooted i m₁ ((assignMatch_others hassign hitem).1 ▸ hm₁)
  · rw [hitem, kindOf_of_get? hm', hk, Option.some_inj, Option.some_inj]
    exact hkind
  · rw [(hothers i hitem).2]
    exact h.kinds i x ((hothers i hitem).1 ▸ hi)
  · rw [hitem, hmanual, Option.some_inj] at hi
    exact ⟨found, hfound, hi, hitem ▸ assignMatch_matched hassign hm⟩
  · obtain ⟨t, ht, hid, hmatched⟩ := h.matched i x ((hothers i hitem).1 ▸ hi)
    obtain ⟨hrow, hids⟩ := assignMatch_others hassign hitem
    obtain ⟨m₀, hm₀, hkeeps⟩ := hmatched.row
    exact ⟨t, ht, hid, ⟨m₀, hrow.trans hm₀, hkeeps⟩, fun v => hids ▸ hmatched.identifiers v⟩

/-- A match that is applied is kept, and its item or the survivor of it carries it. -/
theorem MatchesKept.applyManualMatch (h : MatchesKept known db) (hfound : found ∈ known)
    (htitles : ∀ t ∈ known, NoToken py t.title) {log : List MergeStep}
    (happly : db.applyManualMatch py now item found = .ok (db', log)) :
    MatchesKept known db' ∧ db'.identityRows.manualMatchOf (survivorOf log item) =
      some found.externalId := by
  unfold Database.applyManualMatch at happly
  split at happly
  · cases happly
  next m hm =>
    split at happly
    · cases happly
    next hkind =>
      have hkind : m.kind = .movie ∨ m.kind = .show := by
        by_contra hne
        exact hkind (not_or.1 hne)
      cases hassign : db.assignMatch py now item found with
      | error e => rw [hassign] at happly; cases happly
      | ok assigned =>
        rw [hassign] at happly
        have hmerged : assigned.reconcileMatchingItems now m.kind found.identifiers (some item) =
            (db', log) :=
          Except.ok.inj happly
        have hkept := h.assignMatch hfound hm hkind hassign
        obtain ⟨m', hm', hx, -⟩ := (assignMatch_matched hassign hm).row
        have hmanual : assigned.identityRows.manualMatchOf item = some found.externalId := by
          rw [manualMatchOf_of_get? hm']
          unfold MediaItem.manualMatch
          rw [hx]
          exact Option.filter_some_pos (decide_eq_true found.identified)
        have hsteps : ReconcileSteps py False True assigned _ _ :=
          reconcileMatchingItems_steps now m.kind found.identifiers (some item) hkept.rooted
            (fun hL => hL.elim)
            fun _ i hi => by rw [← Option.some_inj.1 hi, hmanual]; rfl
        rw [hmerged] at hsteps
        obtain ⟨hkept', hfollowed, -⟩ := hsteps.matchesKept hkept htitles
        exact ⟨hkept', hfollowed item _ hmanual⟩

end Database

/-! ### Runs -/

/-- A call that writes to the catalog, or a manual match. -/
inductive CatalogEvent
  | call (call : CatalogCall)
  | manualMatch (py : PyLib) (now : Time) (item : Nat) (found : TmdbMatch)

namespace CatalogCall

/-- The merges of a call that last. -/
def merges (db : Database) : CatalogCall → List MergeStep
  | persist _ _ _ _ => []
  | reconcile py now call => call.lasting py now db

/-- The merges of a run. -/
def log : Database → List CatalogCall → List MergeStep
  | _, [] => []
  | db, call :: calls => call.merges db ++ log (call.apply db) calls

/-- What the connectors and the callers of the reconciliation see to: only leaves are persisted, and
only an item with a manual match is preferred. No title of a match has a token. -/
def Proper (known : List TmdbMatch) (db : Database) : CatalogCall → Prop
  | persist _ _ item _ => item.kind.isContainer = false
  | reconcile py _ call => call.PrefersManual db ∧ ∀ t ∈ known, NoToken py t.title

end CatalogCall

namespace CatalogEvent

/-- The database after an event; one that raises is rolled back. -/
def apply (db : Database) : CatalogEvent → Database
  | call c => c.apply db
  | manualMatch py now item found =>
    match db.applyManualMatch py now item found with
    | .ok (db', _) => db'
    | .error _ => db

def found? : CatalogEvent → Option TmdbMatch
  | call _ => none
  | manualMatch _ _ _ found => some found

def Proper (known : List TmdbMatch) (db : Database) : CatalogEvent → Prop
  | call c => c.Proper known db
  | manualMatch py _ _ _ => ∀ t ∈ known, NoToken py t.title

end CatalogEvent

section Runs
variable {known : List TmdbMatch} {db : Database}
open Database

theorem CatalogCall.matchesKept {call : CatalogCall} (h : MatchesKept known db)
    (hp : call.Proper known db) :
    MatchesKept known (call.apply db) ∧ ManualFollowed (call.merges db) db (call.apply db) ∧
      ∀ step ∈ call.merges db, AgreeManually step := by
  rcases call with ⟨service, cache, item, t⟩ | ⟨py, now, call⟩
  · have hquiet : ∀ db', MatchesKept known db' ∧ ManualStays db db' →
        MatchesKept known db' ∧ ManualFollowed [] db db' ∧ ∀ step ∈ ([] : List MergeStep),
          AgreeManually step :=
      fun db' h => ⟨h.1, h.2, fun _ hstep => absurd hstep List.not_mem_nil⟩
    refine hquiet _ ?_
    unfold apply
    dsimp only
    split
    next result s hrun =>
      obtain ⟨mid, hcatalog, hplayback⟩ :=
        (service.persistMedia_ensures item hp t db ⟨db, cache⟩ result s rfl hrun).writes
      obtain ⟨hkept, hstays⟩ := CatalogWrites.matchesKept h hcatalog
      have hframe := PlaybackWrites.frame hplayback
      refine ⟨hkept.of_frame hframe (by decide) (by decide), fun i x hx => ?_⟩
      exact ManualStays.of_itemsKept (.of_frame hframe (by decide)) i x (hstays i x hx)
    next => exact ⟨h, fun _ _ hx => hx⟩
  · have hsteps : ReconcileSteps py False True db (call.lasting py now db) (call.apply py now db) :=
      call.steps py now h.rooted (fun hL => hL.elim) fun _ => hp.1
    exact hsteps.matchesKept h hp.2

theorem CatalogCall.run_matchesKept {calls : List CatalogCall} (h : MatchesKept known db)
    (hcalls : Along CatalogCall.apply (CatalogCall.Proper known) db calls) :
    MatchesKept known (calls.foldl CatalogCall.apply db) ∧
      ManualFollowed (CatalogCall.log db calls) db (calls.foldl CatalogCall.apply db) ∧
        ∀ step ∈ CatalogCall.log db calls, AgreeManually step := by
  induction calls generalizing db with
  | nil => exact ⟨h, fun _ _ hx => hx, fun _ hstep => absurd hstep List.not_mem_nil⟩
  | cons call calls ih =>
    obtain ⟨hkept, hfollowed, hagree⟩ := CatalogCall.matchesKept h hcalls.1
    obtain ⟨hkept', hfollowed', hagree'⟩ := ih hkept hcalls.2
    exact ⟨hkept', hfollowed.trans hfollowed', fun step hstep =>
      (List.mem_append.1 hstep).elim (hagree step) (hagree' step)⟩

theorem CatalogEvent.matchesKept {event : CatalogEvent} (h : MatchesKept known db)
    (hp : event.Proper known db)
    (hknown : ∀ t, event.found? = some t → t ∈ known) : MatchesKept known (event.apply db) := by
  cases event with
  | call c => exact (CatalogCall.matchesKept h hp).1
  | manualMatch py now item found =>
    unfold apply
    dsimp only
    split
    next db' log happly => exact (h.applyManualMatch (hknown found rfl) hp happly).1
    next => exact h

/-- What a match that was applied says, its item or the one it was merged into goes on to say,
whatever is persisted and merged afterwards; and items with different manual matches are never
merged. -/
theorem manual_match_durable {db₁ : Database} {before : List CatalogEvent}
    {after : List CatalogCall} {py : PyLib} {now : Time}
    {item : Nat} {found : TmdbMatch} {log : List MergeStep} (hempty : db.mediaItems = .empty)
    (hbefore : Along CatalogEvent.apply
      (CatalogEvent.Proper (found :: before.filterMap CatalogEvent.found?)) db before)
    (happly : (before.foldl CatalogEvent.apply db).applyManualMatch py now item found =
      .ok (db₁, log))
    (hafter : Along CatalogCall.apply
      (CatalogCall.Proper (found :: before.filterMap CatalogEvent.found?)) db₁ after)
    (htitles : ∀ t ∈ found :: before.filterMap CatalogEvent.found?, NoToken py t.title)
    (hsame : ∀ t ∈ before.filterMap CatalogEvent.found?, t.externalId = found.externalId →
      ∀ v, v ∈ t.identifiers ↔ v ∈ found.identifiers) :
    let db₂ := after.foldl CatalogCall.apply db₁
    let survivor := survivorOf (log ++ CatalogCall.log db₁ after) item
    (∃ m, db₂.mediaItems.get? survivor = some m ∧ m.manualMatchTmdbId = some found.externalId) ∧
      (∀ v : ExternalIdentifier,
        v ∈ (db₂.identifiersAt survivor).map (fun r => ⟨r.provider, r.externalId⟩) ↔
          v ∈ found.identifiers) ∧
      (∃ t ∈ found :: before.filterMap CatalogEvent.found?, t.externalId = found.externalId ∧
        Matched t db₂ survivor) ∧
      ∀ step ∈ CatalogCall.log db₁ after, AgreeManually step := by
  intro db₂ survivor
  set known := found :: before.filterMap CatalogEvent.found? with hknown
  have hstart : MatchesKept known db := by
    have hnone : ∀ i, db.mediaItems.get? i = none := fun i => by rw [hempty]; rfl
    have hmanual : ∀ i, db.identityRows.manualMatchOf i = none := fun i =>
      congrArg (Option.bind · MediaItem.manualMatch) (hnone i)
    refine ⟨fun i m hm => ?_, fun i x hx => ?_, fun i x hx => ?_⟩
    · rw [hnone] at hm; cases hm
    · rw [hmanual] at hx; cases hx
    · rw [hmanual] at hx; cases hx
  have hevents : Along CatalogEvent.apply (fun db e => e.Proper known db ∧ e ∈ before) db before :=
    Along.iff_forall_prefix.2 fun pre e hpre =>
      ⟨Along.iff_forall_prefix.1 hbefore pre e hpre,
        hpre.subset (List.mem_append_right pre List.mem_cons_self)⟩
  have hkept := hevents.invariant (I := MatchesKept known)
      (fun db e h hp => CatalogEvent.matchesKept h hp.1 fun t ht =>
    List.mem_cons_of_mem _ (List.mem_filterMap.2 ⟨e, hp.2, ht⟩)) hstart
  obtain ⟨hkept₁, hcarried⟩ := hkept.applyManualMatch List.mem_cons_self htitles happly
  obtain ⟨hkept₂, hfollowed, hagree⟩ := CatalogCall.run_matchesKept hkept₁ hafter
  have hsurvivor : db₂.identityRows.manualMatchOf survivor = some found.externalId := by
    have hmanual := hfollowed _ _ hcarried
    rwa [← Function.comp_apply (f := survivorOf _), ← survivorOf_append] at hmanual
  obtain ⟨t, ht, hid, hmatched⟩ := hkept₂.matched _ _ hsurvivor
  obtain ⟨m, hm, hx, -⟩ := hmatched.row
  refine ⟨⟨m, hm, hid ▸ hx⟩, fun v => (hmatched.identifiers v).trans ?_,
    ⟨t, ht, hid, hmatched⟩, hagree⟩
  rcases List.mem_cons.1 ht with rfl | hbefore
  exacts [Iff.rfl, hsame t hbefore hid v]

end Runs

section Example

def plainMovie (externalId : String) (identifiers : List ExternalIdentifier) :
    ExternalMediaItem where
  externalId := externalId
  libraryExternalId := "1"
  kind := .movie
  title := externalId
  identifiers := identifiers
  complete := by simp [MediaFields.Complete]

def plainMatch (title : String) : TmdbMatch where
  externalId := "5"
  title := title
  identifiers := [⟨"tmdb", "5"⟩]
  identified := by decide

def twoMovies : List CatalogEvent :=
  [.call (.persist (plainService 1) [] (plainMovie "a" []) 0),
    .call (.persist (plainService 2) [] (plainMovie "b" []) 0)]

/-- Two movies with one match; a third that both servers have keeps them apart. -/
def matchedTwice : List CatalogEvent :=
  twoMovies ++ [.call (.persist (plainService 1) [] (plainMovie "c" [⟨"tmdb", "5"⟩]) 0),
    .call (.persist (plainService 2) [] (plainMovie "d" [⟨"tmdb", "5"⟩]) 0),
      .manualMatch .plain 0 1 (plainMatch "A")]

/-- The database after a run and a match, and its merges. -/
def matchedAfter (before : List CatalogEvent) (item : Nat) (found : TmdbMatch) :
    Database × List MergeStep :=
  ((before.foldl CatalogEvent.apply .empty).applyManualMatch .plain 0 item found).toOption.getD
    (.empty, [])

theorem matchedAfter_eq {before : List CatalogEvent} {item : Nat} {found : TmdbMatch}
    (h : ((before.foldl CatalogEvent.apply .empty).applyManualMatch .plain 0 item found).isOk =
      true) :
    (before.foldl CatalogEvent.apply .empty).applyManualMatch .plain 0 item found =
      .ok ((matchedAfter before item found).1, (matchedAfter before item found).2) := by
  unfold matchedAfter
  cases hresult : (before.foldl CatalogEvent.apply .empty).applyManualMatch .plain 0 item found with
  | error e => rw [hresult] at h; cases h
  | ok result => rfl

/-- A person merges the second movie into the first. -/
def confirmed : List CatalogCall := [.reconcile .plain 0 (.confirmed [1, 2])]

theorem manual_match_durable_confirmed :
    let start := matchedAfter matchedTwice 2 (plainMatch "A")
    let db₂ := confirmed.foldl CatalogCall.apply start.1
    survivorOf (start.2 ++ CatalogCall.log start.1 confirmed) 2 = 1 ∧
      ∃ m,
        db₂.mediaItems.get? (survivorOf (start.2 ++ CatalogCall.log start.1 confirmed) 2) = some m ∧
        m.manualMatchTmdbId = some "5" := by
  have hok : ((matchedTwice.foldl CatalogEvent.apply .empty).applyManualMatch .plain 0 2
      (plainMatch "A")).isOk = true := by
    decide +kernel
  have htoken : ∀ t ∈ plainMatch "A" :: matchedTwice.filterMap CatalogEvent.found?,
      NoToken .plain t.title := by decide +kernel
  refine ⟨by decide +kernel, (manual_match_durable rfl ?_ (matchedAfter_eq hok) ?_ htoken ?_).1⟩
  · exact ⟨rfl, rfl, rfl, rfl, htoken, trivial⟩
  · exact ⟨⟨trivial, htoken⟩, trivial⟩
  · have hone : ∀ t ∈ matchedTwice.filterMap CatalogEvent.found?,
        t.identifiers = (plainMatch "A").identifiers := by
      decide +kernel
    exact fun t ht _ v => by rw [hone t ht]

/-- The second server finds out what its movie is. -/
def identified (preferred : Option Nat) : List CatalogCall :=
  [.persist (plainService 2) [] (plainMovie "b" [⟨"tmdb", "5"⟩]) 0,
    .reconcile .plain 0 (.matching .movie [⟨"tmdb", "5"⟩] preferred)]

/-- A caller that prefers an item without a match loses the match, and of two matches with one
manual id one title is lost. -/
theorem manual_match_lost :
    NoToken .plain "A" ∧ NoToken .plain "B" ∧
    (∃ db₁ log, (twoMovies.foldl CatalogEvent.apply .empty).applyManualMatch .plain 0 1
      (plainMatch "A") = .ok (db₁, log) ∧
      survivorOf (log ++ CatalogCall.log db₁ (identified (some 2))) 1 = 2 ∧
        (((identified (some 2)).foldl CatalogCall.apply db₁).mediaItems.get? 2).map
          (·.manualMatchTmdbId) = some none) ∧
    ∃ db₁ log, (matchedTwice.foldl CatalogEvent.apply .empty).applyManualMatch .plain 0 2
      (plainMatch "B") = .ok (db₁, log) ∧
      (∀ t ∈ matchedTwice.filterMap CatalogEvent.found?,
        t.identifiers = (plainMatch "B").identifiers) ∧
      survivorOf (log ++ CatalogCall.log db₁ confirmed) 2 = 1 ∧
        ((confirmed.foldl CatalogCall.apply db₁).mediaItems.get? 1).map (·.title) = some "A" :=
  ⟨by decide +kernel, by decide +kernel,
    ⟨_, _, matchedAfter_eq (by decide +kernel), by decide +kernel, by decide +kernel⟩,
    ⟨_, _, matchedAfter_eq (by decide +kernel), by decide +kernel, by decide +kernel, by
      decide +kernel⟩⟩

end Example

end Euvieouvi
