import Euvieouvi.Enrichment.Service
import Euvieouvi.Persist.Writes

/-!
# Enrichment only adds

Whatever TMDB and MusicBrainz answer, no run replaces what a media server has told
(`enrichment_only_adds`). `OnlyAdds` is reflexive and transitive, each statement of the service
respects it, and so does what an exception leaves behind.
-/

namespace Euvieouvi

/-- The same item, or it with values where it had none, and stamped. -/
def MediaItem.Filled (m m' : MediaItem) : Prop :=
  m' = m ∨ ∃ (metadata : ProviderMetadata) (now : Time), metadata.fill m ≠ m ∧
    m' = { metadata.fill m with updatedAt := now }

namespace ProviderMetadata
variable {m : MediaItem}

theorem fill_eq_self {metadata : ProviderMetadata} :
    metadata.fill m = m ↔ m.summary.or metadata.summary = m.summary ∧
    m.tagline.or metadata.tagline = m.tagline ∧ m.studio.or metadata.studio = m.studio ∧
      m.audienceRating.or metadata.audienceRating = m.audienceRating := by
  constructor
  · intro h
    exact ⟨congrArg MediaItem.summary h, congrArg MediaItem.tagline h, congrArg MediaItem.studio h,
      congrArg MediaItem.audienceRating h⟩
  · rintro ⟨hsummary, htagline, hstudio, hrating⟩
    unfold fill
    rw [hsummary, htagline, hstudio, hrating]

/-- The facts of `a`, and where it has none those of `b`. -/
def orFacts (a b : ProviderMetadata) : ProviderMetadata where
  summary := a.summary.or b.summary
  tagline := a.tagline.or b.tagline
  studio := a.studio.or b.studio
  audienceRating := a.audienceRating.or b.audienceRating

theorem fill_fill (a b : ProviderMetadata) (now now' : Time) (m : MediaItem) :
    { b.fill { a.fill m with updatedAt := now } with updatedAt := now' } =
      { (a.orFacts b).fill m with updatedAt := now' } := by
  simp only [fill, orFacts, Option.or_assoc]

/-- What is filled stays filled. -/
theorem fill_orFacts_ne {a : ProviderMetadata} (b : ProviderMetadata) (h : a.fill m ≠ m) :
    (a.orFacts b).fill m ≠ m := by
  rw [Ne, fill_eq_self] at h ⊢
  refine mt ?_ h
  have hor : ∀ {α : Type} (x y z : Option α), x.or (y.or z) = x → x.or y = x := by
    intro α x y z hx
    cases x with
    | some x => rfl
    | none => cases y with
      | none => rfl
      | some y => cases hx
  rintro ⟨hsummary, htagline, hstudio, hrating⟩
  exact ⟨hor _ _ _ hsummary, hor _ _ _ htagline, hor _ _ _ hstudio, hor _ _ _ hrating⟩

end ProviderMetadata

namespace MediaItem.Filled
variable {m m' m'' : MediaItem}

theorem refl (m : MediaItem) : m.Filled m := .inl rfl

theorem trans (h : m.Filled m') (h' : m'.Filled m'') : m.Filled m'' := by
  rcases h with rfl | ⟨a, now, hne, rfl⟩
  · exact h'
  rcases h' with rfl | ⟨b, now', -, rfl⟩
  · exact .inr ⟨a, now, hne, rfl⟩
  · exact .inr ⟨a.orFacts b, now', ProviderMetadata.fill_orFacts_ne b hne,
      ProviderMetadata.fill_fill a b now now' m⟩

/-- All columns but the filled ones, and nothing is filled that was not missing. -/
theorem columns (h : m.Filled m') : ∃ (metadata : ProviderMetadata)
    (now : Time), m' = { metadata.fill m with updatedAt := now } := by
  rcases h with rfl | ⟨metadata, now, -, rfl⟩
  · refine ⟨{}, m'.updatedAt, ?_⟩
    simp only [ProviderMetadata.fill, Option.or_none]
  · exact ⟨metadata, now, rfl⟩

end MediaItem.Filled

/-- `uq_media_images_item_type`. -/
def Database.SingleImages (db : Database) : Prop :=
  ∀ i ∈ db.mediaImages.rows, ∀ j ∈ db.mediaImages.rows, i.mediaItemId = j.mediaItemId →
    i.imageType = j.imageType → i = j

/-- The settings but for the state of the projection, which says `identity` once an item is written,
if it says anything. -/
def Settings.Marked (settings settings' : Settings) : Prop :=
  settings' = settings ∨
    settings' = { settings with projectionState := settings.projectionState.map fun _ => .identity }

theorem Settings.Marked.trans {a b c : Settings} (h : a.Marked b) (h' : b.Marked c) :
    a.Marked c := by
  rcases h with rfl | rfl
  · exact h'
  rcases h' with rfl | rfl
  · exact .inr rfl
  · exact .inr (by simp [Function.comp_def])

/-- From `db` to `db'` nothing is lost: null facts of items are filled, and rows come to the tables
of genres, images and records; a new image is the poster of an item that had none, and comes from no
source. -/
structure OnlyAdds (db db' : Database) : Prop where
  frame :
    Database.Frame [.mediaItems, .genres, .mediaGenres, .mediaImages, .enrichmentRecords] db db'
  items : ∀ id, Option.Rel MediaItem.Filled (db.mediaItems.get? id) (db'.mediaItems.get? id)
  genres : ∀ g ∈ db.genres.rows, g ∈ db'.genres.rows
  links : ∀ l ∈ db.mediaGenres.rows, l ∈ db'.mediaGenres.rows
  images : ∀ i ∈ db.mediaImages.rows, i ∈ db'.mediaImages.rows
  records : ∀ r ∈ db.enrichmentRecords.rows, r ∈ db'.enrichmentRecords.rows
  posters : ∀ i ∈ db'.mediaImages.rows, i ∈ db.mediaImages.rows ∨
    i.imageType = "poster" ∧ i.sourceId = none ∧ db.hasPoster i.mediaItemId = false
  single : db.SingleImages → db'.SingleImages
  settings : db.settings.Marked db'.settings

theorem Database.hasPoster_iff {db : Database} {item : Nat} :
    db.hasPoster item = true ↔ ∃ i ∈ db.mediaImages.rows, i.mediaItemId = item ∧
    i.imageType = "poster" := by
  unfold Database.hasPoster Database.byItemAndType
  rw [List.find?_isSome]
  simp only [Bool.and_eq_true, beq_iff_eq]

namespace OnlyAdds
variable {db db' db'' : Database}

theorem rel_refl (item : Option MediaItem) : Option.Rel MediaItem.Filled item item := by
  cases item with
  | none => exact .none
  | some m => exact .some (.refl m)

theorem rel_trans {a b c : Option MediaItem} (h : Option.Rel MediaItem.Filled a b)
    (h' : Option.Rel MediaItem.Filled b c) :
    Option.Rel MediaItem.Filled a c := by
  cases h with
  | none => exact h'
  | some h => cases h' with
    | some h' => exact .some (h.trans h')

theorem refl (db : Database) : OnlyAdds db db where
  frame := .refl db
  items _ := rel_refl _
  genres _ h := h
  links _ h := h
  images _ h := h
  records _ h := h
  posters _ h := .inl h
  single h := h
  settings := .inl rfl

theorem hasPoster (h : OnlyAdds db db') {item : Nat} (hposter : db.hasPoster item = true) :
    db'.hasPoster item = true := by
  obtain ⟨i, hi, hi'⟩ := Database.hasPoster_iff.1 hposter
  exact Database.hasPoster_iff.2 ⟨i, h.images i hi, hi'⟩

theorem trans (h : OnlyAdds db db') (h' : OnlyAdds db' db'') : OnlyAdds db db'' where
  frame := h.frame.trans h'.frame
  items id := rel_trans (h.items id) (h'.items id)
  genres g hg := h'.genres g (h.genres g hg)
  links l hl := h'.links l (h.links l hl)
  images i hi := h'.images i (h.images i hi)
  records r hr := h'.records r (h.records r hr)
  posters i hi := by
    obtain hi | ⟨htype, hsource, hnone⟩ := h'.posters i hi
    · exact h.posters i hi
    · refine .inr ⟨htype, hsource, ?_⟩
      cases hold : db.hasPoster i.mediaItemId with
      | false => rfl
      | true => exact absurd (h.hasPoster hold) (by rw [hnone]; exact Bool.false_ne_true)
  single hs := h'.single (h.single hs)
  settings := h.settings.trans h'.settings

/-! ### Statements -/

theorem saveMediaItem (db : Database) (now : Time) (i : Nat) (metadata : ProviderMetadata) :
    OnlyAdds db (db.saveMediaItem now i ⟨metadata.fill, fun _ => rfl⟩) := by
  have hframe :
      Database.Frame [.mediaItems] db (db.saveMediaItem now i ⟨metadata.fill, fun _ => rfl⟩) :=
    Database.updateMediaItems_frame _ _
  have hgenres : (db.saveMediaItem now i ⟨metadata.fill, fun _ => rfl⟩).genres = db.genres :=
    hframe .genres (by decide)
  have hlinks : (db.saveMediaItem now i ⟨metadata.fill, fun _ => rfl⟩).mediaGenres =
      db.mediaGenres := hframe .mediaGenres (by decide)
  have himages : (db.saveMediaItem now i ⟨metadata.fill, fun _ => rfl⟩).mediaImages =
      db.mediaImages := hframe .mediaImages (by decide)
  have hrecords : (db.saveMediaItem now i ⟨metadata.fill, fun _ => rfl⟩).enrichmentRecords =
      db.enrichmentRecords :=
    hframe .enrichmentRecords (by decide)
  refine ⟨hframe.mono (by decide), fun id => ?_, ?_, ?_, ?_, ?_, ?_, ?_, ?_⟩
  · rw [Database.get?_saveMediaItem]
    cases db.mediaItems.get? id with
    | none => exact .none
    | some m =>
      refine .some ?_
      dsimp only
      split
      next hwritten =>
        exact .inr ⟨metadata, now, of_decide_eq_true (Bool.and_eq_true_iff.1 hwritten).2, rfl⟩
      next => exact .refl m
  · exact fun g hg => hgenres.symm ▸ hg
  · exact fun l hl => hlinks.symm ▸ hl
  · exact fun i hi => himages.symm ▸ hi
  · exact fun r hr => hrecords.symm ▸ hr
  · exact fun i hi => .inl (himages ▸ hi)
  · unfold Database.SingleImages
    rw [himages]
    exact id
  · unfold Database.saveMediaItem Database.updateMediaItems
    split
    exacts [.inr rfl, .inl rfl]

/-- Genres and links are added. -/
theorem addGenres {genres : Table Genre.id} {links : Table MediaGenre.id}
    (hgenres : ∀ g ∈ db.genres.rows, g ∈ genres.rows)
    (hlinks : ∀ l ∈ db.mediaGenres.rows, l ∈ links.rows) :
    OnlyAdds db { db with genres := genres, mediaGenres := links } where
  frame := by
    have hfirst : Database.Frame [.genres] db { db with genres := genres } :=
      Database.writeGenres_frame genres
    have hsecond : Database.Frame [.mediaGenres] { db with genres := genres } { db with
        genres := genres, mediaGenres := links } :=
      Database.writeMediaGenres_frame links
    exact (hfirst.append hsecond).mono (by decide)
  items _ := rel_refl _
  genres := hgenres
  links := hlinks
  images _ h := h
  records _ h := h
  posters _ h := .inl h
  single h := h
  settings := .inl rfl

theorem linkGenre (py : PyLib) (item : Nat) (s : Database × Bool) (name : String) :
    OnlyAdds s.1 (ProviderMetadata.linkGenre py item s name).1 := by
  unfold ProviderMetadata.linkGenre
  dsimp only
  cases s.1.genres.rows.find?
    (·.normalizedName == py.casefold (" ".intercalate (py.split name))) with
  | some genre =>
    dsimp only
    split
    · exact addGenres (fun _ h => h) fun _ h => h
    · exact addGenres (fun _ h => h) fun _ => Table.mem_insert_of_mem
  | none =>
    dsimp only
    split
    · exact addGenres (fun _ => Table.mem_insert_of_mem) fun _ h => h
    · exact addGenres (fun _ => Table.mem_insert_of_mem) fun _ => Table.mem_insert_of_mem

theorem linkGenres (py : PyLib) (item : Nat) (names : List String) (s : Database × Bool) :
    OnlyAdds s.1 (names.foldl (ProviderMetadata.linkGenre py item) s).1 := by
  induction names generalizing s with
  | nil => exact refl s.1
  | cons name names ih => exact (linkGenre py item s name).trans (ih _)

theorem addPoster {item : Nat} (now : Time) (provider url : String)
    (h : db.hasPoster item = false) :
    OnlyAdds db (db.addPoster now item provider url) := by
  have hnone : ∀ i ∈ db.mediaImages.rows, i.mediaItemId = item → i.imageType ≠ "poster" := by
    intro i hi hitem htype
    rw [Database.hasPoster_iff.2 ⟨i, hi, hitem, htype⟩] at h
    cases h
  refine ⟨(Database.writeMediaImages_frame _).mono (by decide), fun id => rel_refl _, fun _ h => h,
    fun _ h => h,
    fun i hi => Table.mem_insert_of_mem hi, fun _ h => h, fun i hi => ?_,
      fun hsingle i hi j hj hitem htype => ?_, .inl rfl⟩
  · obtain hi | rfl := Table.mem_insert hi
    · exact .inl hi
    · exact .inr ⟨rfl, rfl, h⟩
  · obtain hi | rfl := Table.mem_insert hi
    · obtain hj | rfl := Table.mem_insert hj
      · exact hsingle i hi j hj hitem htype
      · exact absurd htype (hnone i hi hitem)
    · obtain hj | rfl := Table.mem_insert hj
      · exact absurd htype.symm (hnone j hj hitem.symm)
      · rfl

theorem apply (py : PyLib) (now : Time) (item : MediaItem) (metadata : ProviderMetadata)
    (db : Database) :
    OnlyAdds db (metadata.apply py now item db).1 := by
  have hgenred :=
    (saveMediaItem db now item.id metadata).trans (linkGenres py item.id metadata.genres
    (db.saveMediaItem now item.id ⟨metadata.fill, fun _ => rfl⟩,
      decide (metadata.fill item ≠ item)))
  unfold ProviderMetadata.apply
  dsimp only
  split
  · split
    · exact hgenred
    next hposter => exact hgenred.trans (addPoster now _ _ (by simpa using hposter))
  · exact hgenred

theorem openRecord (st : EnrichmentState) (item : Nat) (provider : String) :
    OnlyAdds st.db (st.openRecord item provider).2.db := by
  unfold EnrichmentState.openRecord
  split
  · exact refl st.db
  · exact {
      frame := (Database.writeEnrichmentRecords_frame _).mono (by decide)
      items := fun _ => rel_refl _
      genres := fun _ h => h
      links := fun _ h => h
      images := fun _ h => h
      records := fun _ h => Table.mem_insert_of_mem h
      posters := fun _ h => .inl h
      single := fun h => h
      settings := .inl rfl }

/-! ### Runs -/

theorem ask {run run' : EnrichmentRun} {py : PyLib} {settings : EnrichmentSettings} {total : Nat}
    {call : EnrichmentTurn}
    {provider : EnrichmentProvider} {identifier : MediaIdentifier} {item : MediaItem}
    (h : run.ask py settings total call provider identifier item = some run') :
    OnlyAdds run.state.db run'.state.db ∧ run'.committed = run'.state := by
  have hopen := openRecord run.state item.id identifier.provider
  unfold EnrichmentRun.ask at h
  dsimp only at h
  split at h <;> cases h
  · exact ⟨hopen.trans (apply ..), rfl⟩
  · exact ⟨hopen, rfl⟩
  · exact ⟨hopen, rfl⟩
  · exact ⟨hopen, rfl⟩

end OnlyAdds

theorem EnrichmentEnd.state_cases (e : EnrichmentEnd) :
    e.state = e.run.state ∨ e.state = e.run.committed := by
  cases e with
  | finished run => exact .inl rfl
  | raised e run => exact .inr rfl

/-- Only the summary is stored after the loop. -/
theorem EnrichmentEnd.close_state (e : EnrichmentEnd) :
    e.close.state.db = e.state.db ∧ e.close.state.columns = e.state.columns ∧
    e.close.run.counters = e.run.counters ∧ e.close.run.reports = e.run.reports := by
  cases e <;> exact ⟨rfl, rfl, rfl, rfl⟩

namespace EnrichmentRun
variable {run run' : EnrichmentRun} {py : PyLib} {settings : EnrichmentSettings} {total : Nat}

theorem db_start (calls : EnrichmentTurns) (st : EnrichmentState) (total : Nat) :
    (start calls st total).committed.db = st.db := by
  unfold start
  dsimp only
  split <;> rfl

theorem committed_start (calls : EnrichmentTurns) (st : EnrichmentState) (total : Nat) :
    (start calls st total).committed = st ∨ (start calls st total).committed = st.migrate := by
  unfold start
  dsimp only
  split
  · exact .inr rfl
  · exact .inl rfl

/-- A turn that is not skipped asks for a record that has not succeeded. -/
theorem turn_asked {call : EnrichmentTurn} {id : Nat}
    (h : run.turn py settings total call id = .asked run') :
    ∃ identifier item provider, run.state.db.mediaIdentifiers.get? id = some identifier ∧
      run.state.db.mediaItems.get? identifier.mediaItemId = some item ∧
      settings.provider identifier.provider item.kind = some provider ∧
      run.ask py settings total call provider identifier item = some run' := by
  unfold turn at h
  split at h
  · cases h
  next identifier hid =>
    split at h
    · cases h
    next item hitem =>
      split at h
      · cases h
      next provider hprovider =>
        split at h
        · cases h
        · cases hask : run.ask py settings total call provider identifier item with
          | none =>
            rw [hask] at h
            cases h
          | some run₁ =>
            rw [hask] at h
            cases h
            exact ⟨identifier, item, provider, hid, hitem, hprovider, hask⟩

/-- What each turn keeps holds at the end of the loop, also when an exception ends it. -/
theorem loop_invariant {limit : Option Nat} {turns : Nat → EnrichmentTurn}
    {I : EnrichmentRun → Prop}
    {ids : List Nat} (hstep : ∀ run run', ∀ id ∈ ids, I run →
      run.turn py settings total (turns id) id = .asked run' → I run')
    (hbegun : ∀ run, I run → I run.begun) (h : I run) :
    I (loop py settings limit total turns run ids).run := by
  induction ids generalizing run with
  | nil => exact h
  | cons id ids ih =>
    have hrest := fun run run' id' hid => hstep run run' id' (List.mem_cons_of_mem id hid)
    unfold loop
    split
    · exact h
    · split
      · exact ih hrest h
      · exact hbegun run h
      next run' hturn =>
        split
        · exact hstep run run' id List.mem_cons_self h hturn
        · exact ih hrest (hstep run run' id List.mem_cons_self h hturn)

end EnrichmentRun

theorem ArtworkRun.close_state {ended : ArtworkRun × Bool} :
    (ArtworkRun.close ended).1.state.db = ended.1.state.db ∧
    (ArtworkRun.close ended).1.state.columns = ended.1.state.columns ∧
      (ArtworkRun.close ended).1.counters = ended.1.counters := by
  unfold ArtworkRun.close
  split <;> exact ⟨rfl, rfl, rfl⟩

namespace OnlyAdds

theorem of_turn {run run' : EnrichmentRun} {py : PyLib} {settings : EnrichmentSettings}
    {total id : Nat} {call : EnrichmentTurn}
    (h : run.turn py settings total call id = .asked run') :
    OnlyAdds run.state.db run'.state.db ∧ run'.committed = run'.state := by
  obtain ⟨identifier, item, provider, -, -, -, hask⟩ := EnrichmentRun.turn_asked h
  exact ask hask

theorem turn {st : EnrichmentState} {run run' : EnrichmentRun} {py : PyLib}
    {settings : EnrichmentSettings} {total id : Nat}
    {call : EnrichmentTurn} (h : OnlyAdds st.db run.state.db ∧ OnlyAdds st.db run.committed.db)
    (hturn : run.turn py settings total call id = .asked run') :
    OnlyAdds st.db run'.state.db ∧ OnlyAdds st.db run'.committed.db := by
  obtain ⟨hadds, hcommitted⟩ := of_turn hturn
  rw [hcommitted]
  exact ⟨h.1.trans hadds, h.1.trans hadds⟩

theorem enrichCatalog (py : PyLib) (settings : EnrichmentSettings) (limit : Option Nat)
    (calls : EnrichmentTurns)
    (st : EnrichmentState) :
    OnlyAdds st.db (st.enrichCatalog py settings limit calls).state.db := by
  unfold EnrichmentState.enrichCatalog
  dsimp only
  split
  · split <;> exact refl st.db
  · have hstart : ∀ total, OnlyAdds st.db (EnrichmentRun.start calls st total).committed.db := by
      intro total
      rw [EnrichmentRun.db_start]
      exact refl st.db
    split
    · exact hstart _
    · generalize hend : EnrichmentRun.loop py settings limit _ calls.turn _ _ = e
      have hadds : OnlyAdds st.db e.run.state.db ∧ OnlyAdds st.db e.run.committed.db := by
        rw [← hend]
        exact EnrichmentRun.loop_invariant (I := fun run => OnlyAdds st.db run.state.db ∧
          OnlyAdds st.db run.committed.db)
          (fun _ _ _ _ => turn) (fun _ h => h) ⟨refl st.db, hstart _⟩
      rw [e.close_state.1]
      obtain hstate | hstate := e.state_cases
      · exact hstate ▸ hadds.1
      · exact hstate ▸ hadds.2

theorem recoverItem {settings : EnrichmentSettings} {call : EnrichmentTurn} {item : MediaItem}
    {ids : List Nat}
    {st st' : EnrichmentState} {result : ArtworkResult}
    (h : st.recoverItem settings call item ids = some (st', result)) :
    OnlyAdds st.db st'.db := by
  induction ids generalizing st with
  | nil =>
    cases h
    exact refl _
  | cons id ids ih =>
    unfold EnrichmentState.recoverItem at h
    split at h
    · exact ih h
    next identifier _ =>
      have hopen := openRecord st item.id (artworkRecordProvider identifier.provider)
      dsimp only at h
      split at h
      · split at h
        · split at h
          · cases h
            exact hopen
          next hposter =>
            cases h
            exact hopen.trans (addPoster _ _ _ (by simpa using hposter))
        · have hrest := ih h
          exact hopen.trans hrest
      · have hrest := ih h
        exact hopen.trans hrest
      · have hrest := ih h
        exact hopen.trans hrest
      · cases h
        exact hopen
      · cases h

theorem artworkLoop {settings : EnrichmentSettings} {total : Nat} {turns : Nat → EnrichmentTurn}
    (run : ArtworkRun)
    (candidates : List (Nat × List Nat)) :
    OnlyAdds run.state.db (run.loop settings total turns candidates).1.state.db := by
  induction candidates generalizing run with
  | nil => exact refl _
  | cons candidate candidates ih =>
    unfold ArtworkRun.loop
    split
    · exact refl _
    · split
      · exact ih run
      · split
        · exact refl _
        next state result hitem =>
          have hadds := recoverItem hitem
          dsimp only
          split
          · exact hadds
          · exact hadds.trans (ih { state := state, counters := _, reports := _ })

theorem recoverMissingArtwork (settings : EnrichmentSettings) (calls : EnrichmentTurns)
    (st : EnrichmentState) :
    OnlyAdds st.db (st.recoverMissingArtwork settings calls).1.state.db := by
  unfold EnrichmentState.recoverMissingArtwork
  dsimp only
  split
  · exact refl st.db
  · split
    · exact refl st.db
    · rw [ArtworkRun.close_state.1]
      exact artworkLoop { state := st, reports := _ } _

end OnlyAdds

/-- A run of one of the two functions. -/
inductive EnrichmentOperation
  | enrich (py : PyLib) (settings : EnrichmentSettings) (limit : Option Nat)
    (calls : EnrichmentTurns)
  | recover (settings : EnrichmentSettings) (calls : EnrichmentTurns)

namespace EnrichmentState

def operate (st : EnrichmentState) : EnrichmentOperation → EnrichmentState
  | .enrich py settings limit calls => (st.enrichCatalog py settings limit calls).state
  | .recover settings calls => (st.recoverMissingArtwork settings calls).1.state

theorem onlyAdds_operate (st : EnrichmentState) (op : EnrichmentOperation) :
    OnlyAdds st.db (st.operate op).db := by
  cases op with
  | enrich py settings limit calls => exact .enrichCatalog py settings limit calls st
  | recover settings calls => exact .recoverMissingArtwork settings calls st

/-- No sequence of runs replaces or deletes anything, whatever the clients answer and wherever a run
is cancelled or ends with an exception: null facts are filled, and an item gets a poster only when
it has none. -/
theorem enrichment_only_adds (ops : List EnrichmentOperation) (st : EnrichmentState) :
    OnlyAdds st.db (ops.foldl operate st).db := by
  induction ops generalizing st with
  | nil => exact .refl st.db
  | cons op ops ih => exact (onlyAdds_operate st op).trans (ih _)

end EnrichmentState

end Euvieouvi
