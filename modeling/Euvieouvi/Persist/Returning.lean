import Euvieouvi.Catalog.Forest
import Euvieouvi.Persist.Trace
import Euvieouvi.Sync.SourceIdentity

/-!
# An item that comes back under another id

A server that is replaced, or that numbers its library anew, shows a known movie or episode under a
new external id. `persist_media` finds a movie by its identifiers. For an episode
`_match_by_identifiers` drops every item that has a reference on the source, retired or not, so a
retired episode is found only by its files or by its coordinates on another source.
-/

namespace Euvieouvi

open Program

theorem single_eq_some_iff {α : Type} {l : List α} {a : α} (hl : l.Nodup) :
    single l = some a ↔ ∀ b, b ∈ l ↔ b = a := by
  constructor
  · intro h b
    unfold single at h
    split at h
    · cases h; exact List.mem_singleton
    · cases h
  · intro h
    have hperm : l.Perm [a] := (List.perm_ext_iff_of_nodup hl (List.nodup_singleton a)).2 fun b =>
      (h b).trans List.mem_singleton.symm
    rw [List.perm_singleton.1 hperm]
    rfl

/-- The only catalog item with the property. -/
def Database.OnlyOne (db : Database) (P : MediaItem → Prop) (x : MediaItem) : Prop :=
  ∀ m ∈ db.mediaItems.rows, P m ↔ m = x

theorem Database.nodup_mediaItems (db : Database) : db.mediaItems.rows.Nodup :=
  .of_map _ db.mediaItems.nodup

/-- A query that takes the only row is a query for the only catalog item. -/
theorem Database.single_filter_iff {db : Database} {p : MediaItem → Bool} {P : MediaItem → Prop}
    {x : MediaItem} (hp : ∀ m, p m = true ↔ P m) (hx : x ∈ db.mediaItems.rows) :
    single (db.mediaItems.rows.filter p) = some x ↔ db.OnlyOne P x := by
  rw [single_eq_some_iff (db.nodup_mediaItems.filter _)]
  constructor
  · intro h m hm
    rw [← hp, ← h m, List.mem_filter, and_iff_right hm]
  · intro h m
    rw [List.mem_filter, hp]
    constructor
    · rintro ⟨hm, hsel⟩
      exact (h m hm).1 hsel
    · rintro rfl
      exact ⟨hx, (h _ hx).2 rfl⟩

namespace MediaPersistenceService
variable (service : MediaPersistenceService) (db : Database) (item : MediaFields)
  (e : EpisodeFields)

/-- Another source has a reference to the item, and shows it. -/
def ShownElsewhere (i : Nat) : Prop :=
  ∃ r ∈ db.sourceMediaRefs.rows, r.mediaItemId = i ∧ r.sourceId ≠ service.sourceId ∧
    r.available = true

/-- Another source has a reference to the item. -/
def KnownElsewhere (i : Nat) : Prop := ∃ r ∈ db.sourceMediaRefs.rows, r.mediaItemId = i ∧
    r.sourceId ≠ service.sourceId

/-- Another source shows the item in a file of the incoming one. -/
def SharesFile (m : MediaItem) : Prop :=
  m.kind = item.kind ∧ ∃ r ∈ db.sourceMediaRefs.rows, r.mediaItemId = m.id ∧
    r.sourceId ≠ service.sourceId ∧
    r.available = true ∧ ∃ p ∈ db.mediaFilePaths.rows, p.referenceId = r.id ∧
      p.pathKey ∈ service.incomingKeys item

/-- An episode with these numbers. -/
def AtCoordinates (m : MediaItem) : Prop :=
  m.kind = .episode ∧ m.seasonNumber = some e.seasonNumber ∧ m.episodeNumber = some e.episodeNumber

/-- Its season has the number, and its show the title. -/
def BelowShow (m : MediaItem) : Prop :=
  ∃ season, m.parentId.bind db.mediaItems.get? = some season ∧ season.kind = .season ∧
    season.seasonNumber = some e.seasonNumber ∧ ∃ «show», season.parentId.bind db.mediaItems.get? =
      some «show» ∧
      «show».kind = .show ∧
        service.py.normalizedTitle «show».title = service.py.normalizedTitle e.showTitle

/-- The coordinates lead to `x` over another source: below the season, where this source has one,
and else below a show of the same title. -/
def FoundByCoordinates (x : MediaItem) : Prop :=
  match db.byExternalIdentity service.sourceId (item.seasonReferenceId e) with
  | none =>
    db.OnlyOne (fun m => AtCoordinates e m ∧ service.BelowShow db e m ∧
      service.ShownElsewhere db m.id) x
  | some season =>
    db.OnlyOne (fun m => AtCoordinates e m ∧ m.parentId = some season.mediaItemId ∧
      service.KnownElsewhere db m.id) x

section Queries
variable {service db item e} {x : MediaItem}

theorem any_shownElsewhere (i : Nat) : (db.sourceMediaRefs.rows.any fun r => r.mediaItemId == i &&
    r.sourceId != service.sourceId && r.available) = true ↔ service.ShownElsewhere db i := by
  simp [ShownElsewhere, and_assoc]

theorem any_knownElsewhere (i : Nat) : (db.sourceMediaRefs.rows.any fun r => r.mediaItemId == i &&
    r.sourceId != service.sourceId) = true ↔ service.KnownElsewhere db i := by
  simp [KnownElsewhere]

theorem matchByPhysicalPath_iff (hx : x ∈ db.mediaItems.rows)
    (hfits : service.compatible db item x = true) :
    service.matchByPhysicalPath db item = some x ↔ db.OnlyOne (service.SharesFile db item) x := by
  have hrow : ∀ m : MediaItem,
      (m.kind == item.kind && db.sourceMediaRefs.rows.any fun r => r.mediaItemId == m.id &&
      r.sourceId != service.sourceId && r.available && db.mediaFilePaths.rows.any fun p =>
        p.referenceId == r.id &&
        (service.incomingKeys item).contains p.pathKey) = true ↔ service.SharesFile db item m := by
    intro m
    simp [SharesFile, and_assoc]
  unfold matchByPhysicalPath
  dsimp only
  split
  next hkeys =>
    refine iff_of_false (by simp) fun h => ?_
    obtain ⟨-, r, -, -, -, -, p, -, -, hp⟩ := (h x hx).2 rfl
    rw [hkeys] at hp
    cases hp
  next =>
    rw [Option.filter_eq_some_iff, and_iff_left hfits]
    exact Database.single_filter_iff hrow hx

theorem matchCrossSourceEpisode_iff (hx : x ∈ db.mediaItems.rows) :
    service.matchCrossSourceEpisode db e = some x ↔
    db.OnlyOne (fun m => AtCoordinates e m ∧ service.BelowShow db e m ∧
      service.ShownElsewhere db m.id) x := by
  refine Database.single_filter_iff (fun m => ?_) hx
  rw [Bool.and_eq_true, any_shownElsewhere, ← and_assoc]
  refine and_congr_left fun _ => ?_
  simp only [AtCoordinates, BelowShow, Bool.and_eq_true, beq_iff_eq, Option.any_eq_true, and_assoc]

theorem matchSeasonEpisode_iff (hx : x ∈ db.mediaItems.rows) (season : Nat) :
    service.matchSeasonEpisode db e season = some x ↔
      db.OnlyOne (fun m => AtCoordinates e m ∧ m.parentId = some season ∧
        service.KnownElsewhere db m.id) x := by
  refine Database.single_filter_iff (fun m => ?_) hx
  rw [Bool.and_eq_true, any_knownElsewhere, ← and_assoc]
  refine and_congr_left fun _ => ?_
  simp only [AtCoordinates, Bool.and_eq_true, beq_iff_eq]
  tauto

theorem matchWithoutIdentifiers_iff (he : item.episode? = some e) (hx : x ∈ db.mediaItems.rows) :
    service.matchWithoutIdentifiers db item = some x ↔ service.FoundByCoordinates db item e x := by
  unfold matchWithoutIdentifiers FoundByCoordinates
  rw [he]
  dsimp only
  generalize db.byExternalIdentity service.sourceId (item.seasonReferenceId e) = reference
  rcases reference with _ | season
  · exact matchCrossSourceEpisode_iff hx
  · exact matchSeasonEpisode_iff hx _

end Queries

/-- The source shows under a new id an item that the catalog has as `x`: all its references on the
source are unavailable, its identifiers are those of `x` and of no other item, and neither its files
nor its hierarchy speak against `x`. -/
structure ComesBack (service : MediaPersistenceService) (db : Database) (item : MediaFields)
    (x : MediaItem) : Prop where
  mem : x ∈ db.mediaItems.rows
  kind : x.kind = item.kind
  leaf : item.kind = .movie ∨ item.kind = .episode
  new : db.byExternalIdentity service.sourceId item.externalId = none
  known : ∃ r ∈ db.sourceMediaRefs.rows, r.sourceId = service.sourceId ∧ r.mediaItemId = x.id
  gone : ∀ r ∈ db.sourceMediaRefs.rows, r.sourceId = service.sourceId → r.mediaItemId = x.id →
    r.available = false
  identified : db.mediaIdsForKind item.kind item.identifiers = [x.id]
  unclaimed : ∀ m, service.matchByPhysicalPath db item = some m → m = x
  undisputed : service.physicalEvidenceDisagrees db item x.id = false
  fits : service.compatible db item x = true

/-- `persist_media` takes the item for `x`, and where it goes through, the item is bound to `x`. -/
structure Binds (service : MediaPersistenceService) (item : ExternalMediaItem) (observedAt : Time)
    (s : PersistSession) (x : MediaItem) : Prop where
  matched : (service.matchMedia item.toMediaFields none).Returns s (some x) s
  bound : ∀ result s', (service.persistMedia item observedAt).Returns s result s' →
    result.mediaItemId = x.id ∧
    result.classification = .updated ∧ s'.store.Shown service.sourceId item.externalId x.id

/-- A movie; or an episode to which the files or the coordinates lead over another source. -/
def FoundAgain (service : MediaPersistenceService) (db : Database) (item : MediaFields)
    (x : MediaItem) : Prop :=
  ∀ e, item.episode? = some e → db.OnlyOne (service.SharesFile db item) x ∨
    service.FoundByCoordinates db item e x

section Match
variable {service db item} {s : PersistSession} {x : MediaItem}

theorem returns_matchMedia {m : MediaItem}
    (hm : service.physicalEvidenceDisagrees s.store item m.id = false) :
    (service.matchMedia item none).Returns s (some m) s ↔
    (service.matchByAny item).Returns s (some m) s := by
  have hnone : (none : Option SourceMediaRef).isSome = false := rfl
  unfold matchMedia
  rw [hnone, if_neg Bool.false_ne_true, returns_bind]
  constructor
  · rintro ⟨matched, u, hmatched, hkept⟩
    obtain ⟨hkept, rfl⟩ := returns_read.1 hkept
    rw [(Option.filter_eq_some_iff.1 hkept.symm).1] at hmatched
    exact hmatched
  · intro h
    refine ⟨some m, s, h, returns_read.2 ⟨?_, rfl⟩⟩
    simp [Option.filter, hm]

theorem ComesBack.get? (h : ComesBack service db item x) : db.mediaItems.get? x.id = some x :=
  Table.get?_of_mem h.mem

/-- A movie is found by its identifiers. -/
theorem ComesBack.returns_movie (h : ComesBack service s.store item x)
    (hkind : item.kind = .movie) :
    (service.matchByIdentifiers item).Returns s (some x) s := by
  have hmatches : service.identifierMatches s.store item = [x.id] := by
    have hepisode : item.kind ≠ .episode := by rw [hkind]; decide
    unfold identifierMatches
    dsimp only
    rw [if_neg hepisode, h.identified]
  unfold matchByIdentifiers
  rw [returns_read_bind, hmatches]
  refine returns_bind.2 ⟨x, s, ?_, ?_⟩
  · unfold requiredMedia
    rw [returns_read_bind, h.get?]
    exact returns_pure.2 ⟨rfl, rfl⟩
  · rw [returns_read_bind, h.fits]
    exact returns_pure.2 ⟨rfl, rfl⟩

/-- An episode is not: the identifiers lead to an item of the same source. -/
theorem ComesBack.returns_episode (h : ComesBack service s.store item x)
    (hkind : item.kind = .episode) :
    (service.matchByIdentifiers item).Returns s (some x) s ↔
    service.matchWithoutIdentifiers s.store item = some x := by
  have hmatches : service.identifierMatches s.store item = [] := by
    obtain ⟨r, hr, hsource, hitem⟩ := h.known
    unfold identifierMatches
    dsimp only
    rw [if_pos hkind, h.identified, List.filter_eq_nil_iff]
    intro i hi
    rw [List.mem_singleton.1 hi, Bool.not_eq_true', Bool.not_eq_false, List.any_eq_true]
    exact ⟨r, hr, by rw [hsource, hitem, beq_self_eq_true, beq_self_eq_true]; rfl⟩
  unfold matchByIdentifiers
  rw [returns_read_bind, hmatches]
  exact returns_read.trans (and_iff_left rfl |>.trans eq_comm)

theorem returns_matchByAny : (service.matchByAny item).Returns s (some x) s ↔
    service.matchByPhysicalPath s.store item = some x ∨
      service.matchByPhysicalPath s.store item = none ∧
      (service.matchByIdentifiers item).Returns s (some x) s := by
  unfold matchByAny
  rw [returns_read_bind]
  generalize service.matchByPhysicalPath s.store item = found
  rcases found with _ | m
  · simp
  · rw [returns_pure]
    simp [eq_comm]

/-- The files or the identifiers lead to `x`; where the files lead anywhere, it is to `x`. -/
theorem ComesBack.returns_matchMedia_iff (h : ComesBack service s.store item x) :
    (service.matchMedia item none).Returns s (some x) s ↔
      service.matchByPhysicalPath s.store item = some x ∨
      (service.matchByIdentifiers item).Returns s (some x) s := by
  rw [returns_matchMedia h.undisputed, returns_matchByAny]
  constructor
  · exact Or.imp_right And.right
  · rintro (hfile | hids)
    · exact .inl hfile
    · rcases hfound : service.matchByPhysicalPath s.store item with _ | m
      · exact .inr ⟨rfl, hids⟩
      · exact .inl (congrArg some (h.unclaimed m hfound))

end Match

theorem ComesBack.matched_iff {service : MediaPersistenceService} {item : ExternalMediaItem}
    {s : PersistSession} {x : MediaItem} (h : ComesBack service s.store item.toMediaFields x) :
    (service.matchMedia item.toMediaFields none).Returns s (some x) s ↔
      FoundAgain service s.store item.toMediaFields x := by
  rw [h.returns_matchMedia_iff, matchByPhysicalPath_iff h.mem h.fits]
  rcases h.leaf with hkind | hkind
  · refine iff_of_true (.inr (h.returns_movie hkind)) fun e he => ?_
    rw [MediaFields.kind_of_episode? he] at hkind
    cases hkind
  · obtain ⟨e, he⟩ := Option.isSome_iff_exists.1 (item.isSome_episode?.2 hkind)
    rw [h.returns_episode hkind, matchWithoutIdentifiers_iff he h.mem]
    constructor
    · intro hfound e' he'
      obtain rfl : e = e' := Option.some_inj.1 (he.symm.trans he')
      exact hfound
    · intro hfound
      exact hfound e he

/-! ### The binding -/

section Binding
variable {service item} {observedAt : Time}

theorem addMedia_matched (m : MediaItem) (parent : Option Nat) (P : Database → Prop) :
    (service.addMedia item observedAt (some m) parent).Ensures P fun persisted _ =>
      persisted.media = m.id ∧ persisted.classification = .updated := by
  intro s persisted s' _ h
  obtain ⟨_, _, _, h⟩ := returns_bind.1 h
  obtain ⟨reference, _, _, h⟩ := returns_bind.1 h
  obtain ⟨rfl, -⟩ := returns_pure.1 h
  exact ⟨rfl, rfl⟩

theorem persistPlayback_result (persisted : Persisted) (P : Database → Prop) :
    (service.persistPlayback item observedAt persisted).Ensures P fun result _ =>
      result.mediaItemId = persisted.media ∧ result.classification = persisted.classification := by
  intro s result s' _ h
  obtain ⟨_, _, _, h⟩ := returns_bind.1 h
  rw [returns_read_bind] at h
  obtain ⟨_, _, _, h⟩ := returns_bind.1 h
  obtain ⟨eventInserted, _, _, h⟩ := returns_bind.1 h
  obtain ⟨rfl, -⟩ := returns_pure.1 h
  exact ⟨rfl, rfl⟩

end Binding

section Runs
variable {service : MediaPersistenceService} {item : ExternalMediaItem} {observedAt : Time}
  {s s' : PersistSession} {x : MediaItem}

/-- What `persist_media` matches a new item with is what the item becomes. -/
theorem persistMedia_matched {result : PersistResult}
    (hnew : s.store.byExternalIdentity service.sourceId item.externalId = none)
    (hmatched : (service.matchMedia item.toMediaFields none).Returns s (some x) s)
    (h : (service.persistMedia item observedAt).Returns s result s') :
    result.mediaItemId = x.id ∧ result.classification = .updated := by
  unfold persistMedia at h
  rw [returns_read_bind, hnew] at h
  obtain ⟨matched, u, hsame, h⟩ := returns_bind.1 h
  obtain ⟨rfl, rfl⟩ : some x = matched ∧ s = u := by
    have hrun := hmatched.symm.trans hsame
    rwa [Prod.mk.injEq, Except.ok.injEq] at hrun
  obtain ⟨parent, _, _, h⟩ := returns_bind.1 h
  obtain ⟨_, _, _, h⟩ := returns_bind.1 h
  obtain ⟨persisted, u, hstored, h⟩ := returns_bind.1 h
  obtain ⟨_, v, _, h⟩ := returns_bind.1 h
  obtain ⟨hmedia, hclass⟩ := addMedia_matched x parent (fun _ => True) _ persisted u trivial hstored
  obtain ⟨hmedia', hclass'⟩ :=
    persistPlayback_result persisted (fun _ => True) v result s' trivial h
  exact ⟨hmedia'.trans hmedia, hclass'.trans hclass⟩

/-- A movie or episode of which a source has retired references only comes back under a new id as
the same item exactly when it is a movie, or an episode that another source leads to by its files or
its coordinates. -/
theorem binds_iff_foundAgain (h : ComesBack service s.store item.toMediaFields x) :
    Binds service item observedAt s x ↔ FoundAgain service s.store item.toMediaFields x := by
  refine ⟨fun hbinds => h.matched_iff.1 hbinds.matched, fun hfound =>
    ⟨h.matched_iff.2 hfound, fun result s' hreturns => ?_⟩⟩
  obtain ⟨hid, hclass⟩ := persistMedia_matched h.new (h.matched_iff.2 hfound) hreturns
  have hleaf : item.kind.isContainer = false := by
    rcases h.leaf with hkind | hkind <;> rw [hkind] <;> rfl
  have hpersisted :=
    service.persistMedia_ensures item hleaf observedAt s.store s result s' rfl hreturns
  exact ⟨hid, hclass, hid ▸ hpersisted.shown⟩

end Runs

end MediaPersistenceService

section Example

open MediaPersistenceService

def numberedEpisode (externalId showId : String) : ExternalMediaItem where
  externalId := externalId
  libraryExternalId := "1"
  kind := .episode
  title := "a"
  showExternalId := some showId
  showTitle := some "b"
  seasonNumber := some 1
  episodeNumber := some 1
  identifiers := [⟨"tvdb", "9"⟩]
  complete := by simp [MediaFields.Complete]

def numberedMovie (externalId : String) : ExternalMediaItem where
  externalId := externalId
  libraryExternalId := "1"
  kind := .movie
  title := "a"
  identifiers := [⟨"tmdb", "603"⟩]
  complete := by simp [MediaFields.Complete]

/-- An item of a server that has been replaced since. -/
def replacedServer (item : ExternalMediaItem) : Database :=
  ServerRows.retireReferences .plain 1 1 1
    (CatalogCall.apply .empty (.persist (plainService 1) [] item 0))

/-- The last row of the catalog, which is the item itself. -/
def lastMedia (db : Database) : MediaItem :=
  db.mediaItems.rows.getLast?.getD { id := 0, kind := .movie }

theorem comesBack_movie : ComesBack (plainService 1) (replacedServer (numberedMovie "m"))
    (numberedMovie "n").toMediaFields
    (lastMedia (replacedServer (numberedMovie "m"))) :=
  ⟨by decide +kernel, by decide +kernel, by decide +kernel, by decide +kernel, by decide +kernel, by
    decide +kernel,
    by decide +kernel, fun m hm => (nomatch hm), by decide +kernel, by decide +kernel⟩

theorem replaced_movie_bound :
    Binds (plainService 1) (numberedMovie "n") 2 ⟨replacedServer (numberedMovie "m"), []⟩
    (lastMedia (replacedServer (numberedMovie "m"))) :=
  (binds_iff_foundAgain comesBack_movie).2 fun e he => by cases he

theorem comesBack_episode : ComesBack (plainService 1) (replacedServer (numberedEpisode "e" "s"))
    (numberedEpisode "n" "t").toMediaFields
      (lastMedia (replacedServer (numberedEpisode "e" "s"))) :=
  ⟨by decide +kernel, by decide +kernel, by decide +kernel, by decide +kernel, by decide +kernel, by
    decide +kernel,
    by decide +kernel, fun m hm => (nomatch hm), by decide +kernel, by decide +kernel⟩

/-- The episode of the replaced server is a second item. -/
theorem replaced_episode_split :
    ComesBack (plainService 1) (replacedServer (numberedEpisode "e" "s"))
    (numberedEpisode "n" "t").toMediaFields
      (lastMedia (replacedServer (numberedEpisode "e" "s"))) ∧
    ¬ Binds (plainService 1)
    (numberedEpisode "n" "t") 2 ⟨replacedServer (numberedEpisode "e" "s"), []⟩
      (lastMedia (replacedServer (numberedEpisode "e" "s"))) ∧
    ∃ result s', ((plainService 1).persistMedia (numberedEpisode "n" "t") 2).Returns
      ⟨replacedServer (numberedEpisode "e" "s"), []⟩ result s' ∧ result.classification = .inserted ∧
      result.mediaItemId ≠ (lastMedia (replacedServer (numberedEpisode "e" "s"))).id := by
  have hrun : (((plainService 1).persistMedia (numberedEpisode "n" "t") 2).run
      ⟨replacedServer (numberedEpisode "e" "s"), []⟩).1 =
        .ok { classification := .inserted, mediaItemId := 4 } := by
    decide +kernel
  have hother : 4 ≠ (lastMedia (replacedServer (numberedEpisode "e" "s"))).id := by decide +kernel
  refine ⟨comesBack_episode, fun hbinds => ?_, _, _, Prod.ext hrun rfl, rfl, hother⟩
  exact hother (hbinds.bound _ _ (Prod.ext hrun rfl)).1

end Example

end Euvieouvi
