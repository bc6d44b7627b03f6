import Euvieouvi.Catalog.Forest

/-!
# Manual matches

`apply_manual_match` (`sync/manual_match.py`): what a person confirmed about a movie or a show
replaces what the sources say about it, and items that share the confirmed identifiers are merged
into it at once.
-/

namespace Euvieouvi

/-- `EnrichedMetadata`, without the provider of its poster. -/
structure EnrichedMetadata where
  summary : Option String := none
  tagline : Option String := none
  studio : Option String := none
  audienceRating : Option Rat := none
  genres : List String := []
  posterUrl : Option String := none
deriving DecidableEq, Repr

/-- `TmdbMatch`; `_tmdb_match` refuses one without identity. -/
structure TmdbMatch where
  externalId : String
  title : String
  originalTitle : Option String := none
  year : Option Nat := none
  metadata : EnrichedMetadata := {}
  backdropUrl : Option String := none
  identifiers : List ExternalIdentifier := []
  identified : externalId ≠ ""
deriving DecidableEq, Repr

inductive MatchError
  | unknownItem
  | unsupportedKind
  | integrity (constraint : String)
deriving DecidableEq, Repr

def MatchError.text : MatchError → String
  | .unknownItem => "404"
  | .unsupportedKind => "Manual TMDB matching supports movies and shows only"
  | .integrity name => s!"UNIQUE constraint failed: {name}"

/-- The columns `apply_manual_match` assigns. -/
def MediaItem.assignMatch (m : MediaItem) (found : TmdbMatch) : MediaItem :=
  { m with
    manualMatchTmdbId := some found.externalId
    title := found.title
    originalTitle := found.originalTitle
    year := found.year
    sortTitle := none
    summary := found.metadata.summary
    tagline := found.metadata.tagline
    studio := found.metadata.studio
    audienceRating := found.metadata.audienceRating }

namespace Database

/-- The new identifiers of the item instead of the old ones. -/
def replaceIdentifiers (now : Time) (item : Nat) (identifiers : List ExternalIdentifier)
    (db : Database) : Database :=
  identifiers.foldl (fun (db : Database) v => db.insertMediaIdentifier
    ⟨db.mediaIdentifiers.nextId, item, v.provider, v.externalId, now⟩)
      (db.deleteMediaIdentifiers (·.mediaItemId == item))

/-- One genre of the match; `uq_media_genres_identity` refuses a second link to one genre. -/
def linkMatchGenre (py : PyLib) (item : Nat) (db : Database) (name : String) :
    Except MatchError Database :=
  let normalized := py.casefold (py.strip name)
  let (genreId, genres) := match db.genres.rows.find? (·.normalizedName == normalized) with
    | some genre => (genre.id, db.genres)
    | none => (db.genres.nextId, db.genres.insert ⟨db.genres.nextId, py.strip name, normalized⟩)
  if db.mediaGenres.rows.any fun link => link.mediaItemId == item && link.genreId == genreId then
    .error (.integrity "media_genres.media_item_id, media_genres.genre_id")
  else
    .ok { db with
      genres := genres,
      mediaGenres := db.mediaGenres.insert ⟨db.mediaGenres.nextId, item, genreId⟩ }

def matchImage (now : Time) (id item : Nat) (imageType url : String) : MediaImage where
  id := id
  mediaItemId := item
  imageType := imageType
  provider := "tmdb"
  sourceUrl := some url
  updatedAt := now

/-- An image of the match instead of the one of the item. -/
def replaceMatchImage (now : Time) (item : Nat) (db : Database)
    (image : String × Option String) : Database :=
  let old := db.byItemAndType item image.1
  let kept := db.mediaImages.delete fun i => old.any (·.id == i.id)
  match image.2.filter (· ≠ "") with
  | some url => { db with mediaImages := kept.insert (matchImage now kept.nextId item image.1 url) }
  | none => { db with mediaImages := kept }

/-- The rows of the item after a match, before anything is merged. -/
def assignMatch (py : PyLib) (now : Time) (item : Nat) (found : TmdbMatch) (db : Database) :
    Except MatchError Database := do
  let titled := db.saveMediaItem now item ⟨fun m => m.assignMatch found, fun _ => rfl⟩
  if !decide found.identifiers.Nodup then
    .error (.integrity
      "media_identifiers.media_item_id, media_identifiers.provider, media_identifiers.external_id")
  else
    let identified := titled.replaceIdentifiers now item found.identifiers
    let cleared := { identified with
      enrichmentRecords := identified.enrichmentRecords.delete (·.mediaItemId == item)
      mediaGenres := identified.mediaGenres.delete (·.mediaItemId == item) }
    let genred ← found.metadata.genres.foldlM (linkMatchGenre py item) cleared
    let images := [("poster", found.metadata.posterUrl), ("backdrop", found.backdropUrl)]
    return (images.foldl (replaceMatchImage now item) genred).markProjectionStale

/-- `apply_manual_match`. -/
def applyManualMatch (py : PyLib) (now : Time) (item : Nat) (found : TmdbMatch) (db : Database) :
    Except MatchError (Database × List MergeStep) :=
  match db.mediaItems.get? item with
  | none => .error .unknownItem
  | some m =>
    if m.kind ≠ .movie ∧ m.kind ≠ .show then .error .unsupportedKind
    else do
      let assigned ← db.assignMatch py now item found
      return assigned.reconcileMatchingItems now m.kind found.identifiers (some item)

section Writes
variable {db db' : Database} {py : PyLib} {now : Time} {item : Nat} {found : TmdbMatch}

/-- The tables of what a match says about an item and that identifies nothing. -/
abbrev matchTables : List TableName := [.genres, .mediaGenres, .mediaImages, .enrichmentRecords]

theorem linkMatchGenre_frame {name : String} (h : linkMatchGenre py item db name = .ok db') :
    Frame matchTables db db' := by
  unfold linkMatchGenre at h
  dsimp only at h
  generalize (match db.genres.rows.find? (·.normalizedName == py.casefold (py.strip name)) with
    | some genre => (genre.id, db.genres)
    | none =>
      (db.genres.nextId, db.genres.insert
        ⟨db.genres.nextId, py.strip name, py.casefold (py.strip name)⟩)) = found at h
  split at h
  · cases h
  · rw [← Except.ok.inj h]
    exact fun table hw => by cases table <;> first | rfl | exact absurd (by decide) hw

theorem linkMatchGenres_frame (names : List String) (db : Database)
    (h : names.foldlM (linkMatchGenre py item) db = Except.ok db') : Frame matchTables db db' := by
  induction names generalizing db with
  | nil =>
    cases h
    exact .refl _
  | cons name names ih =>
    rw [List.foldlM_cons] at h
    cases hlink : linkMatchGenre py item db name with
    | error e => rw [hlink] at h; cases h
    | ok linked =>
      rw [hlink] at h
      exact (linkMatchGenre_frame hlink).trans (ih linked h)

theorem replaceMatchImage_frame (image : String × Option String) (db : Database) :
    Frame matchTables db (replaceMatchImage now item db image) := by
  unfold replaceMatchImage
  dsimp only
  split <;> exact fun table hw => by cases table <;> first | rfl | exact absurd (by decide) hw

/-- Besides the row and the identifiers of the item, a match writes no table of identity. -/
theorem assignMatch_spec (h : db.assignMatch py now item found = .ok db') :
    Frame matchTables
      ((db.saveMediaItem now item ⟨fun m => m.assignMatch found, fun _ => rfl⟩).replaceIdentifiers
        now item found.identifiers) db' := by
  unfold assignMatch at h
  dsimp only at h
  split at h
  · cases h
  generalize (db.saveMediaItem now item
    ⟨fun m => m.assignMatch found, fun _ => rfl⟩).replaceIdentifiers now item
    found.identifiers = identified at h ⊢
  cases hgenres : found.metadata.genres.foldlM (linkMatchGenre py item) ({ identified with
      enrichmentRecords := identified.enrichmentRecords.delete (·.mediaItemId == item)
      mediaGenres := identified.mediaGenres.delete (·.mediaItemId == item) } : Database) with
  | error e => rw [hgenres] at h; cases h
  | ok genred =>
    rw [hgenres] at h
    have hdb : (([("poster", found.metadata.posterUrl), ("backdrop", found.backdropUrl)].foldl
        (replaceMatchImage now item) genred).markProjectionStale) = db' := Except.ok.inj h
    have hgenred := linkMatchGenres_frame _ _ hgenres
    have himages : Frame matchTables genred
        ([("poster", found.metadata.posterUrl), ("backdrop", found.backdropUrl)].foldl
        (replaceMatchImage now item) genred) :=
          (replaceMatchImage_frame _ genred).trans (replaceMatchImage_frame _ _)
    have hcleared : Frame matchTables identified { identified with
        enrichmentRecords := identified.enrichmentRecords.delete (·.mediaItemId == item)
        mediaGenres := identified.mediaGenres.delete (·.mediaItemId == item) } :=
      fun table hw => by cases table <;> first | rfl | exact absurd (by decide) hw
    rw [← hdb]
    refine ((hcleared.trans hgenred).trans himages).trans fun table _ => ?_
    cases table <;> rfl

end Writes

end Database

end Euvieouvi
