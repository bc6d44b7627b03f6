import Euvieouvi.Lib.Caches
import Euvieouvi.Persist.Pages
import Euvieouvi.Persist.References

/-!
# The keys an item needs

Before a call of `persist_media`, the item and the database tell which keys it is going to ask the
caches for: the identifiers of its show and its own, each with the id of the catalog item they are
stored under, and the show whose metadata it carries.
-/

namespace Euvieouvi

open Program Database

theorem keeps_requiredMedia {I : Database → Prop} (i : Nat) :
    Keeps I (MediaPersistenceService.requiredMedia i) := by
  refine .bind (.read _) fun m => ?_
  split
  exacts [.pure _, .fail _]

namespace MediaPersistenceService
variable (service : MediaPersistenceService)

/-- The entry of `_synced_identifier_sets` for these identifiers. -/
def identifierKeys (media : Nat) (identifiers : List ExternalIdentifier) : List CacheKey :=
  if identifiers = [] then [] else [.identifierSet media (sortedIdentifiers identifiers)]

/-- The item that `_ensure_container` finds or makes for a container. -/
def containerAt (c : Container) (s : PersistSession) : Option Nat :=
  match s.store.byExternalIdentity service.sourceId c.externalId with
  | some reference => some reference.mediaItemId
  | none =>
    match (service.matchContainer c).run s with
    | (.ok found, s) => some (found.getD s.store.mediaItems.nextId)
    | (.error _, _) => none

def containerKeys (c : Container) (s : PersistSession) : List CacheKey :=
  ((service.containerAt c s).map fun media => identifierKeys media c.identifiers).getD []

/-- What `_ensure_hierarchy` asks for: the seasons, artists and albums have no identifiers. -/
def showKeys (item : MediaFields) (matched : Option MediaItem) (s : PersistSession) :
    List CacheKey :=
  match item.episode?, matched with
  | some e, none => service.containerKeys (showContainer item e) s
  | _, _ => []

/-- The show of an episode with metadata, once its hierarchy is ensured. -/
def metadataKeys (item : ExternalMediaItem) (parent : Option Nat) (db : Database) : List CacheKey :=
  match item.showMetadata, parent.bind db.mediaItems.get? with
  | some _, some season => ((db.mediaItems.get? (season.parentId.getD 0)).map fun «show» =>
      [CacheKey.showMetadata «show».id]).getD []
  | _, _ => []

/-- The identifiers of the item itself. -/
def leafKeys (item : MediaFields) (known : Option SourceMediaRef) (matched : Option MediaItem)
    (db : Database) :
    List CacheKey :=
  identifierKeys (((known.map (·.mediaItemId)).or (matched.map (·.id))).getD db.mediaItems.nextId)
    item.identifiers

/-- The keys that `persist_media` may ask for in a session. -/
def neededKeys (item : ExternalMediaItem) (observedAt : Time) (s : PersistSession) :
    List CacheKey :=
  let known := s.store.byExternalIdentity service.sourceId item.externalId
  match (service.matchMedia item.toMediaFields known).run s with
  | (.error _, _) => []
  | (.ok matched, s) => service.showKeys item.toMediaFields matched s ++
      match (service.ensureHierarchy item.toMediaFields observedAt matched).run s with
      | (.error _, _) => []
      | (.ok parent, s) =>
        metadataKeys item parent s.store ++ leafKeys item.toMediaFields known matched s.store

/-- The identities that `_reconcile_persisted_item` looks up. -/
def identityKeys (item : MediaFields) (includeLeaf : Bool) : List CacheKey :=
  let identityKey (kind : MediaKind) (identifiers : List ExternalIdentifier) : List CacheKey :=
    if identifiers = [] then [] else [.catalogIdentity kind (sortedIdentifiers identifiers)]
  (if includeLeaf then identityKey item.kind item.identifiers else []) ++
    if item.kind = .episode then identityKey .show item.showIdentifiers else []

theorem silent_requiredMedia (i : Nat) : Silent (requiredMedia i) := fun media => by
  cases media
  exacts [.fail _, .pure _]

theorem silent_addReference (reference : SourceMediaRef) : Silent (addReference reference) :=
  .bind (.read _) fun _ =>
    .ite (.fail _) (.bind (.read _) fun _ => .bind (.write _) fun _ => .pure _)

theorem silent_matchContainer (c : Container) : Silent (service.matchContainer c) := by
  refine .bind (.bind (.read _) fun found => .bind (.read _) fun titled => ?_) fun found => ?_
  · split
    exacts [.pure _, .pure _, .fail _]
  · split
    · exact .pure _
    · refine .ite (.pure _) (.bind (.read _) fun candidates => .bind (.read _) fun owned => ?_)
      split
      exacts [.pure _, .pure _, .pure _, .fail _]

theorem silent_matchMedia (item : MediaFields) (known : Option SourceMediaRef) :
    Silent (service.matchMedia item known) := by
  refine .ite (.pure _) (.bind (.bind (.read _) fun matched => ?_) fun _ => .read _)
  split
  · exact .pure _
  · refine .bind (.read _) fun found => ?_
    split
    · exact .read _
    · exact .bind (silent_requiredMedia _) fun _ => .bind (.read _) fun _ => .pure _
    · exact .ite (.pure _) (.fail _)

theorem silent_bindExistingContainer (media : Nat) (externalId : String) (path : Option String)
    (genres : List String)
    (observedAt : Time) :
    Silent (service.bindExistingContainer media externalId path genres observedAt) := by
  refine .bind (.bind (.read _) fun reference => ?_) fun _ => .bind (.write _) fun _ => .write _
  split
  · exact .ite (.fail _) (.write _)
  · exact .bind (silent_addReference _) fun _ => .pure _

theorem silent_bindExistingEpisodeHierarchy (item : MediaFields) (e : EpisodeFields)
    (episode : MediaItem)
    (observedAt : Time) : Silent (service.bindExistingEpisodeHierarchy item e episode observedAt) :=
  .bind (silent_requiredMedia _) fun _ => .bind (silent_requiredMedia _) fun _ => .ite (.fail _) <|
    .bind (.write _) fun _ => .bind (service.silent_bindExistingContainer _ _ _ _ _) fun _ =>
      .bind (service.silent_bindExistingContainer _ _ _ _ _) fun _ => .pure _

theorem silent_ensureKnownAlbum (item : MediaFields) (t : TrackFields) (reference : SourceMediaRef)
    (observedAt : Time) :
    Silent (service.ensureKnownAlbum item t reference observedAt) :=
  .bind (.write _) fun _ => .bind (silent_requiredMedia _) fun _ => .ite (.fail _) <|
    .bind (.write _) fun _ => .bind (.write _) fun _ => .bind (.write _) fun _ => .pure _

theorem silent_storeMedia (item : MediaFields) (observedAt : Time) (known : Option SourceMediaRef)
    (matched : Option MediaItem) (parent : Option Nat) :
    Silent (service.storeMedia item observedAt known matched parent) := by
  unfold storeMedia
  split
  · unfold addMedia
    split
    · exact .bind (.write _) fun _ => .bind (silent_addReference _) fun _ => .pure _
    · exact .bind (.read _) fun _ => .bind (.write _) fun _ =>
        .bind (silent_addReference _) fun _ => .pure _
  · exact .bind (silent_requiredMedia _) fun _ => .bind (.write _) fun _ =>
      .bind (.write _) fun _ => .pure _

theorem silent_flushIdentifiers (item : Nat) (pending : PendingIdentifiers) :
    Silent (service.flushIdentifiers item pending) :=
  .bind (.read _) fun _ => .ite (.fail _) (.bind (.write _) fun _ => .pure _)

theorem silent_syncIdentifier (item : Nat) (existing : List MediaIdentifier)
    (pending : PendingIdentifiers)
    (identifier : ExternalIdentifier) :
    Silent (service.syncIdentifier item existing pending identifier) :=
  .bind (.read _) fun _ => .bind (.ite (service.silent_flushIdentifiers _ _) (.pure _)) fun _ =>
    .ite (.pure _) (.pure _)

theorem silent_persistEvent (event : ExternalWatchEvent) (origin : EventOrigin) :
    Silent (service.persistEvent event origin) := by
  refine .ite (.pure _) (.bind (.read _) fun reference => ?_)
  split
  · exact .fail _
  · refine .bind (.read _) fun existing => ?_
    split
    · exact .ite (.fail _)
        (.bind (.read _) fun _ => .ite (.fail _) (.bind (.write _) fun _ => .pure _))
    · exact .bind (.read _) fun _ => .ite (.pure _) (.bind (.write _) fun _ => .pure _)

theorem silent_persistPlayback (item : MediaFields) (observedAt : Time) (persisted : Persisted) :
    Silent (service.persistPlayback item observedAt persisted) := by
  refine .bind (.bind (.read _) fun pending => .forM _ fun w =>
    .bind (service.silent_persistEvent _ _) fun _ => .pure _)
    fun _ => .bind (.read _) fun _ => .bind (.write _) fun _ => .bind ?_ fun _ => .pure _
  unfold persistStateEvent
  split
  exacts [service.silent_persistEvent _ _, .pure _]

/-! ### What a call asks for -/

section Consults
variable {key : CacheKey} {s : PersistSession}

theorem flat_syncIdentifierValues (media : Nat) (identifiers : List ExternalIdentifier) :
    Flat (service.syncIdentifierValues media identifiers) :=
  .bind (Silent.read _).flat fun _ => .ite (Silent.pure _).flat <| .bind (.cached _) fun _ =>
    .ite (Silent.pure _).flat <|
    .bind (Silent.read _).flat fun _ =>
      .bind (Silent.foldlM _ (service.silent_syncIdentifier _ _) _).flat fun _ =>
      .bind (.enter _) fun _ => .bind (service.silent_flushIdentifiers _ _).flat fun _ =>
        (Silent.pure _).flat

theorem consults_syncIdentifierValues {media : Nat} {identifiers : List ExternalIdentifier}
    (h : key ∈ (service.syncIdentifierValues media identifiers).consults s) :
    key ∈ identifierKeys media identifiers := by
  obtain ⟨skip, s, hskip, h⟩ := (Silent.read _).mem_consults_bind.1 h
  obtain ⟨rfl, rfl⟩ := returns_read.1 hskip
  split at h
  · cases h
  next hsome =>
    rw [Bool.or_eq_true, not_or, List.isEmpty_iff] at hsome
    rw [identifierKeys, if_neg hsome.2, List.mem_singleton]
    rcases mem_consults_bind.1 h with h | ⟨known, s, -, h⟩
    · exact List.mem_singleton.1 h
    · split at h
      · cases h
      · obtain ⟨_, s, -, h⟩ := (Silent.read _).mem_consults_bind.1 h
        obtain ⟨_, s, -, h⟩ :=
          (Silent.foldlM _ (service.silent_syncIdentifier _ _) _).mem_consults_bind.1 h
        rcases mem_consults_bind.1 h with h | ⟨_, s, -, h⟩
        · cases h
        · rw [((service.silent_flushIdentifiers _ _).bind fun _ => .pure _).consults_eq_nil] at h
          cases h

theorem flat_ensureContainer (c : Container) (observedAt : Time) :
    Flat (service.ensureContainer c observedAt) := by
  refine .bind (Silent.read _).flat fun reference => ?_
  split
  · refine .bind (Silent.write _).flat fun _ => .bind (silent_requiredMedia _).flat fun _ =>
      .ite (Silent.fail _).flat ?_
    exact .bind (Silent.write _).flat fun _ => .bind (Silent.write _).flat fun _ =>
      .bind (service.flat_syncIdentifierValues _ _) fun _ => (Silent.pure _).flat
  · refine .bind (service.silent_matchContainer c).flat fun found => ?_
    split
    · exact .bind (service.silent_bindExistingContainer _ _ _ _ _).flat fun _ =>
        .bind (service.flat_syncIdentifierValues _ _) fun _ => (Silent.pure _).flat
    · exact .bind (Silent.read _).flat fun _ => .bind (Silent.write _).flat fun _ =>
        .bind (silent_addReference _).flat fun _ =>
        .bind (Silent.write _).flat fun _ => .bind (Silent.write _).flat fun _ =>
          .bind (service.flat_syncIdentifierValues _ _) fun _ => (Silent.pure _).flat

theorem requiredMedia_returns {i : Nat} {media : MediaItem} {s s' : PersistSession}
    (h : (requiredMedia i).Returns s media s') : s.store.mediaItems.get? i = some media ∧
    s' = s := by
  have hread := returns_read_bind.1 h
  split at hread
  next found hfound =>
    obtain ⟨rfl, rfl⟩ := returns_pure.1 hread
    exact ⟨hfound, rfl⟩
  next => exact absurd hread returns_fail

theorem mem_consults_requiredMedia_bind {α : Type} {i : Nat} {f : MediaItem → Persist α}
    (h : key ∈ (requiredMedia i >>= f).consults s) :
    ∃ media, s.store.mediaItems.get? i = some media ∧ key ∈ (f media).consults s := by
  obtain ⟨media, u, hmedia, hrest⟩ := (silent_requiredMedia _).mem_consults_bind.1 h
  obtain ⟨hfound, rfl⟩ := requiredMedia_returns hmedia
  exact ⟨media, hfound, hrest⟩

/-- What follows the last query of a call asks for nothing. -/
theorem consults_syncIdentifierValues_bind {α : Type} {media : Nat}
    {identifiers : List ExternalIdentifier} {f : Unit → Persist α} (hf : ∀ u, Silent (f u))
    (h : key ∈ (service.syncIdentifierValues media identifiers >>= f).consults s) :
    key ∈ identifierKeys media identifiers := by
  rcases mem_consults_bind.1 h with h | ⟨u, s, -, h⟩
  · exact service.consults_syncIdentifierValues h
  · rw [(hf u).consults_eq_nil] at h
    cases h

theorem consults_ensureContainer {c : Container} {observedAt : Time}
    (h : key ∈ (service.ensureContainer c observedAt).consults s) :
    key ∈ service.containerKeys c s := by
  obtain ⟨reference, s, hread, h⟩ := (Silent.read _).mem_consults_bind.1 h
  obtain ⟨rfl, rfl⟩ := returns_read.1 hread
  unfold containerKeys containerAt
  cases hreference : s.store.byExternalIdentity service.sourceId c.externalId with
  | some reference =>
    rw [hreference] at h
    obtain ⟨_, u, -, h⟩ := (Silent.write _).mem_consults_bind.1 h
    obtain ⟨media, u, hmedia, h⟩ := (silent_requiredMedia _).mem_consults_bind.1 h
    split at h
    · cases h
    · obtain ⟨_, u, -, h⟩ := (Silent.write _).mem_consults_bind.1 h
      obtain ⟨_, u, -, h⟩ := (Silent.write _).mem_consults_bind.1 h
      have hid : media.id = reference.mediaItemId :=
        Table.key_of_get? (requiredMedia_returns hmedia).1
      rw [hid] at h
      exact service.consults_syncIdentifierValues_bind (fun _ => .pure _) h
  | none =>
    rw [hreference] at h
    obtain ⟨found, u, hfound, h⟩ := (service.silent_matchContainer c).mem_consults_bind.1 h
    dsimp only
    rw [show (service.matchContainer c).run s = (.ok found, u) from hfound]
    cases found with
    | some i =>
      obtain ⟨_, u, -, h⟩ := (service.silent_bindExistingContainer _ _ _ _ _).mem_consults_bind.1 h
      exact service.consults_syncIdentifierValues_bind (fun _ => .pure _) h
    | none =>
      obtain ⟨id, v, hid, h⟩ := (Silent.read _).mem_consults_bind.1 h
      obtain ⟨rfl, rfl⟩ := returns_read.1 hid
      obtain ⟨_, v, -, h⟩ := (Silent.write _).mem_consults_bind.1 h
      obtain ⟨_, v, -, h⟩ := (silent_addReference _).mem_consults_bind.1 h
      obtain ⟨_, v, -, h⟩ := (Silent.write _).mem_consults_bind.1 h
      obtain ⟨_, v, -, h⟩ := (Silent.write _).mem_consults_bind.1 h
      exact service.consults_syncIdentifierValues_bind (fun _ => .pure _) h

/-- A container without identifiers asks for nothing. -/
theorem consults_ensureContainer_of_nil {c : Container} {observedAt : Time}
    (hc : c.identifiers = []) :
    (service.ensureContainer c observedAt).consults s = [] := by
  refine List.eq_nil_iff_forall_not_mem.2 fun key h => ?_
  have hkeys := service.consults_ensureContainer h
  unfold containerKeys identifierKeys at hkeys
  cases hfound : service.containerAt c s <;> simp [hc, hfound] at hkeys

theorem consults_ensureAlbum (item : MediaFields) (t : TrackFields) (observedAt : Time) :
    (service.ensureAlbum item t observedAt).consults s = [] := by
  refine List.eq_nil_iff_forall_not_mem.2 fun key h => ?_
  obtain ⟨reference, s, -, h⟩ := (Silent.read _).mem_consults_bind.1 h
  split at h
  · rw [(service.silent_ensureKnownAlbum _ _ _ _).consults_eq_nil] at h
    cases h
  · rcases mem_consults_bind.1 h with h | ⟨artist, s, -, h⟩
    all_goals
      rw [service.consults_ensureContainer_of_nil rfl] at h
      cases h

theorem consults_ensureHierarchy {item : MediaFields} {observedAt : Time}
    {matched : Option MediaItem}
    (h : key ∈ (service.ensureHierarchy item observedAt matched).consults s) :
    key ∈ service.showKeys item matched s := by
  unfold ensureHierarchy at h
  unfold showKeys
  split at h
  · rcases mem_consults_bind.1 h with h | ⟨_, s, -, h⟩
    · rw [service.consults_ensureAlbum] at h
      cases h
    · cases h
  next he =>
    rw [((service.silent_bindExistingEpisodeHierarchy _ _ _ _).bind fun _ =>
      .pure _).consults_eq_nil] at h
    cases h
  next e he =>
    rw [he]
    rcases mem_consults_bind.1 h with h | ⟨_, s, -, h⟩
    · rcases mem_consults_bind.1 h with h | ⟨_, s, -, h⟩
      · exact service.consults_ensureContainer h
      · rw [service.consults_ensureContainer_of_nil rfl] at h
        cases h
    · cases h
  · cases h

theorem consults_syncShowMetadata {item : ExternalMediaItem} {parent : Option Nat}
    (h : key ∈ (service.syncShowMetadata item parent).consults s) :
    key ∈ metadataKeys item parent s.store := by
  unfold syncShowMetadata at h
  unfold metadataKeys
  split at h
  next e metadata parent he hmetadata =>
    rw [hmetadata]
    split at h
    · cases h
    · obtain ⟨season, hseason, h⟩ := mem_consults_requiredMedia_bind h
      obtain ⟨«show», hshow, h⟩ := mem_consults_requiredMedia_bind h
      rw [show Option.bind (some parent) s.store.mediaItems.get? = some season from hseason]
      dsimp only
      rw [hshow]
      rcases mem_consults_bind.1 h with h | ⟨known, u, -, h⟩
      · exact h
      · split at h
        · cases h
        · rcases mem_consults_bind.1 h with h | ⟨_, u, -, h⟩
          · cases h
          · rw [(Silent.bind (.read _) fun _ => .ite (.write _) (.pure _)).consults_eq_nil] at h
            cases h
  · cases h

theorem consults_persistDetails {item : MediaFields} {persisted : Persisted}
    (h : key ∈ (service.persistDetails item persisted).consults s) :
    key ∈ identifierKeys persisted.media item.identifiers := by
  obtain ⟨_, u, -, h⟩ := (Silent.write _).mem_consults_bind.1 h
  exact service.consults_syncIdentifierValues_bind
    (fun _ => .bind (.write _) fun _ => .bind (.write _) fun _ => .write _) h

/-- The item under which the rest of the call stores what it writes. -/
theorem storeMedia_returns {item : MediaFields} {observedAt : Time} {known : Option SourceMediaRef}
    {matched : Option MediaItem} {parent : Option Nat} {persisted : Persisted} {s' : PersistSession}
    (h : (service.storeMedia item observedAt known matched parent).Returns s persisted s') :
    persisted.media =
      ((known.map (·.mediaItemId)).or (matched.map (·.id))).getD s.store.mediaItems.nextId := by
  unfold storeMedia at h
  cases known with
  | none =>
    unfold addMedia at h
    cases matched with
    | some media =>
      obtain ⟨_, u, -, h⟩ := returns_bind.1 h
      obtain ⟨_, u, -, h⟩ := returns_bind.1 h
      rw [(returns_pure.1 h).1]
      rfl
    | none =>
      obtain ⟨id, u, hid, h⟩ := returns_bind.1 h
      obtain ⟨_, u, -, h⟩ := returns_bind.1 h
      obtain ⟨_, u, -, h⟩ := returns_bind.1 h
      rw [(returns_pure.1 h).1, (returns_read.1 hid).1]
      rfl
  | some reference =>
    obtain ⟨media, u, hmedia, h⟩ := returns_bind.1 h
    obtain ⟨_, v, -, h⟩ := returns_bind.1 h
    obtain ⟨_, v, -, h⟩ := returns_bind.1 h
    rw [(returns_pure.1 h).1]
    exact (Table.key_of_get? (requiredMedia_returns hmedia).1 : media.id = reference.mediaItemId)

theorem writeShowMetadata_nextId (metadata : ShowMetadata) (i : Nat) (db : Database) :
    (service.writeShowMetadata metadata i db).mediaItems.nextId = db.mediaItems.nextId := by
  have hframe {db db' : Database} (h : Frame detailTables db db') : db'.mediaItems =
      db.mediaItems := h .mediaItems (by decide)
  have htitled (f : Assignment MediaItem.id) :
      (db.saveMediaItem service.now i f).mediaItems.nextId = db.mediaItems.nextId := by
    simp [saveMediaItem]
  unfold writeShowMetadata
  dsimp only
  rw [hframe (service.syncImage_frame i _ _ _), hframe (service.syncImage_frame i _ _ _)]
  split
  · exact htitled _
  · rw [hframe (service.syncGenres_frame i _ _)]
    exact htitled _

theorem syncShowMetadata_nextId {item : ExternalMediaItem} {parent : Option Nat} {u : Unit}
    {s' : PersistSession}
    (h : (service.syncShowMetadata item parent).Returns s u s') :
    s'.store.mediaItems.nextId = s.store.mediaItems.nextId := by
  have hkeeps : Keeps (fun db => db.mediaItems.nextId = s.store.mediaItems.nextId)
      (service.syncShowMetadata item parent) := by
    unfold syncShowMetadata
    split
    · refine .ite (.fail _)
        (.bind (keeps_requiredMedia _) fun _ => .bind (keeps_requiredMedia _) fun _ => ?_)
      refine .bind (.cached _) fun _ =>
        .ite (.pure _) (.bind (.enter _) fun _ => .bind (.read _) fun _ => ?_)
      exact .ite
        (.write fun db hdb => (service.writeShowMetadata_nextId _ _ db).trans hdb) (.pure _)
    · exact .pure _
  exact hkeeps s u s' rfl h

/-- `persist_media` asks only for keys that are known before. -/
theorem consults_persistMedia {item : ExternalMediaItem} {observedAt : Time}
    (h : key ∈ (service.persistMedia item observedAt).consults s) :
    key ∈ service.neededKeys item observedAt s := by
  obtain ⟨known, s, hknown, h⟩ := (Silent.read _).mem_consults_bind.1 h
  obtain ⟨rfl, rfl⟩ := returns_read.1 hknown
  obtain ⟨matched, s₁, hmatched, h⟩ := (service.silent_matchMedia _ _).mem_consults_bind.1 h
  unfold neededKeys
  dsimp only
  rw [show (service.matchMedia item.toMediaFields _).run s = (.ok matched, s₁) from hmatched]
  refine List.mem_append.2 ?_
  rcases mem_consults_bind.1 h with h | ⟨parent, s₂, hparent, h⟩
  · exact .inl (service.consults_ensureHierarchy h)
  rw [show (service.ensureHierarchy _ observedAt matched).run s₁ = (.ok parent, s₂) from hparent]
  refine .inr (List.mem_append.2 ?_)
  rcases mem_consults_bind.1 h with h | ⟨_, s₃, hshow, h⟩
  · exact .inl (service.consults_syncShowMetadata h)
  obtain ⟨persisted, s₄, hstore, h⟩ := (service.silent_storeMedia _ _ _ _ _).mem_consults_bind.1 h
  rcases mem_consults_bind.1 h with h | ⟨_, s₅, -, h⟩
  · have hkey := service.consults_persistDetails h
    rw [service.storeMedia_returns hstore, service.syncShowMetadata_nextId hshow] at hkey
    exact .inr hkey
  · rw [(service.silent_persistPlayback _ _ _).consults_eq_nil] at h
    cases h

theorem flat_persistMedia (item : ExternalMediaItem) (observedAt : Time) :
    Flat (service.persistMedia item observedAt) := by
  refine .bind (Silent.read _).flat fun known =>
    .bind (service.silent_matchMedia _ _).flat fun matched => ?_
  refine .bind ?_ fun parent => .bind ?_ fun _ =>
    .bind (service.silent_storeMedia _ _ _ _ _).flat fun persisted => .bind ?_
    fun _ => (service.silent_persistPlayback _ _ _).flat
  · unfold ensureHierarchy
    split
    · refine .bind (.bind (Silent.read _).flat fun reference => ?_) fun _ => (Silent.pure _).flat
      split
      · exact (service.silent_ensureKnownAlbum _ _ _ _).flat
      · exact .bind (service.flat_ensureContainer _ _) fun _ => service.flat_ensureContainer _ _
    · exact .bind (service.silent_bindExistingEpisodeHierarchy _ _ _ _).flat fun _ =>
        (Silent.pure _).flat
    · exact .bind (.bind (service.flat_ensureContainer _ _) fun _ =>
        service.flat_ensureContainer _ _)
        fun _ => (Silent.pure _).flat
    · exact (Silent.pure _).flat
  · unfold syncShowMetadata
    split
    · refine .ite (Silent.fail _).flat
        (.bind (silent_requiredMedia _).flat fun _ => .bind (silent_requiredMedia _).flat ?_)
      exact fun _ => .bind (.cached _) fun _ => .ite (Silent.pure _).flat (.bind (.enter _) fun _ =>
        .bind (Silent.read _).flat fun _ => .ite (Silent.write _).flat (Silent.pure _).flat)
    · exact (Silent.pure _).flat
  · exact .bind (Silent.write _).flat fun _ =>
      .bind (service.flat_syncIdentifierValues _ _) fun _ =>
      .bind (Silent.write _).flat fun _ => .bind (Silent.write _).flat fun _ =>
        (Silent.write _).flat

end Consults

end MediaPersistenceService

end Euvieouvi
