import Euvieouvi.Scripts.TraktRepeated

/-!
# The identifiers an import adds while it walks the archive

What the second import decides depends on the identifiers the first one added on its way. `Steady`
says of each step of the first import, in the state before it, that its identifiers move no event
that was decided before: then a second one is idle exactly when the second pass lacked nothing where
it matched or created (`Complete`).
-/

namespace Euvieouvi

open Database

/-- The item has what the event needs once the identifiers of `added` are there. -/
def Database.EnrichedWith (db : Database) (added event : ExportEvent) (mediaId : Nat) : Prop :=
  (∀ x ∈ event.identifiers, x ∈ added.identifiers ∨ db.Identifies mediaId x) ∧
    ∀ showId ∈ db.showForEpisode mediaId, ∀ x ∈ event.media.showIdentifiers,
      x ∈ added.media.showIdentifiers ∨ db.Identifies showId x

/-- The identifiers of `event` are identifiers of the other one, of the same kind. -/
def ExportEvent.shared (event other : ExportEvent) : Nat :=
  other.identifiers.countP event.identifiers.contains

namespace TraktImport
variable (trakt : TraktImport)

/-! ### The condition -/

/-- The identifiers of the event move one that was decided before only to an item that has all of
its identifiers, and only if it is recorded. -/
def Spares (s : Importing) (event : ExportEvent) (mediaId : Nat)
    (passed : ExportEvent × IndexMatch) : Prop :=
  ∀ i, (s.index.add event.media.kind mediaId event.identifiers).match passed.1.media.kind
    passed.1.identifiers = .item i →
    s.index.match passed.1.media.kind passed.1.identifiers = .item i ∨
      i = mediaId ∧ s.db.EnrichedWith event passed.1 mediaId ∧
        (passed.2 = .ambiguous → trakt.Recorded s.db passed.1)

/-- The first pass, after the events `passed`. -/
def FirstSteady (s : Importing) (passed : List (ExportEvent × IndexMatch)) : List ExportEvent → Prop
  | [] => True
  | event :: events =>
    (∀ mediaId, s.index.match event.media.kind event.identifiers = .item mediaId →
      ∀ earlier ∈ passed, earlier.2 ≠ .unmatched → trakt.Spares s event mediaId earlier) ∧
    FirstSteady (trakt.associate s event).1 ((event, (trakt.associate s event).2) :: passed) events

/-- The second pass, after the events `passed`: an item that is created is no match for them. -/
def SecondSteady (s : Importing) (passed : List ExportEvent) :
    List (ExportEvent × IndexMatch) → Prop
  | [] => True
  | decided :: decisions =>
    (decided.2 = .unmatched → s.index.match decided.1.media.kind decided.1.identifiers =
      .unmatched →
      ∀ earlier ∈ passed, earlier.media.kind = decided.1.media.kind →
        s.index.Withstands earlier.media.kind earlier.identifiers (decided.1.shared earlier)) ∧
    ∀ s' ∈ trakt.importDecided s decided, SecondSteady s' (decided.1 :: passed) decisions

/-- Nothing is missing where an event is matched in the second pass, nor at the known show of a new
episode. -/
def LacksNothing (s : Importing) (event : ExportEvent) : Prop :=
  (∀ mediaId, s.index.match event.media.kind event.identifiers = .item mediaId →
    s.db.Enriched event mediaId) ∧
    (s.index.match event.media.kind event.identifiers = .unmatched →
      ∀ showId, s.index.match .show event.media.showIdentifiers = .item showId →
        ∀ x ∈ event.media.showIdentifiers, s.db.Identifies showId x)

def SecondComplete (s : Importing) : List (ExportEvent × IndexMatch) → Prop
  | [] => True
  | decided :: decisions =>
    (decided.2 = .unmatched → LacksNothing s decided.1) ∧
    ∀ s' ∈ trakt.importDecided s decided, SecondComplete s' decisions

def start (events : List ExportEvent) (db : Database) : Importing :=
  ⟨db, .load db trakt.sourceId, { eventsValid := events.length }, []⟩

/-- The events the first pass decided, as the second one finds them. -/
def decidedFirst (decisions : List (ExportEvent × IndexMatch)) : List ExportEvent :=
  (decisions.filter fun decided => decided.2 ≠ .unmatched).map (·.1)

/-- No step of an import moves an event that was decided before. -/
def Steady (events : List ExportEvent) (db : Database) : Prop :=
  trakt.FirstSteady (trakt.start events db) [] events ∧
    trakt.SecondSteady (trakt.associateAll (trakt.start events db) events).1
      (decidedFirst (trakt.associateAll (trakt.start events db) events).2)
      (trakt.associateAll (trakt.start events db) events).2

/-- Nothing is missing where the second pass matches or creates. -/
def Complete (events : List ExportEvent) (db : Database) : Prop :=
  trakt.SecondComplete (trakt.associateAll (trakt.start events db) events).1
    (trakt.associateAll (trakt.start events db) events).2

end TraktImport

/-- The foreign keys to the items. -/
structure Database.Keyed (db : Database) : Prop where
  parents : ∀ m ∈ db.mediaItems.rows, ∀ parent ∈ m.parentId,
    (db.mediaItems.get? parent).isSome = true
  identifiers : ∀ r ∈ db.mediaIdentifiers.rows, (db.mediaItems.get? r.mediaItemId).isSome = true
  references : ∀ r ∈ db.sourceMediaRefs.rows, (db.mediaItems.get? r.mediaItemId).isSome = true

section Decidable
variable (trakt : TraktImport) (db : Database) (event : ExportEvent)

instance decidableItem (decision : IndexMatch) (p : Nat → Prop) [DecidablePred p] :
    Decidable (∀ i, decision = .item i → p i) :=
  match decision with
  | .item j => decidable_of_iff (p j) (by simp)
  | .unmatched | .ambiguous => isTrue (by simp)

instance decidableIdentifies (i : Nat) (x : ExternalIdentifier) : Decidable (db.Identifies i x) :=
  inferInstanceAs (Decidable (∃ r ∈ db.mediaIdentifiers.rows, r.mediaItemId = i ∧ r.identity = x))

instance decidableKeyed : Decidable db.Keyed :=
  decidable_of_iff
    ((∀ m ∈ db.mediaItems.rows, ∀ parent ∈ m.parentId, (db.mediaItems.get? parent).isSome = true) ∧
      (∀ r ∈ db.mediaIdentifiers.rows, (db.mediaItems.get? r.mediaItemId).isSome = true) ∧
      ∀ r ∈ db.sourceMediaRefs.rows, (db.mediaItems.get? r.mediaItemId).isSome = true)
    ⟨fun h => ⟨h.1, h.2.1, h.2.2⟩, fun h => ⟨h.1, h.2, h.3⟩⟩

instance decidableEnriched (mediaId : Nat) : Decidable (db.Enriched event mediaId) :=
  inferInstanceAs (Decidable ((∀ x ∈ event.identifiers, db.Identifies mediaId x) ∧
    ∀ showId ∈ db.showForEpisode mediaId, ∀ x ∈ event.media.showIdentifiers,
      db.Identifies showId x))

instance decidableEnrichedWith (added : ExportEvent) (mediaId : Nat) :
    Decidable (db.EnrichedWith added event mediaId) :=
  inferInstanceAs (Decidable (_ ∧ _))

instance decidableWithstands (index : MediaIndex) (kind : MediaKind)
    (identifiers : List ExternalIdentifier) (n : Nat) :
    Decidable (index.Withstands kind identifiers n) :=
  inferInstanceAs (Decidable (_ ∧ _))

instance decidableSpares (s : Importing) (mediaId : Nat) (passed : ExportEvent × IndexMatch) :
    Decidable (trakt.Spares s event mediaId passed) :=
  have : Decidable (trakt.Recorded s.db passed.1) := inferInstanceAs (Decidable (_ = true))
  decidableItem _ _

instance decidableFirstSteady (s : Importing) (passed : List (ExportEvent × IndexMatch))
    (events : List ExportEvent) :
    Decidable (trakt.FirstSteady s passed events) :=
  match events with
  | [] => isTrue trivial
  | event :: events =>
    have := decidableFirstSteady (trakt.associate s event).1
      ((event, (trakt.associate s event).2) :: passed) events
    inferInstanceAs (Decidable (_ ∧ _))

instance decidableSecondSteady (s : Importing) (passed : List ExportEvent)
    (decisions : List (ExportEvent × IndexMatch)) :
    Decidable (trakt.SecondSteady s passed decisions) :=
  match decisions with
  | [] => isTrue trivial
  | decided :: decisions =>
    have := fun s' => decidableSecondSteady s' (decided.1 :: passed) decisions
    inferInstanceAs (Decidable (_ ∧ ∀ s' ∈ trakt.importDecided s decided, _))

instance decidableLacksNothing (s : Importing) : Decidable (TraktImport.LacksNothing s event) :=
  inferInstanceAs (Decidable (_ ∧ _))

instance decidableSecondComplete (s : Importing) (decisions : List (ExportEvent × IndexMatch)) :
    Decidable (trakt.SecondComplete s decisions) :=
  match decisions with
  | [] => isTrue trivial
  | decided :: decisions =>
    have := fun s' => decidableSecondComplete s' decisions
    inferInstanceAs (Decidable (_ ∧ ∀ s' ∈ trakt.importDecided s decided, _))

instance decidableSteady (events : List ExportEvent) : Decidable (trakt.Steady events db) :=
  inferInstanceAs (Decidable (_ ∧ _))

instance decidableComplete (events : List ExportEvent) : Decidable (trakt.Complete events db) :=
  decidableSecondComplete trakt _ _

end Decidable

/-- The index holds what the tables say, and the foreign keys hold. -/
structure Importing.Sound (source : Nat) (s : Importing) : Prop where
  indexed : ∀ k x i, i ∈ s.index.byIdentifier k x ↔ s.db.Names k x i
  preferred : s.index.preferredMediaIds = (MediaIndex.load s.db source).preferredMediaIds
  referenced : s.db.Keyed

/-- A step that adds nothing to what was there. -/
structure Importing.Grows (source : Nat) (s s' : Importing) : Prop where
  sound : s'.Sound source
  items : ∀ i m, s.db.mediaItems.get? i = some m → s'.db.mediaItems.get? i = some m
  identifies : ∀ i x, (s.db.mediaItems.get? i).isSome = true →
    (s'.db.Identifies i x ↔ s.db.Identifies i x)
  events : ∀ e ∈ s.db.watchEvents.rows, e ∈ s'.db.watchEvents.rows
  preferred : s'.index.preferredMediaIds = s.index.preferredMediaIds

theorem MediaIndex.preferred_load {db : Database} {source : Nat} :
    (MediaIndex.load db source).preferredMediaIds =
    (db.sourceMediaRefs.rows.filter fun r => r.sourceId == source).map (·.mediaItemId) := by
  have hfold : ∀ (rows : List MediaIdentifier) (index : MediaIndex),
      (rows.foldl (MediaIndex.loadRow db) index).preferredMediaIds = index.preferredMediaIds := by
    intro rows
    induction rows with
    | nil => exact fun _ => rfl
    | cons r rows ih =>
      intro index
      rw [List.foldl_cons, ih]
      unfold MediaIndex.loadRow
      split <;> rfl
  exact hfold _ _

namespace Importing
variable {source : Nat} {s s' s'' : Importing}

theorem Sound.preferred_exists (hs : s.Sound source) {i : Nat}
    (hi : i ∈ s.index.preferredMediaIds) :
    (s.db.mediaItems.get? i).isSome = true := by
  rw [hs.preferred, MediaIndex.preferred_load] at hi
  obtain ⟨r, hr, rfl⟩ := List.mem_map.1 hi
  exact hs.referenced.references r (List.mem_of_mem_filter hr)

theorem Sound.known (hs : s.Sound source) : s.Known := fun k x i => (hs.indexed k x i).1

/-- An item that is not there is nowhere in the index. -/
theorem Sound.fresh (hs : s.Sound source) {i : Nat} (hi : s.db.mediaItems.get? i = none)
    (k : MediaKind) (x : ExternalIdentifier) : i ∉ s.index.byIdentifier k x := by
  intro hx
  obtain ⟨-, m, hm, -⟩ := (hs.indexed k x i).1 hx
  rw [hi] at hm
  cases hm

theorem Sound.unpreferred (hs : s.Sound source) {i : Nat} (hi : s.db.mediaItems.get? i = none) :
    i ∉ s.index.preferredMediaIds := by
  intro hp
  have := hs.preferred_exists hp
  rw [hi] at this
  cases this

/-- A match is an item of the kind. -/
theorem Sound.matched (hs : s.Sound source) {kind : MediaKind}
    {identifiers : List ExternalIdentifier} {i : Nat}
    (h : s.index.match kind identifiers = .item i) : ∃ m, s.db.mediaItems.get? i = some m ∧
    m.kind = kind :=
  TraktImport.kind_of_match hs.known h

theorem sound_load {db : Database} (h : db.Keyed) {report : ImportReport} {touched : List Nat} :
    Sound source ⟨db, .load db source, report, touched⟩ :=
  ⟨fun _ _ _ => MediaIndex.mem_load, rfl, h⟩

namespace Grows

theorem refl (hs : s.Sound source) : Grows source s s :=
  ⟨hs, fun _ _ h => h, fun _ _ _ => Iff.rfl, fun _ h => h, rfl⟩

/-- A step that leaves the catalog and the index alone. -/
theorem of_catalog (hs : s.Sound source) (hindex : s'.index = s.index)
    (hitems : s'.db.mediaItems = s.db.mediaItems)
    (hids : s'.db.mediaIdentifiers = s.db.mediaIdentifiers)
    (hrefs : s'.db.sourceMediaRefs = s.db.sourceMediaRefs)
    (hevents : ∀ e ∈ s.db.watchEvents.rows, e ∈ s'.db.watchEvents.rows) : Grows source s s' := by
  have hidentifies : ∀ i x, s'.db.Identifies i x ↔ s.db.Identifies i x := fun i x => by
    unfold Database.Identifies
    rw [hids]
  refine ⟨⟨fun k x i => ?_, ?_, ?_⟩, fun i m hm => by rw [hitems]; exact hm,
    fun i x _ => hidentifies i x, hevents, by rw [hindex]⟩
  · unfold Database.Names
    rw [hindex, hs.indexed, hidentifies, hitems]
    rfl
  · rw [hindex, hs.preferred, MediaIndex.preferred_load, MediaIndex.preferred_load, hrefs]
  · refine ⟨?_, ?_, ?_⟩ <;> simp only [hitems, hids, hrefs]
    exacts [hs.referenced.parents, hs.referenced.identifiers, hs.referenced.references]

theorem exists_item (h : Grows source s s') {i : Nat}
    (hi : (s.db.mediaItems.get? i).isSome = true) :
    (s'.db.mediaItems.get? i).isSome = true := by
  obtain ⟨m, hm⟩ := Option.isSome_iff_exists.1 hi
  rw [h.items i m hm]; rfl

theorem trans (h : Grows source s s') (h' : Grows source s' s'') : Grows source s s'' :=
  ⟨h'.sound, fun i m hm => h'.items i m (h.items i m hm),
    fun i x hi => (h'.identifies i x (h.exists_item hi)).trans (h.identifies i x hi),
    fun e he => h'.events e (h.events e he), h'.preferred.trans h.preferred⟩

/-- The show above an item is the one that was there. -/
theorem showForEpisode (h : Grows source s s') (hs : s.Sound source) {i : Nat}
    (hi : (s.db.mediaItems.get? i).isSome = true) :
    s'.db.showForEpisode i = s.db.showForEpisode i := by
  have hparent : ∀ (m : MediaItem), m ∈ s.db.mediaItems.rows →
      m.parentId.bind s'.db.mediaItems.get? = m.parentId.bind s.db.mediaItems.get? := by
    intro m hm
    cases hp : m.parentId with
    | none => rfl
    | some p =>
      obtain ⟨parent, hparent⟩ := Option.isSome_iff_exists.1 (hs.referenced.parents m hm p hp)
      rw [Option.bind_some, Option.bind_some, hparent, h.items p parent hparent]
  obtain ⟨episode, hepisode⟩ := Option.isSome_iff_exists.1 hi
  unfold Database.showForEpisode
  rw [hepisode, h.items i episode hepisode]
  refine Option.bind_congr fun e he => ?_
  have hmem : e ∈ s.db.mediaItems.rows := by
    rw [Option.filter_eq_some_iff] at he
    obtain rfl := Option.some_inj.1 he.1
    exact Table.mem_of_get? hepisode
  rw [hparent e hmem]
  refine Option.bind_congr fun season hseason => ?_
  rw [Option.filter_eq_some_iff] at hseason
  obtain ⟨p, -, hp⟩ := Option.bind_eq_some_iff.1 hseason.1
  rw [hparent season (Table.mem_of_get? hp)]

theorem enriched_iff (h : Grows source s s') (hs : s.Sound source) {event : ExportEvent} {i : Nat}
    (hi : (s.db.mediaItems.get? i).isSome = true) :
    s'.db.Enriched event i ↔ s.db.Enriched event i := by
  unfold Database.Enriched
  rw [h.showForEpisode hs hi]
  refine and_congr (forall₂_congr fun x _ => h.identifies i x hi)
    (forall₂_congr fun showId hshow => ?_)
  obtain ⟨m, hm, -⟩ := showForEpisode_kind hshow
  exact forall₂_congr fun x _ => h.identifies showId x (by rw [hm]; rfl)

end Grows

end Importing

namespace TraktImport
variable {trakt : TraktImport} {s s' : Importing} {kind k : MediaKind} {mediaId i : Nat}
  {x y : ExternalIdentifier}
  {identifiers : List ExternalIdentifier} {event other : ExportEvent} {db : Database}

theorem identifies_insertOrIgnore :
    (trakt.insertOrIgnore mediaId db x).1.Identifies i y ↔ db.Identifies i y ∨
    i = mediaId ∧ y = x := by
  by_cases h : db.Identifies mediaId x
  · rw [insertOrIgnore_of_identified h]
    refine ⟨.inl, ?_⟩
    rintro (hy | ⟨rfl, rfl⟩)
    exacts [hy, h]
  · obtain ⟨-, r, hitem, hx, hrows⟩ := @insertOrIgnore_rows trakt db mediaId x h
    unfold Database.Identifies
    rw [hrows]
    constructor
    · rintro ⟨r', hr', hi, hy⟩
      rcases List.mem_append.1 hr' with hr' | hr'
      · exact .inl ⟨r', hr', hi, hy⟩
      · obtain rfl := List.mem_singleton.1 hr'
        exact .inr ⟨hi.symm.trans hitem, hy.symm.trans hx⟩
    · rintro (⟨r', hr', hi, hy⟩ | ⟨rfl, rfl⟩)
      exacts [⟨r', List.mem_append_left _ hr', hi, hy⟩,
        ⟨r, List.mem_append_right _ List.mem_cons_self, hitem, hx⟩]

theorem identifies_insertIdentifiers :
    (trakt.insertIdentifiers mediaId identifiers db).1.Identifies i y ↔ db.Identifies i y ∨
    i = mediaId ∧ y ∈ identifiers := by
  induction identifiers generalizing db with
  | nil => simp [insertIdentifiers]
  | cons x identifiers ih =>
    rw [insertIdentifiers_cons, ih, identifies_insertOrIgnore, List.mem_cons, or_assoc,
      ← and_or_left]

theorem insertIdentifiers_frame :
    Frame [.mediaIdentifiers] db (trakt.insertIdentifiers mediaId identifiers db).1 := by
  induction identifiers generalizing db with
  | nil => exact .refl db
  | cons x identifiers ih =>
    rw [insertIdentifiers_cons]
    refine Frame.trans ?_ ih
    by_cases h : db.Identifies mediaId x
    · rw [insertOrIgnore_of_identified h]; exact .refl db
    · exact (insertOrIgnore_rows h).1

/-- What `_add_identifiers` leaves. -/
structure Adds (kind : MediaKind) (mediaId : Nat) (identifiers : List ExternalIdentifier)
    (s s' : Importing) : Prop where
  items : s'.db.mediaItems = s.db.mediaItems
  events : s'.db.watchEvents = s.db.watchEvents
  references : s'.db.sourceMediaRefs = s.db.sourceMediaRefs
  identifies : ∀ i x, s'.db.Identifies i x ↔ s.db.Identifies i x ∨ i = mediaId ∧ x ∈ identifiers
  index : s'.index = s.index.add kind mediaId identifiers

theorem addIdentifiers_adds :
    Adds kind mediaId identifiers s (trakt.addIdentifiers kind mediaId identifiers s) :=
  have h : Frame [.mediaIdentifiers] s.db (trakt.addIdentifiers kind mediaId identifiers s).db :=
    insertIdentifiers_frame
  ⟨h .mediaItems (by decide), h .watchEvents (by decide), h .sourceMediaRefs (by decide),
    fun _ _ => identifies_insertIdentifiers, rfl⟩

namespace Adds

theorem sound {source : Nat} (h : Adds kind mediaId identifiers s s') (hs : s.Sound source)
    (hitem : ∃ m, s.db.mediaItems.get? mediaId = some m ∧ m.kind = kind) : s'.Sound source := by
  refine ⟨fun k x i => ?_, ?_, ⟨?_, fun r hr => ?_, ?_⟩⟩
  · unfold Database.Names
    rw [h.index, MediaIndex.mem_add, hs.indexed, h.identifies, h.items, or_and_right]
    refine or_congr Iff.rfl ⟨?_, ?_⟩
    · rintro ⟨rfl, hx, rfl⟩
      exact ⟨⟨rfl, hx⟩, hitem⟩
    · rintro ⟨⟨rfl, hx⟩, m, hm, rfl⟩
      obtain ⟨m', hm', rfl⟩ := hitem
      obtain rfl := Option.some_inj.1 (hm.symm.trans hm')
      exact ⟨rfl, hx, rfl⟩
  · rw [h.index, MediaIndex.preferred_add, hs.preferred, MediaIndex.preferred_load,
      MediaIndex.preferred_load, h.references]
  · rw [h.items]; exact hs.referenced.parents
  · rw [h.items]
    rcases (h.identifies _ _).1 ⟨r, hr, rfl, rfl⟩ with ⟨r', hr', hi, -⟩ | ⟨hi, -⟩
    · rw [← hi]; exact hs.referenced.identifiers r' hr'
    · obtain ⟨m, hm, -⟩ := hitem
      rw [hi, hm]; rfl
  · rw [h.references, h.items]; exact hs.referenced.references

theorem showForEpisode (h : Adds kind mediaId identifiers s s') (i : Nat) :
    s'.db.showForEpisode i = s.db.showForEpisode i := by
  unfold Database.showForEpisode
  rw [h.items]

end Adds

/-! ### The first pass -/

/-- What an event leaves in the first pass at the item it is matched to. -/
structure Enriches (event : ExportEvent) (mediaId : Nat) (s s' : Importing) : Prop where
  items : s'.db.mediaItems = s.db.mediaItems
  events : s'.db.watchEvents = s.db.watchEvents
  identifies : ∀ i x, s'.db.Identifies i x ↔ s.db.Identifies i x ∨ i = mediaId ∧
    x ∈ event.identifiers ∨
    i ∈ s.db.showForEpisode mediaId ∧ x ∈ event.media.showIdentifiers
  match_eq : ∀ kind identifiers, kind ≠ .show → s'.index.match kind identifiers =
    (s.index.add event.media.kind mediaId event.identifiers).match kind identifiers

theorem enrich_enriches : Enriches event mediaId s (trakt.enrich event mediaId s) := by
  let counted : Importing :=
    { s with report := { s.report with mediaMatched := s.report.mediaMatched + 1 } }
  let matched := trakt.addIdentifiers event.media.kind mediaId event.identifiers counted
  have hadds : Adds event.media.kind mediaId event.identifiers counted matched :=
    addIdentifiers_adds
  have hshow : matched.db.showForEpisode mediaId = s.db.showForEpisode mediaId :=
    hadds.showForEpisode mediaId
  have hrest : (trakt.enrichShow event.media mediaId matched = matched ∧
      ∀ i x, ¬ (i ∈ s.db.showForEpisode mediaId ∧ x ∈ event.media.showIdentifiers)) ∨
      ∃ showId, s.db.showForEpisode mediaId = some showId ∧
        Adds .show showId event.media.showIdentifiers matched
          (trakt.enrichShow event.media mediaId matched) := by
    unfold enrichShow
    cases event.media with
    | movie year => exact .inl ⟨rfl, fun i x h => by cases h.2⟩
    | episode season episode title year showIdentifiers =>
      dsimp only
      rw [hshow]
      cases hnone : s.db.showForEpisode mediaId with
      | none => exact .inl ⟨rfl, fun i x h => by cases h.1⟩
      | some showId => exact .inr ⟨showId, rfl, addIdentifiers_adds⟩
  show Enriches event mediaId s (trakt.enrichShow event.media mediaId matched)
  rcases hrest with ⟨heq, hnone⟩ | ⟨showId, hshowId, hshowAdds⟩
  · rw [heq]
    refine ⟨hadds.items, hadds.events, fun i x => ?_, fun kind identifiers _ => ?_⟩
    · rw [hadds.identifies]
      exact or_congr Iff.rfl ⟨.inl, fun h => h.resolve_right (hnone i x)⟩
    · rw [hadds.index]
  · refine ⟨hshowAdds.items.trans hadds.items, hshowAdds.events.trans hadds.events, fun i x => ?_,
      fun kind identifiers hkind => ?_⟩
    · rw [hshowAdds.identifies, hadds.identifies, or_assoc, hshowId, Option.mem_some,
        eq_comm (a := showId)]
    · rw [hshowAdds.index, MediaIndex.match_add_of_kind hkind, hadds.index]

theorem enrich_sound {source : Nat} (hs : s.Sound source)
    (hitem : ∃ m, s.db.mediaItems.get? mediaId = some m ∧ m.kind = event.media.kind) :
    (trakt.enrich event mediaId s).Sound source := by
  let counted : Importing :=
    { s with report := { s.report with mediaMatched := s.report.mediaMatched + 1 } }
  have hcounted : counted.Sound source := ⟨hs.indexed, hs.preferred, hs.referenced⟩
  have hmatched :
      (trakt.addIdentifiers event.media.kind mediaId event.identifiers counted).Sound source :=
    addIdentifiers_adds.sound hcounted hitem
  show (trakt.enrichShow event.media mediaId _).Sound source
  unfold enrichShow
  split
  · exact hmatched
  split
  · exact hmatched
  next hshow => exact addIdentifiers_adds.sound hmatched (showForEpisode_kind hshow)

theorem Enriches.enriched (h : Enriches event mediaId s s')
    (hevent : s.db.EnrichedWith event other mediaId) :
    s'.db.Enriched other mediaId := by
  refine ⟨fun x hx => (h.identifies _ _).2 ?_, fun showId hshow x hx => (h.identifies _ _).2 ?_⟩
  · rcases hevent.1 x hx with hx | hx
    exacts [.inr (.inl ⟨rfl, hx⟩), .inl hx]
  · have hshow' : showId ∈ s.db.showForEpisode mediaId := by
      unfold showForEpisode at hshow ⊢
      rwa [h.items] at hshow
    rcases hevent.2 showId hshow' x hx with hx | hx
    exacts [.inr (.inr ⟨hshow', hx⟩), .inl hx]

theorem Enriches.enriched_mono (h : Enriches event mediaId s s') (hother : s.db.Enriched other i) :
    s'.db.Enriched other i := by
  refine ⟨fun x hx => (h.identifies _ _).2 (.inl (hother.1 x hx)), fun showId hshow x hx =>
    (h.identifies _ _).2 (.inl ?_)⟩
  refine hother.2 showId ?_ x hx
  unfold showForEpisode at hshow ⊢
  rwa [h.items] at hshow

theorem kind_ne_show (media : ExportMedia) : media.kind ≠ .show := by
  cases media <;> simp [ExportMedia.kind]

/-- An event that was decided is still matched to an item only where nothing is missing. -/
def Kept (trakt : TraktImport) (s : Importing) (decided : ExportEvent × IndexMatch) : Prop :=
  decided.2 ≠ .unmatched → ∀ i, s.index.match decided.1.media.kind decided.1.identifiers = .item i →
    s.db.Enriched decided.1 i ∧ (decided.2 = .ambiguous → trakt.Recorded s.db decided.1)

theorem associate_sound {source : Nat} (hs : s.Sound source) :
    (trakt.associate s event).1.Sound source := by
  unfold associate
  dsimp only
  split
  · exact ⟨hs.indexed, hs.preferred, hs.referenced⟩
  · exact hs
  next hmatch => exact enrich_sound hs (hs.matched hmatch)

theorem associate_kept {decided : ExportEvent × IndexMatch}
    (hspares : ∀ mediaId, s.index.match event.media.kind event.identifiers = .item mediaId →
      decided.2 ≠ .unmatched →
      trakt.Spares s event mediaId decided) (h : trakt.Kept s decided) :
      trakt.Kept (trakt.associate s event).1 decided := by
  intro hne
  unfold associate
  dsimp only
  split
  · exact h hne
  · exact h hne
  next mediaId hmatch =>
    have henriches : Enriches event mediaId s (trakt.enrich event mediaId s) := enrich_enriches
    have hrecorded : trakt.Recorded s.db decided.1 →
        trakt.Recorded (trakt.enrich event mediaId s).db decided.1 := by
      unfold Recorded bySourceEventId
      rw [henriches.events]
      exact id
    intro i hi
    rw [henriches.match_eq _ _ (kind_ne_show _)] at hi
    rcases hspares mediaId hmatch hne i hi with hi | ⟨rfl, henriched, hambiguous⟩
    · obtain ⟨henriched, hambiguous⟩ := h hne i hi
      exact ⟨henriches.enriched_mono henriched, fun ha => hrecorded (hambiguous ha)⟩
    · exact ⟨henriches.enriched henriched, fun ha => hrecorded (hambiguous ha)⟩

/-- An event that is matched is matched to the same item when its own identifiers are there. -/
theorem associate_self :
    trakt.Kept (trakt.associate s event).1 (event, (trakt.associate s event).2) := by
  rw [associate_decision]
  unfold associate
  dsimp only
  intro hne
  cases hmatch : s.index.match event.media.kind event.identifiers with
  | ambiguous =>
    intro i hi
    exact absurd (hmatch.symm.trans hi) (by simp)
  | unmatched => exact absurd hmatch hne
  | item mediaId =>
    have henriches : Enriches event mediaId s (trakt.enrich event mediaId s) := enrich_enriches
    intro i hi
    have hself := (henriches.match_eq _ _ (kind_ne_show _)).trans (MediaIndex.match_add_self hmatch)
    obtain rfl : mediaId = i := by simpa using hself.symm.trans hi
    exact ⟨henriches.enriched ⟨fun x hx => .inl hx, fun showId _ x hx => .inl hx⟩,
      fun ha => by cases ha⟩

theorem associateAll_kept {source : Nat} {events : List ExportEvent}
    {passed : List (ExportEvent × IndexMatch)}
    (hs : s.Sound source) (hsteady : trakt.FirstSteady s passed events)
    (h : ∀ decided ∈ passed, trakt.Kept s decided) :
    (∀ decided ∈ passed, trakt.Kept (trakt.associateAll s events).1 decided) ∧
      ∀ decided ∈ (trakt.associateAll s events).2,
        trakt.Kept (trakt.associateAll s events).1 decided := by
  induction events generalizing s passed with
  | nil => exact ⟨h, fun decided hd => by cases hd⟩
  | cons event events ih =>
    have hfirst : ∀ decided ∈ (event, (trakt.associate s event).2) :: passed,
        trakt.Kept (trakt.associate s event).1 decided := by
      intro decided hd
      rcases List.mem_cons.1 hd with rfl | hd
      · exact associate_self
      · exact associate_kept (fun mediaId hmatch hne => hsteady.1 mediaId hmatch decided hd hne)
          (h decided hd)
    obtain ⟨hpassed, hrest⟩ := ih (associate_sound hs) hsteady.2 hfirst
    refine ⟨fun decided hd => hpassed decided (List.mem_cons_of_mem _ hd), fun decided hd => ?_⟩
    rcases List.mem_cons.1 hd with rfl | hd
    exacts [hpassed _ List.mem_cons_self, hrest decided hd]

theorem associateAll_sound {source : Nat} {events : List ExportEvent} (hs : s.Sound source) :
    (trakt.associateAll s events).1.Sound source := by
  induction events generalizing s with
  | nil => exact hs
  | cons event events ih => exact ih (associate_sound hs)

/-! ### Items created -/

/-- A new item below one that is there. -/
theorem grows_insert {source : Nat} {m : MediaItem} (hs : s.Sound source)
    (hdb : s'.db = s.db.insertMediaItem m)
    (hindex : s'.index = s.index) (hfree : s.db.mediaItems.get? m.id = none)
    (hparent : ∀ parent ∈ m.parentId, (s.db.mediaItems.get? parent).isSome = true) :
    s.Grows source s' := by
  have hframe : Frame [.mediaItems] s.db s'.db := hdb ▸ insertMediaItem_frame m
  have hids : s'.db.mediaIdentifiers = s.db.mediaIdentifiers := hframe .mediaIdentifiers (by decide)
  have hevents : s'.db.watchEvents = s.db.watchEvents := hframe .watchEvents (by decide)
  have hrefs : s'.db.sourceMediaRefs = s.db.sourceMediaRefs := hframe .sourceMediaRefs (by decide)
  have hget : ∀ i, i ≠ m.id → s'.db.mediaItems.get? i = s.db.mediaItems.get? i := by
    intro i hi
    rw [hdb, mediaItems_insertMediaItem, Table.get?_insert_ne (Ne.symm hi)]
  have hkeep : ∀ i, (s.db.mediaItems.get? i).isSome = true →
      (s'.db.mediaItems.get? i).isSome = true := by
    intro i hi
    rw [hget i]
    · exact hi
    · rintro rfl
      rw [hfree] at hi
      cases hi
  have hidentifies : ∀ i x, s'.db.Identifies i x ↔ s.db.Identifies i x := by
    intro i x
    unfold Database.Identifies
    rw [hids]
  have howned : ∀ x, ¬ s.db.Identifies m.id x := by
    rintro x ⟨r, hr, hi, -⟩
    have := hs.referenced.identifiers r hr
    rw [hi, hfree] at this
    cases this
  refine ⟨⟨fun k x i => ?_, ?_,
    ⟨fun row hrow parent hp => hkeep _ ?_, fun r hr => hkeep _ ?_, fun r hr => hkeep _ ?_⟩⟩,
    fun i row hrow => ?_, fun i x _ => hidentifies i x, ?_, by rw [hindex]⟩
  · unfold Database.Names
    rw [hindex, hs.indexed, hidentifies]
    refine and_congr_right fun hx => ?_
    rw [hget i]
    rintro rfl
    exact howned x hx
  · rw [hindex, hs.preferred, MediaIndex.preferred_load, MediaIndex.preferred_load, hrefs]
  · rw [hdb, mediaItems_insertMediaItem, Table.rows_insert_of_get?_none hfree, List.mem_append,
      List.mem_singleton] at hrow
    rcases hrow with hrow | rfl
    exacts [hs.referenced.parents row hrow parent hp, hparent parent hp]
  · rw [hids] at hr; exact hs.referenced.identifiers r hr
  · rw [hrefs] at hr; exact hs.referenced.references r hr
  · rw [hget i]
    · exact hrow
    · rintro rfl
      rw [hfree] at hrow
      cases hrow
  · rw [hevents]; exact fun e he => he

/-- A new item gets its identifiers. -/
theorem Adds.grows {source : Nat} {s₀ : Importing} (h : Adds kind mediaId identifiers s s')
    (hgrows : s₀.Grows source s) (hfree : s₀.db.mediaItems.get? mediaId = none)
    (hitem : ∃ m, s.db.mediaItems.get? mediaId = some m ∧ m.kind = kind) : s₀.Grows source s' := by
  refine ⟨h.sound hgrows.sound hitem, fun i m hm => by
    rw [h.items]; exact hgrows.items i m hm, fun i x hi => ?_,
    by rw [h.events]; exact hgrows.events, by
      rw [h.index, MediaIndex.preferred_add]; exact hgrows.preferred⟩
  rw [h.identifies, hgrows.identifies i x hi]
  refine ⟨fun hx => hx.resolve_right ?_, .inl⟩
  rintro ⟨rfl, -⟩
  rw [hfree] at hi
  cases hi

/-- The index says the same of everything but shows. -/
def SameBelowShows (s s' : Importing) : Prop :=
  ∀ k x i, k ≠ .show → (i ∈ s'.index.byIdentifier k x ↔ i ∈ s.index.byIdentifier k x)

theorem match_nil {index : MediaIndex} : index.match kind [] = .unmatched := by
  rw [MediaIndex.match_eq_unmatched]
  rfl

theorem historicalShow_grows {source : Nat} {title : String} {year : Option Nat} {showId : Nat}
    (hs : s.Sound source) (h : trakt.historicalShow title year identifiers s = some (s', showId)) :
    s.Grows source s' ∧ SameBelowShows s s' ∧
    (∃ m, s'.db.mediaItems.get? showId = some m ∧ m.kind = .show) ∧
      (s.index.match .show identifiers = .item showId ∨
        s.index.match .show identifiers = .unmatched ∧ ∀ x ∈ identifiers,
          s'.db.Identifies showId x) := by
  unfold historicalShow at h
  split at h
  · cases h
  next hmatch =>
    cases h
    exact ⟨.refl hs, fun _ _ _ _ => Iff.rfl, hs.matched hmatch, .inl hmatch⟩
  next hmatch =>
    cases h
    let m : MediaItem :=
      { id := s.db.mediaItems.nextId
        kind := .show
        title := String.ofList (title.toList.take 500)
        year := year
        updatedAt := trakt.now }
    let inserted : Importing :=
      { s with
        db := s.db.insertMediaItem m,
        report := { s.report with showsCreated := s.report.showsCreated + 1 } }
    have hfree : s.db.mediaItems.get? m.id = none := Table.get?_nextId _
    have hinserted : s.Grows source inserted :=
      grows_insert hs rfl rfl hfree (fun parent hp => by cases hp)
    have hitem : ∃ m', inserted.db.mediaItems.get? m.id = some m' ∧ m'.kind = .show := by
      refine ⟨m, ?_, rfl⟩
      show (s.db.insertMediaItem m).mediaItems.get? m.id = some m
      rw [mediaItems_insertMediaItem]
      exact Table.get?_insert_self hfree
    have hadds : Adds .show m.id identifiers inserted
        (trakt.addIdentifiers .show m.id identifiers inserted) := addIdentifiers_adds
    refine ⟨hadds.grows hinserted hfree hitem, fun k x i hk => ?_, ?_,
      .inr ⟨hmatch, fun x hx => ?_⟩⟩
    · show i ∈ (s.index.add .show m.id identifiers).byIdentifier k x ↔ _
      simp [MediaIndex.mem_add, hk]
    · obtain ⟨m', hm', hk'⟩ := hitem
      exact ⟨m', (congrArg (fun items => items.get? m.id) hadds.items).trans hm', hk'⟩
    · exact (hadds.identifies m.id x).2 (.inr ⟨rfl, hx⟩)

theorem historicalSeason_grows {source : Nat} {showId number : Nat} (hs : s.Sound source)
    (hshow : (s.db.mediaItems.get? showId).isSome = true) :
    s.Grows source (trakt.historicalSeason showId number s).1 ∧
      (trakt.historicalSeason showId number s).1.index = s.index ∧
      ∃ m, (trakt.historicalSeason showId number s).1.db.mediaItems.get?
        (trakt.historicalSeason showId number s).2 = some m ∧
        m.kind = .season ∧ m.parentId = some showId := by
  unfold historicalSeason
  split
  next season hfind =>
    have hrow := List.find?_some hfind
    simp only [Bool.and_eq_true, beq_iff_eq] at hrow
    exact ⟨.refl hs, rfl, season, Table.get?_of_mem (List.mem_of_find?_eq_some hfind),
      hrow.1.1, hrow.1.2⟩
  · let m : MediaItem :=
      { id := s.db.mediaItems.nextId
        kind := .season
        parentId := some showId
        title := String.ofList ((s!"Season {number}").toList.take 500)
        seasonNumber := some number
        updatedAt := trakt.now }
    have hfree : s.db.mediaItems.get? m.id = none := Table.get?_nextId _
    refine ⟨@grows_insert s _ source m hs rfl rfl hfree (fun parent hp => ?_), rfl, m, ?_, rfl, rfl⟩
    · obtain rfl : showId = parent := by simpa [m] using hp
      exact hshow
    · show (s.db.insertMediaItem m).mediaItems.get? m.id = some m
      rw [mediaItems_insertMediaItem]
      exact Table.get?_insert_self hfree

theorem historicalItem_grows {source : Nat} {year parentId seasonNumber episodeNumber : Option Nat}
    (hs : s.Sound source)
    (hparent : ∀ parent ∈ parentId, (s.db.mediaItems.get? parent).isSome = true) :
    let created := trakt.historicalItem event year parentId seasonNumber episodeNumber s
    s.Grows source created.1 ∧ s.db.mediaItems.get? created.2 = none ∧
      created.1.index = s.index.add event.media.kind created.2 event.identifiers ∧
      (∃ m, created.1.db.mediaItems.get? created.2 = some m ∧ m.kind = event.media.kind ∧
        m.parentId = parentId) ∧
      ∀ x ∈ event.identifiers, created.1.db.Identifies created.2 x := by
  let m : MediaItem :=
    { id := s.db.mediaItems.nextId
      kind := event.media.kind
      parentId := parentId
      title := String.ofList (event.title.toList.take 500)
      year := year
      seasonNumber := seasonNumber
      episodeNumber := episodeNumber
      updatedAt := trakt.now }
  let inserted : Importing :=
    { s with
      db := s.db.insertMediaItem m,
      report := { s.report with mediaCreated := s.report.mediaCreated + 1 } }
  have hfree : s.db.mediaItems.get? m.id = none := Table.get?_nextId _
  have hinserted : s.Grows source inserted := grows_insert hs rfl rfl hfree hparent
  have hget : inserted.db.mediaItems.get? m.id = some m := by
    show (s.db.insertMediaItem m).mediaItems.get? m.id = some m
    rw [mediaItems_insertMediaItem]
    exact Table.get?_insert_self hfree
  have hadds : Adds event.media.kind m.id event.identifiers inserted
      (trakt.addIdentifiers event.media.kind m.id event.identifiers inserted) := addIdentifiers_adds
  refine ⟨hadds.grows hinserted hfree ⟨m, hget, rfl⟩, hfree, rfl, ⟨m, ?_, rfl, rfl⟩, fun x hx => ?_⟩
  · exact (congrArg (fun items => items.get? m.id) hadds.items).trans hget
  · exact (hadds.identifies m.id x).2 (.inr ⟨rfl, hx⟩)

theorem showForEpisode_eq {episodeId seasonId showId : Nat} {episode season row : MediaItem}
    (he : db.mediaItems.get? episodeId = some episode) (hek : episode.kind = .episode)
    (hep : episode.parentId = some seasonId)
    (hs : db.mediaItems.get? seasonId = some season) (hsk : season.kind = .season)
    (hsp : season.parentId = some showId)
    (hr : db.mediaItems.get? showId = some row) (hrk : row.kind = .show) :
    db.showForEpisode episodeId = some showId := by
  unfold showForEpisode
  rw [he, Option.filter_some_pos (by simp [hek])]
  simp only [Option.bind_eq_bind, Option.bind_some]
  rw [hep, Option.bind_some, hs, Option.filter_some_pos (by simp [hsk]), Option.bind_some, hsp,
    Option.bind_some, hr,
    Option.filter_some_pos (by simp [hrk]), Option.bind_some]
  exact congrArg some (Table.key_of_get? hr)

/-- What a created item leaves. -/
structure Created (source : Nat) (event : ExportEvent) (mediaId : Nat)
    (s s' : Importing) : Prop where
  grows : s.Grows source s'
  free : s.db.mediaItems.get? mediaId = none
  match_eq : ∀ kind identifiers, kind ≠ .show → s'.index.match kind identifiers =
    (s.index.add event.media.kind mediaId event.identifiers).match kind identifiers
  named : ∀ x ∈ event.identifiers, s'.db.Identifies mediaId x
  above : ∀ showId ∈ s'.db.showForEpisode mediaId,
    s.index.match .show event.media.showIdentifiers = .item showId ∨
      ∀ x ∈ event.media.showIdentifiers, s'.db.Identifies showId x
  below : ∀ showId, s.index.match .show event.media.showIdentifiers = .item showId →
    s'.db.showForEpisode mediaId = some showId

theorem Created.exists_item {source : Nat} (h : Created source event mediaId s s') :
    (s'.db.mediaItems.get? mediaId).isSome = true := by
  obtain ⟨x, hx⟩ := List.exists_mem_of_ne_nil _ event.identified
  obtain ⟨r, hr, hitem, -⟩ := h.named x hx
  rw [← hitem]
  exact h.grows.sound.referenced.identifiers r hr

theorem createHistoricalMedia_created {source : Nat} (hs : s.Sound source)
    (h : trakt.createHistoricalMedia event s = some (s', mediaId)) :
    Created source event mediaId s s' := by
  unfold createHistoricalMedia at h
  cases hmedia : event.media with
  | movie year =>
    rw [hmedia] at h
    have hpair := Option.some.inj h
    obtain rfl : (trakt.historicalItem event year none none none s).1 = s' :=
      congrArg Prod.fst hpair
    obtain rfl : (trakt.historicalItem event year none none none s).2 = mediaId :=
      congrArg Prod.snd hpair
    obtain ⟨hgrows, hfree, hindex, -, hnamed⟩ :=
      @historicalItem_grows trakt s event source year none none none hs fun parent hp => by cases hp
    refine ⟨hgrows, hfree, fun kind identifiers _ => by rw [hindex], hnamed,
      fun showId _ => .inr fun x hx => ?_, fun showId hmatch => ?_⟩
    · rw [hmedia] at hx; cases hx
    · rw [hmedia] at hmatch
      exact absurd (hmatch.symm.trans match_nil) (by simp)
  | episode seasonNumber episodeNumber showTitle showYear showIdentifiers =>
    rw [hmedia] at h
    obtain ⟨⟨s₁, showId⟩, hshow, h⟩ := Option.bind_eq_some_iff.1 h
    obtain ⟨hfirst, hsame, ⟨row, hrow, hrowk⟩, hwhere⟩ := historicalShow_grows hs hshow
    let season := trakt.historicalSeason showId seasonNumber s₁
    obtain ⟨hsecond, hindex₂, below, hbelow, hbelowk, hbelowp⟩ :=
      @historicalSeason_grows trakt s₁ source showId seasonNumber hfirst.sound (by rw [hrow]; rfl)
    have hparent : ∀ parent ∈ some season.2,
        (season.1.db.mediaItems.get? parent).isSome = true := fun parent hp => by
      obtain rfl : season.2 = parent := by simpa using hp
      rw [hbelow]; rfl
    obtain ⟨hthird, hfree, hindex₃, ⟨m, hm, hmk, hmp⟩, hnamed⟩ :=
      @historicalItem_grows trakt season.1 event source none
        (some season.2) (some seasonNumber) (some episodeNumber) hsecond.sound hparent
    let item := trakt.historicalItem event none (some season.2) (some seasonNumber)
      (some episodeNumber) season.1
    have hpair : item = (s', mediaId) := Option.some.inj h
    obtain rfl : item.1 = s' := congrArg Prod.fst hpair
    obtain rfl : item.2 = mediaId := congrArg Prod.snd hpair
    have hgrows := (hfirst.trans hsecond).trans hthird
    have hfresh : s.db.mediaItems.get? item.2 = none := by
      by_contra hsome
      obtain ⟨m', hm'⟩ := Option.ne_none_iff_exists'.1 hsome
      have := (hfirst.trans hsecond).items _ m' hm'
      rw [hfree] at this
      cases this
    have hkind : event.media.kind = .episode := by rw [hmedia]; rfl
    have habove := showForEpisode_eq hm (hmk.trans hkind) hmp (hthird.items _ _ hbelow) hbelowk
      hbelowp (hthird.items _ _ (hsecond.items _ _ hrow)) hrowk
    refine ⟨hgrows, hfresh, fun kind identifiers hk => ?_, hnamed, fun showId' hshow' => ?_,
      fun showId' hmatch => ?_⟩
    · rw [hindex₃]
      refine MediaIndex.match_congr (fun i => MediaIndex.score_congr fun x _ => ?_) ?_
      · rw [MediaIndex.mem_add, MediaIndex.mem_add, hindex₂, hsame kind x i hk]
      · rw [MediaIndex.preferred_add, MediaIndex.preferred_add, hsecond.preferred, hfirst.preferred]
    · obtain rfl : showId = showId' := Option.some.inj (habove.symm.trans hshow')
      rw [hmedia]
      refine hwhere.imp id fun hnew x hx => ?_
      have hexists : (s₁.db.mediaItems.get? showId).isSome = true := by rw [hrow]; rfl
      exact ((hsecond.trans hthird).identifies showId x hexists).2 (hnew.2 x hx)
    · rw [hmedia] at hmatch
      have heq : s.index.match .show showIdentifiers = .item showId :=
        hwhere.resolve_right fun hnew => absurd (hmatch.symm.trans hnew.1) (by simp)
      obtain rfl : showId' = showId := by simpa using hmatch.symm.trans heq
      exact habove

/-! ### The second pass -/

/-- The event has its row and nothing is missing where it is matched. -/
def SettledAt (trakt : TraktImport) (s : Importing) (event : ExportEvent) : Prop :=
  ∀ i, s.index.match event.media.kind event.identifiers = .item i → s.db.Enriched event i ∧
    trakt.Recorded s.db event

theorem recorded_mono (h : ∀ e ∈ s.db.watchEvents.rows, e ∈ s'.db.watchEvents.rows)
    (hr : trakt.Recorded s.db event) :
    trakt.Recorded s'.db event := by
  unfold Recorded bySourceEventId at hr ⊢
  rw [List.find?_isSome] at hr ⊢
  obtain ⟨e, he, hp⟩ := hr
  exact ⟨e, h e he, hp⟩

/-- A new event has its row, and only the events change. -/
theorem newEvent_grows {source : Nat} (hs : s.Sound source)
    (hdb : s'.db = s.db.insertWatchEvent
      (trakt.newEvent s.db.watchEvents.nextId event.toHistoryEvent mediaId))
    (hindex : s'.index = s.index) :
    s.Grows source s' ∧ s'.index = s.index ∧ trakt.Recorded s'.db event := by
  let e := trakt.newEvent s.db.watchEvents.nextId event.toHistoryEvent mediaId
  have hframe : Frame [.watchEvents, .dirtyItems] s.db s'.db :=
    hdb ▸ insertWatchEvent_frame e
  have hrows : s'.db.watchEvents.rows = s.db.watchEvents.rows ++ [e] := by
    rw [hdb, watchEvents_insertWatchEvent]
    exact Table.rows_insert_of_get?_none (Table.get?_nextId _)
  refine ⟨.of_catalog hs hindex (hframe .mediaItems (by decide))
    (hframe .mediaIdentifiers (by decide)) (hframe .sourceMediaRefs (by decide))
    fun e' he' => ?_, hindex, ?_⟩
  · rw [hrows]; exact List.mem_append_left _ he'
  · unfold Recorded bySourceEventId
    rw [List.find?_isSome, hrows]
    exact ⟨e, List.mem_append_right _ List.mem_cons_self, by simp [e, newEvent]⟩

theorem recordEvent_grows {source : Nat} (hs : s.Sound source)
    (h : trakt.recordEvent event mediaId s = some s') :
    s.Grows source s' ∧ s'.index = s.index ∧ trakt.Recorded s'.db event := by
  by_cases hr : trakt.Recorded s.db event
  · obtain ⟨s₀, hs₀, hdb, hindex, -⟩ := @recordEvent_idle trakt s mediaId event hr
    obtain rfl := Option.some_inj.1 (hs₀.symm.trans h)
    refine ⟨.of_catalog hs hindex ?_ ?_ ?_ ?_, hindex, by rw [hdb]; exact hr⟩ <;> rw [hdb]
    exact fun _ he => he
  · unfold recordEvent at h
    obtain ⟨⟨db, touched⟩, himport, h⟩ := Option.bind_eq_some_iff.1 h
    have hnew := (if_neg hr).symm.trans himport
    split at hnew
    · cases hnew
    cases hnew
    cases h
    exact newEvent_grows hs rfl rfl

/-- The ways of an event through the second pass. -/
theorem importDecided_cases {source : Nat} {decided : ExportEvent × IndexMatch}
    (hs : s.Sound source) (h : trakt.importDecided s decided = some s') :
    (∃ report, s' = { s with report := report } ∧
      (decided.2 = .ambiguous ∨
        decided.2 = .unmatched ∧ s.index.match decided.1.media.kind decided.1.identifiers =
          .ambiguous)) ∨
    (∃ mediaId, trakt.recordEvent decided.1 mediaId s = some s' ∧
      (decided.2 = .item mediaId ∨
        decided.2 = .unmatched ∧ s.index.match decided.1.media.kind decided.1.identifiers =
          .item mediaId)) ∨
    ∃ s₁ mediaId, Created source decided.1 mediaId s s₁ ∧
    trakt.recordEvent decided.1 mediaId s₁ = some s' ∧
      decided.2 = .unmatched ∧ s.index.match decided.1.media.kind decided.1.identifiers =
        .unmatched := by
  unfold importDecided at h
  split at h
  next hd => cases h; exact .inl ⟨_, rfl, .inl hd⟩
  next mediaId hd => exact .inr (.inl ⟨mediaId, h, .inl hd⟩)
  next hd =>
    split at h
    next hmatch => cases h; exact .inl ⟨_, rfl, .inr ⟨hd, hmatch⟩⟩
    next mediaId hmatch => exact .inr (.inl ⟨mediaId, h, .inr ⟨hd, hmatch⟩⟩)
    next hmatch =>
      obtain ⟨⟨s₁, mediaId⟩, hcreated, h⟩ := Option.bind_eq_some_iff.1 h
      exact .inr (.inr ⟨s₁, mediaId, createHistoricalMedia_created hs hcreated, h, hd, hmatch⟩)

theorem importDecided_grows {source : Nat} {decided : ExportEvent × IndexMatch}
    (hs : s.Sound source) (h : trakt.importDecided s decided = some s') : s.Grows source s' := by
  rcases importDecided_cases hs h with ⟨report, rfl, -⟩ | ⟨mediaId, h, -⟩ | ⟨s₁, mediaId,
    hcreated, h, -⟩
  · exact ⟨⟨hs.indexed, hs.preferred, hs.referenced⟩, fun _ _ h => h, fun _ _ _ => Iff.rfl,
      fun _ h => h, rfl⟩
  · exact (recordEvent_grows hs h).1
  · exact hcreated.grows.trans (recordEvent_grows hcreated.grows.sound h).1

/-- An event that withstands what is created keeps its match. -/
theorem importDecided_match {source : Nat} {decided : ExportEvent × IndexMatch}
    (hs : s.Sound source) (h : trakt.importDecided s decided = some s')
    (hwithstands : decided.2 = .unmatched →
      s.index.match decided.1.media.kind decided.1.identifiers = .unmatched →
      event.media.kind = decided.1.media.kind →
        s.index.Withstands event.media.kind event.identifiers (decided.1.shared event)) :
    s'.index.match event.media.kind event.identifiers =
      s.index.match event.media.kind event.identifiers := by
  rcases importDecided_cases hs h with ⟨report, rfl, -⟩ | ⟨mediaId, h, -⟩ | ⟨s₁, mediaId, hcreated,
    h, hd, hmatch⟩
  · rfl
  · rw [(recordEvent_grows hs h).2.1]
  · rw [(recordEvent_grows hcreated.grows.sound h).2.1, hcreated.match_eq _ _ (kind_ne_show _)]
    by_cases hkind : event.media.kind = decided.1.media.kind
    · rw [← hkind]
      exact MediaIndex.match_add_fresh (fun x => hs.fresh hcreated.free _ x)
        (hs.unpreferred hcreated.free)
        (hwithstands hd hmatch hkind)
    · exact MediaIndex.match_add_of_kind hkind

/-- An event that finds everything is settled by its step. -/
theorem importDecided_settled {source : Nat} {decided : ExportEvent × IndexMatch}
    (hs : s.Sound source)
    (h : trakt.importDecided s decided = some s') (hkept : trakt.Kept s decided)
    (hlacks : decided.2 = .unmatched → LacksNothing s decided.1) :
    trakt.SettledAt s' decided.1 := by
  rcases importDecided_cases hs h with ⟨report, rfl, hd⟩ | ⟨mediaId, h, hd⟩ | ⟨s₁, mediaId,
    hcreated, h, hd, hmatch⟩
  · intro i hi
    rcases hd with hd | ⟨-, hambiguous⟩
    · obtain ⟨henriched, hrecorded⟩ := hkept (by rw [hd]; simp) i hi
      exact ⟨henriched, hrecorded hd⟩
    · exact absurd (hambiguous.symm.trans hi) (by simp)
  · obtain ⟨hgrows, hindex, hrecorded⟩ := recordEvent_grows hs h
    intro i hi
    rw [hindex] at hi
    obtain ⟨m, hm, -⟩ := hs.matched hi
    refine ⟨(hgrows.enriched_iff hs (by rw [hm]; rfl)).2 ?_, hrecorded⟩
    rcases hd with hd | ⟨hd, -⟩
    · exact (hkept (by rw [hd]; simp) i hi).1
    · exact (hlacks hd).1 i hi
  · obtain ⟨hgrows, hindex, hrecorded⟩ := recordEvent_grows hcreated.grows.sound h
    intro i hi
    rw [hindex, hcreated.match_eq _ _ (kind_ne_show _),
      MediaIndex.match_add_of_unmatched hmatch decided.1.identified] at hi
    obtain rfl : mediaId = i := by simpa using hi
    refine ⟨(hgrows.enriched_iff hcreated.grows.sound hcreated.exists_item).2
      ⟨hcreated.named, fun showId hshow x hx => ?_⟩, hrecorded⟩
    rcases hcreated.above showId hshow with hmatched | hnew
    · obtain ⟨m, hm, -⟩ := hs.matched hmatched
      exact (hcreated.grows.identifies showId x (by rw [hm]; rfl)).2
        ((hlacks hd).2 hmatch showId hmatched x hx)
    · exact hnew x hx

/-- An event that lacks something is not settled by its step. -/
theorem lacksNothing_of_settled {source : Nat} {decided : ExportEvent × IndexMatch}
    (hs : s.Sound source)
    (h : trakt.importDecided s decided = some s') (hd : decided.2 = .unmatched)
    (hsettled : ∀ i, s'.index.match decided.1.media.kind decided.1.identifiers = .item i →
      s'.db.Enriched decided.1 i) :
    LacksNothing s decided.1 := by
  have hgrows := importDecided_grows hs h
  rcases importDecided_cases hs h with ⟨report, rfl, hways⟩ | ⟨mediaId, h, hways⟩ | ⟨s₁, mediaId,
    hcreated, h, -, hmatch⟩
  · refine ⟨hsettled, fun hnone => ?_⟩
    rcases hways with hambiguous | ⟨-, hambiguous⟩
    exacts [absurd (hd.symm.trans hambiguous) (by simp),
      absurd (hnone.symm.trans hambiguous) (by simp)]
  · refine ⟨fun i hi => ?_, fun hnone => ?_⟩
    · obtain ⟨m, hm, -⟩ := hs.matched hi
      refine (hgrows.enriched_iff hs (by rw [hm]; rfl)).1 (hsettled i ?_)
      rwa [(recordEvent_grows hs h).2.1]
    · rcases hways with hitem | ⟨-, hitem⟩
      exacts [absurd (hd.symm.trans hitem) (by simp), absurd (hnone.symm.trans hitem) (by simp)]
  · refine ⟨fun i hi => absurd (hmatch.symm.trans hi) (by simp), fun _ showId hshow x hx => ?_⟩
    obtain ⟨hrecord, hindex, -⟩ := recordEvent_grows hcreated.grows.sound h
    have hself : s'.index.match decided.1.media.kind decided.1.identifiers = .item mediaId := by
      rw [hindex, hcreated.match_eq _ _ (kind_ne_show _)]
      exact MediaIndex.match_add_of_unmatched hmatch decided.1.identified
    obtain ⟨m, hm, -⟩ := hs.matched hshow
    have habove : s'.db.showForEpisode mediaId = some showId :=
      (hrecord.showForEpisode hcreated.grows.sound hcreated.exists_item).trans
        (hcreated.below showId hshow)
    exact (hgrows.identifies showId x (by rw [hm]; rfl)).1
      ((hsettled mediaId hself).2 showId habove x hx)

section Run
variable {source : Nat} {passed : List ExportEvent} {decisions : List (ExportEvent × IndexMatch)}

theorem importAll_grows_to (hs : s.Sound source)
    (h : decisions.foldlM trakt.importDecided s = some s') :
    s.Grows source s' := by
  induction decisions generalizing s with
  | nil => cases h; exact .refl hs
  | cons decided decisions ih =>
    obtain ⟨s₁, hs₁, hfold⟩ := Option.bind_eq_some_iff.1 h
    have hfirst := importDecided_grows hs hs₁
    exact hfirst.trans (ih hfirst.sound hfold)

/-- To the end of the pass an event keeps the match it has. -/
theorem importAll_match (hs : s.Sound source) (h : decisions.foldlM trakt.importDecided s = some s')
    (hsteady : trakt.SecondSteady s passed decisions) (hpassed : event ∈ passed) :
    s'.index.match event.media.kind event.identifiers =
      s.index.match event.media.kind event.identifiers := by
  induction decisions generalizing s passed with
  | nil => cases h; rfl
  | cons decided decisions ih =>
    obtain ⟨s₁, hs₁, hfold⟩ := Option.bind_eq_some_iff.1 h
    rw [ih (importDecided_grows hs hs₁).sound hfold (hsteady.2 s₁ hs₁)
      (List.mem_cons_of_mem _ hpassed)]
    exact importDecided_match hs hs₁ fun hd hmatch hkind => hsteady.1 hd hmatch event hpassed hkind

theorem settledAt_iff {s₁ : Importing} (hs : s.Sound source) (hgrows : s.Grows source s₁)
    (hmatch : s₁.index.match event.media.kind event.identifiers =
      s.index.match event.media.kind event.identifiers)
    (h : trakt.SettledAt s event) : trakt.SettledAt s₁ event := by
  intro i hi
  rw [hmatch] at hi
  obtain ⟨m, hm, -⟩ := hs.matched hi
  exact ⟨(hgrows.enriched_iff hs (by rw [hm]; rfl)).2 (h i hi).1,
    recorded_mono hgrows.events (h i hi).2⟩

/-- A steady second pass that lacks nothing settles every event. -/
theorem importAll_settled (hs : s.Sound source)
    (h : decisions.foldlM trakt.importDecided s = some s')
    (hsteady : trakt.SecondSteady s passed decisions) (hcomplete : trakt.SecondComplete s decisions)
    (hkept : ∀ decided ∈ decisions, trakt.Kept s decided)
    (hpassed : ∀ decided ∈ decisions, decided.2 ≠ .unmatched → decided.1 ∈ passed) :
    ∀ decided ∈ decisions, trakt.SettledAt s' decided.1 := by
  induction decisions generalizing s passed with
  | nil => exact fun decided hd => by cases hd
  | cons first decisions ih =>
    obtain ⟨s₁, hs₁, hfold⟩ := Option.bind_eq_some_iff.1 h
    have hgrows := importDecided_grows hs hs₁
    intro decided hd
    rcases List.mem_cons.1 hd with rfl | hd
    · have hsettled := importDecided_settled hs hs₁ (hkept decided List.mem_cons_self) hcomplete.1
      exact settledAt_iff hgrows.sound (importAll_grows_to hgrows.sound hfold)
        (importAll_match hgrows.sound hfold (hsteady.2 s₁ hs₁) List.mem_cons_self) hsettled
    · refine ih hgrows.sound hfold (hsteady.2 s₁ hs₁) (hcomplete.2 s₁ hs₁)
        (fun later hl hne i hi => ?_)
        (fun later hl hne =>
          List.mem_cons_of_mem _ (hpassed later (List.mem_cons_of_mem _ hl) hne)) decided hd
      have hlater := List.mem_cons_of_mem first hl
      rw [importDecided_match hs hs₁ fun hf hmatch hkind =>
        hsteady.1 hf hmatch _ (hpassed later hlater hne) hkind] at hi
      obtain ⟨m, hm, -⟩ := hs.matched hi
      obtain ⟨henriched, hrecorded⟩ := hkept later hlater hne i hi
      exact ⟨(hgrows.enriched_iff hs (by rw [hm]; rfl)).2 henriched, fun ha =>
        recorded_mono hgrows.events (hrecorded ha)⟩

/-- What a steady second pass lacked it still lacks at its end. -/
theorem complete_of_settled (hs : s.Sound source)
    (h : decisions.foldlM trakt.importDecided s = some s')
    (hsteady : trakt.SecondSteady s passed decisions)
    (hsettled : ∀ decided ∈ decisions, trakt.SettledAt s' decided.1) :
    trakt.SecondComplete s decisions := by
  induction decisions generalizing s passed with
  | nil => trivial
  | cons decided decisions ih =>
    obtain ⟨s₁, hs₁, hfold⟩ := Option.bind_eq_some_iff.1 h
    have hgrows := importDecided_grows hs hs₁
    have hrest := importAll_grows_to hgrows.sound hfold
    refine ⟨fun hd => lacksNothing_of_settled hs hs₁ hd fun i hi => ?_, fun s₂ hs₂ => ?_⟩
    · obtain ⟨m, hm, -⟩ := hgrows.sound.matched hi
      refine (hrest.enriched_iff hgrows.sound (by rw [hm]; rfl)).1
        (hsettled decided List.mem_cons_self i ?_).1
      rwa [importAll_match hgrows.sound hfold (hsteady.2 s₁ hs₁) List.mem_cons_self]
    · obtain rfl : s₁ = s₂ := Option.some.inj (hs₁.symm.trans hs₂)
      exact ih hgrows.sound hfold (hsteady.2 s₁ hs₁) fun later hl =>
        hsettled later (List.mem_cons_of_mem _ hl)

end Run

theorem settled_finish (hs : s.Sound trakt.sourceId) :
    trakt.Settled (trakt.finish s) event ↔ trakt.SettledAt s event := by
  obtain ⟨hitems, hids, hevents⟩ := @finish_tables trakt s
  have hmatch : (MediaIndex.load (trakt.finish s) trakt.sourceId).match event.media.kind
      event.identifiers =
      s.index.match event.media.kind event.identifiers := by
    rw [load_finish]
    refine MediaIndex.match_congr (fun i => MediaIndex.score_congr fun x _ => ?_) hs.preferred.symm
    rw [MediaIndex.mem_load, hs.indexed]
  have henriched : ∀ i, (trakt.finish s).Enriched event i ↔ s.db.Enriched event i := by
    intro i
    unfold Database.Enriched Database.Identifies showForEpisode
    rw [hitems, hids]
  have hrecorded : trakt.Recorded (trakt.finish s) event ↔ trakt.Recorded s.db event := by
    unfold Recorded bySourceEventId
    rw [hevents]
  unfold Settled SettledAt
  simp only [hmatch, henriched, hrecorded]

/-- After a steady first import every event is settled exactly when the second pass lacked
nothing. -/
theorem settled_iff_complete {events : List ExportEvent} (hkeys : db.Keyed)
    (hsteady : trakt.Steady events db) (h : trakt.passes events db = some s) :
    (∀ event ∈ events, trakt.Settled (trakt.finish s) event) ↔ trakt.Complete events db := by
  let first := trakt.associateAll (trakt.start events db) events
  have hstart : (trakt.start events db).Sound trakt.sourceId := Importing.sound_load hkeys
  have hsound : first.1.Sound trakt.sourceId := associateAll_sound hstart
  have hevents : first.2.map Prod.fst = events := (associateAll_found hstart.known).1
  have hfinal : s.Sound trakt.sourceId := (importAll_grows_to hsound h).sound
  have hall : (∀ event ∈ events, trakt.Settled (trakt.finish s) event) ↔ ∀ decided ∈ first.2,
      trakt.SettledAt s decided.1 := by
    conv_lhs => rw [← hevents]
    simp only [List.forall_mem_map, settled_finish hfinal]
  rw [hall]
  constructor
  · exact complete_of_settled hsound h hsteady.2
  · intro hcomplete
    have hkept := (associateAll_kept hstart hsteady.1 fun decided hd => by cases hd).2
    refine importAll_settled hsound h hsteady.2 hcomplete hkept fun decided hd hne => ?_
    exact List.mem_map.2 ⟨decided, List.mem_filter.2 ⟨hd, by simpa using hne⟩, rfl⟩

/-- The report of an import adds up, a second import of the archive changes neither the catalogue
nor the history, and its report adds up. -/
def Idempotent (trakt : TraktImport) (later : Time) (events : List ExportEvent) (db' : Database)
    (report : ImportReport) : Prop :=
  report.Balanced ∧ ∃ db'' report', { trakt with now := later }.importArchive events db' =
    some (db'', report') ∧
    db'.SameHistory db'' ∧ report'.Balanced

theorem idempotent_iff_settled {events : List ExportEvent} {db' : Database} {report : ImportReport}
    (later : Time) (h : trakt.importArchive events db = some (db', report)) :
    trakt.Idempotent later events db' report ↔ ∀ event ∈ events, trakt.Settled db' event := by
  have hne : events ≠ [] := by
    rintro rfl
    cases h
  constructor
  · rintro ⟨-, db'', report', hagain, hsame, -⟩ event he
    exact @settled_of_rows { trakt with now := later } events db' db'' report' hagain
      hsame.rows event he
  · intro hsettled
    have hfound : ∀ event ∈ events, event.Found (.load db' trakt.sourceId) := importArchive_found h
    obtain ⟨report', hagain⟩ :=
      @importArchive_idle { trakt with now := later } events db' hne hfound hsettled
    exact ⟨importArchive_balanced h, db', report', hagain, ⟨rfl, rfl, rfl, rfl⟩,
      importArchive_balanced hagain⟩

/-- When no step of the first import moves an event that was decided before, a second import is idle
exactly when the second pass of the first one lacked nothing where it matched or created; in any
case it is idle exactly when it starts from settled events. -/
theorem repeated_import_iff {events : List ExportEvent} {db' : Database} {report : ImportReport}
    (later : Time) (h : trakt.importArchive events db = some (db', report)) :
    (db.Keyed → trakt.Steady events db →
      (trakt.Idempotent later events db' report ↔ trakt.Complete events db)) ∧
      (trakt.Idempotent later events db' report ↔ ∀ event ∈ events, trakt.Settled db' event) := by
  refine ⟨fun hkeys hsteady => ?_, idempotent_iff_settled later h⟩
  obtain ⟨s, hs, rfl, -⟩ := of_importArchive h
  rw [idempotent_iff_settled later h, settled_iff_complete hkeys hsteady hs]

/-! A server's show that the export names differently, and its first episode. -/

def oneUser : TraktImport :=
  { py := .plain, timestamp := fun t => toString t, sourceId := 1, plexUser := "user", now := 100 }

def pilot : ExportEvent where
  eventId := "1"
  watchedAt := 50
  title := "Pilot"
  identifiers := [⟨"trakt", "11"⟩]
  media := .episode 1 1 "Show" none [⟨"trakt", "10"⟩, ⟨"tvdb", "20"⟩]

def knownShow : Database :=
  (Database.empty.insertMediaItem { id := 1, kind := .show, title := "Show" }).insertMediaIdentifier
    ⟨1, 1, "tvdb", "20", 0⟩

theorem passes_pilot : (oneUser.passes [pilot] knownShow).isSome = true := by decide +kernel

/-- The episode is created below the show, which still lacks an identifier of the export. -/
theorem pilot_incomplete : knownShow.Keyed ∧ oneUser.Steady [pilot] knownShow ∧
    ¬ oneUser.Complete [pilot] knownShow := by
  decide +kernel

/-- A second import can add an identifier that the first one left out. -/
theorem repeated_import_changes :
    ∃ db' report, oneUser.importArchive [pilot] knownShow = some (db', report) ∧
    ¬ ∃ db'' report', oneUser.importArchive [pilot] db' = some (db'', report') ∧
    db'.SameHistory db'' := by
  obtain ⟨s, hs⟩ := Option.isSome_iff_exists.1 passes_pilot
  obtain ⟨hkeys, hsteady, hincomplete⟩ := pilot_incomplete
  refine ⟨_, _, importArchive_of_passes (by simp) hs, ?_⟩
  rintro ⟨db'', report', hagain, hsame⟩
  exact hincomplete ((settled_iff_complete hkeys hsteady hs).1 (settled_of_rows hagain hsame.rows))

/-! A film the catalogue has, which gets an identifier and is found again by it, a film and a show
it does not have. -/

def evening : List ExportEvent :=
  [{ eventId := "1", watchedAt := 10, title := "Film",
     identifiers := [⟨"imdb", "tt1"⟩, ⟨"tmdb", "5"⟩], media := .movie none },
    { eventId := "2", watchedAt := 20, title := "Film", identifiers := [⟨"tmdb", "5"⟩],
      media := .movie none },
    { eventId := "3", watchedAt := 30, title := "Other",
      identifiers := [⟨"tmdb", "7"⟩, ⟨"imdb", "tt7"⟩], media := .movie none },
    { eventId := "4", watchedAt := 40, title := "Other", identifiers := [⟨"tmdb", "7"⟩],
      media := .movie none },
    { eventId := "5", watchedAt := 50, title := "Pilot", identifiers := [⟨"trakt", "11"⟩],
      media := pilot.media },
    { eventId := "6", watchedAt := 60, title := "Second", identifiers := [⟨"trakt", "12"⟩],
      media := .episode 1 2 "Show" none pilot.media.showIdentifiers }]

def knownFilm : Database :=
  (Database.empty.insertMediaItem
    { id := 1, kind := .movie, title := "Film" }).insertMediaIdentifier ⟨1, 1, "imdb", "tt1", 0⟩

theorem passes_evening : (oneUser.passes evening knownFilm).isSome = true := by decide +kernel

theorem repeated_import_iff_evening :
    ∃ db' report, oneUser.importArchive evening knownFilm = some (db', report) ∧
    oneUser.Idempotent 200 evening db' report := by
  obtain ⟨s, hs⟩ := Option.isSome_iff_exists.1 passes_evening
  have himport := importArchive_of_passes (by simp [evening]) hs
  have hcomplete : oneUser.Complete evening knownFilm := by decide +kernel
  exact ⟨_, _, himport,
    ((repeated_import_iff 200 himport).1 (by decide +kernel) (by decide +kernel)).2 hcomplete⟩

end TraktImport

end Euvieouvi
