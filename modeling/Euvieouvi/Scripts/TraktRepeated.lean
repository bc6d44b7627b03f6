import Euvieouvi.Playback.Agreement
import Euvieouvi.Scripts.TraktIndex

/-!
# An archive imported twice

Every step of an import either leaves the catalogue and the history alone or adds rows, so a second
one changes nothing exactly when each of its steps is idle. After an import every event is found
in the index or is ambiguous (`Found`), so the second import creates nothing; it still inserts where
the first one matched an event in its second pass, created an episode below a show it knew, or left
an event ambiguous that later identifiers decide. `Settled` says that none of this is left to do for
an event.
-/

namespace Euvieouvi

open Database

/-- The index knows some item under an identifier of the event. -/
def ExportEvent.Found (event : ExportEvent) (index : MediaIndex) : Prop :=
  ∃ x ∈ event.identifiers, ∃ i, i ∈ index.byIdentifier event.media.kind x

theorem ExportEvent.found_iff {event : ExportEvent} {index : MediaIndex} :
    event.Found index ↔ index.match event.media.kind event.identifiers ≠ .unmatched := by
  rw [Ne, MediaIndex.match_eq_unmatched, List.eq_nil_iff_forall_not_mem]
  push Not
  constructor
  · rintro ⟨x, hx, i, hi⟩
    exact ⟨i, MediaIndex.mem_candidates.2 ⟨x, hx, hi⟩⟩
  · rintro ⟨i, hi⟩
    obtain ⟨x, hx, hi⟩ := MediaIndex.mem_candidates.1 hi
    exact ⟨x, hx, i, hi⟩

/-! ### What a step adds -/

/-- The number of rows in the tables an import adds to. -/
def Database.importedRows (db : Database) : Nat :=
  db.mediaItems.rows.length + db.mediaIdentifiers.rows.length + db.watchEvents.rows.length

/-- Identifiers and items of `db` are still there. -/
structure Database.NamesKept (db db' : Database) : Prop where
  identifiers : ∀ r ∈ db.mediaIdentifiers.rows, r ∈ db'.mediaIdentifiers.rows
  items : ∀ i m, db.mediaItems.get? i = some m → db'.mediaItems.get? i = some m
  rows : db.importedRows ≤ db'.importedRows

namespace Database.NamesKept
variable {db db' db'' : Database}

theorem refl (db : Database) : NamesKept db db := ⟨fun _ h => h, fun _ _ h => h, le_rfl⟩

theorem trans (h : NamesKept db db') (h' : NamesKept db' db'') : NamesKept db db'' :=
  ⟨fun r hr => h'.identifiers r (h.identifiers r hr), fun i m hm => h'.items i m (h.items i m hm),
    h.rows.trans h'.rows⟩

theorem identifies (h : NamesKept db db') {i : Nat} {x : ExternalIdentifier}
    (hx : db.Identifies i x) : db'.Identifies i x := by
  obtain ⟨r, hr, hrow⟩ := hx
  exact ⟨r, h.identifiers r hr, hrow⟩

theorem names (h : NamesKept db db') {k : MediaKind} {x : ExternalIdentifier} {i : Nat}
    (hx : db.Names k x i) :
    db'.Names k x i := by
  obtain ⟨hx, m, hm, hk⟩ := hx
  exact ⟨h.identifies hx, m, h.items i m hm, hk⟩

end Database.NamesKept

namespace TraktImport
variable {trakt : TraktImport} {db : Database} {mediaId : Nat} {x : ExternalIdentifier}
  {identifiers : List ExternalIdentifier}

theorem insertOrIgnore_of_identified (h : db.Identifies mediaId x) :
    trakt.insertOrIgnore mediaId db x = (db, 0) := by
  obtain ⟨r, hr, rfl, rfl⟩ := h
  unfold insertOrIgnore
  rw [if_pos]
  exact List.any_eq_true.2 ⟨r, hr, by simp [MediaIdentifier.identity]⟩

/-- An identifier the item lacks is one more row. -/
theorem insertOrIgnore_rows (h : ¬ db.Identifies mediaId x) :
    Frame [.mediaIdentifiers] db (trakt.insertOrIgnore mediaId db x).1 ∧
    ∃ r : MediaIdentifier, r.mediaItemId = mediaId ∧ r.identity = x ∧
      (trakt.insertOrIgnore mediaId db x).1.mediaIdentifiers.rows =
        db.mediaIdentifiers.rows ++ [r] := by
  have hnone : ¬ (db.mediaIdentifiers.rows.any fun r =>
      r.mediaItemId == mediaId && r.provider == x.provider && r.externalId == x.externalId) =
        true := by
    intro hany
    obtain ⟨r, hr, hrow⟩ := List.any_eq_true.1 hany
    simp only [Bool.and_eq_true, beq_iff_eq] at hrow
    obtain ⟨⟨hitem, hp⟩, hid⟩ := hrow
    exact h ⟨r, hr, hitem, by rw [MediaIdentifier.identity, hp, hid]⟩
  unfold insertOrIgnore
  rw [if_neg hnone]
  refine ⟨insertMediaIdentifier_frame _,
    ⟨db.mediaIdentifiers.nextId, mediaId, x.provider, x.externalId, trakt.now⟩, rfl, rfl, ?_⟩
  rw [mediaIdentifiers_insertMediaIdentifier]
  exact Table.rows_insert_of_get?_none (Table.get?_nextId _)

theorem insertOrIgnore_of_new (h : ¬ db.Identifies mediaId x) :
    db.NamesKept (trakt.insertOrIgnore mediaId db x).1 ∧
    (trakt.insertOrIgnore mediaId db x).1.Identifies mediaId x ∧
      db.importedRows < (trakt.insertOrIgnore mediaId db x).1.importedRows := by
  obtain ⟨hframe, r, hitem, hx, hrows⟩ := @insertOrIgnore_rows trakt db mediaId x h
  have hitems : (trakt.insertOrIgnore mediaId db x).1.mediaItems = db.mediaItems :=
    hframe .mediaItems (by decide)
  have hevents : (trakt.insertOrIgnore mediaId db x).1.watchEvents = db.watchEvents :=
    hframe .watchEvents (by decide)
  have hlt : db.importedRows < (trakt.insertOrIgnore mediaId db x).1.importedRows := by
    unfold importedRows
    rw [hitems, hevents, hrows, List.length_append, List.length_singleton]
    omega
  refine ⟨⟨fun r' hr' => ?_, fun i m hm => ?_, hlt.le⟩, ⟨r, ?_, hitem, hx⟩, hlt⟩
  · rw [hrows]; exact List.mem_append_left _ hr'
  · rw [hitems]; exact hm
  · rw [hrows]; exact List.mem_append_right _ List.mem_cons_self

theorem insertOrIgnore_kept (mediaId : Nat) (db : Database) (x : ExternalIdentifier) :
    db.NamesKept (trakt.insertOrIgnore mediaId db x).1 ∧
    (trakt.insertOrIgnore mediaId db x).1.Identifies mediaId x := by
  by_cases h : db.Identifies mediaId x
  · rw [insertOrIgnore_of_identified h]; exact ⟨.refl db, h⟩
  · obtain ⟨hkept, hid, -⟩ := @insertOrIgnore_of_new trakt db mediaId x h
    exact ⟨hkept, hid⟩

/-- The counts do not matter to the rows. -/
theorem insertIdentifiers_cons : (trakt.insertIdentifiers mediaId (x :: identifiers) db).1 =
    (trakt.insertIdentifiers mediaId identifiers (trakt.insertOrIgnore mediaId db x).1).1 := by
  have hcount : ∀ (identifiers : List ExternalIdentifier) (db : Database) (n n' : Nat),
      (identifiers.foldl (fun (acc : Database × Nat) x => ((trakt.insertOrIgnore mediaId acc.1 x).1,
        acc.2 + (trakt.insertOrIgnore mediaId acc.1 x).2)) (db, n)).1 =
      (identifiers.foldl (fun (acc : Database × Nat) x => ((trakt.insertOrIgnore mediaId acc.1 x).1,
        acc.2 + (trakt.insertOrIgnore mediaId acc.1 x).2)) (db, n')).1 := by
    intro identifiers
    induction identifiers with
    | nil => exact fun _ _ _ => rfl
    | cons y identifiers ih => exact fun _ _ _ => ih _ _ _
  exact hcount identifiers _ _ _

theorem insertIdentifiers_kept (mediaId : Nat) (identifiers : List ExternalIdentifier)
    (db : Database) :
    db.NamesKept (trakt.insertIdentifiers mediaId identifiers db).1 ∧
      ∀ x ∈ identifiers,
        (trakt.insertIdentifiers mediaId identifiers db).1.Identifies mediaId x := by
  induction identifiers generalizing db with
  | nil => exact ⟨.refl db, fun x hx => by cases hx⟩
  | cons x identifiers ih =>
    obtain ⟨hkept, hx⟩ := @insertOrIgnore_kept trakt mediaId db x
    obtain ⟨hrest, hnamed⟩ := ih (trakt.insertOrIgnore mediaId db x).1
    rw [insertIdentifiers_cons]
    refine ⟨hkept.trans hrest, fun y hy => ?_⟩
    rcases List.mem_cons.1 hy with rfl | hy
    exacts [hrest.identifies hx, hnamed y hy]

theorem insertIdentifiers_of_identified (h : ∀ x ∈ identifiers, db.Identifies mediaId x) :
    (trakt.insertIdentifiers mediaId identifiers db).1 = db := by
  induction identifiers with
  | nil => rfl
  | cons x identifiers ih =>
    rw [insertIdentifiers_cons, insertOrIgnore_of_identified (h x List.mem_cons_self)]
    exact ih fun y hy => h y (List.mem_cons_of_mem _ hy)

theorem insertIdentifiers_grows (h : ¬ ∀ x ∈ identifiers, db.Identifies mediaId x) :
    db.importedRows < (trakt.insertIdentifiers mediaId identifiers db).1.importedRows := by
  induction identifiers with
  | nil => exact absurd (fun x hx => by cases hx) h
  | cons x identifiers ih =>
    rw [insertIdentifiers_cons]
    by_cases hx : db.Identifies mediaId x
    · rw [insertOrIgnore_of_identified hx]
      refine ih fun hrest => h fun y hy => ?_
      rcases List.mem_cons.1 hy with rfl | hy
      exacts [hx, hrest y hy]
    · obtain ⟨-, -, hlt⟩ := @insertOrIgnore_of_new trakt db mediaId x hx
      exact hlt.trans_le (insertIdentifiers_kept mediaId identifiers _).1.rows

end TraktImport

namespace Importing
variable {s s' s'' : Importing}

/-- The index holds only what the tables say. -/
def Known (s : Importing) : Prop := ∀ k x i, i ∈ s.index.byIdentifier k x → s.db.Names k x i

/-- A step: the catalogue and the index grow, and the index stays true. -/
structure Extends (s s' : Importing) : Prop where
  kept : s.db.NamesKept s'.db
  index : ∀ k x i, i ∈ s.index.byIdentifier k x → i ∈ s'.index.byIdentifier k x
  known : s.Known → s'.Known

namespace Extends

theorem refl (s : Importing) : Extends s s := ⟨.refl s.db, fun _ _ _ h => h, id⟩

theorem trans (h : Extends s s') (h' : Extends s' s'') : Extends s s'' :=
  ⟨h.kept.trans h'.kept, fun k x i hi => h'.index k x i (h.index k x i hi), fun hs =>
    h'.known (h.known hs)⟩

/-- A step that leaves the index as it is. -/
theorem of_index (hkept : s.db.NamesKept s'.db) (hindex : s'.index = s.index) : Extends s s' := by
  refine ⟨hkept, fun k x i hi => by rwa [hindex], fun hs k x i hi => ?_⟩
  rw [hindex] at hi
  exact hkept.names (hs k x i hi)

end Extends

end Importing

/-- The identifiers `show_identifiers` of an event; a movie has none. -/
def ExportMedia.showIdentifiers : ExportMedia → List ExternalIdentifier
  | movie _ => []
  | episode _ _ _ _ showIdentifiers => showIdentifiers

/-- The item has every identifier of the event, and its show every one of the show. -/
def Database.Enriched (db : Database) (event : ExportEvent) (mediaId : Nat) : Prop :=
  (∀ x ∈ event.identifiers, db.Identifies mediaId x) ∧
    ∀ showId, db.showForEpisode mediaId = some showId → ∀ x ∈ event.media.showIdentifiers,
      db.Identifies showId x

theorem Database.showForEpisode_kind {db : Database} {episodeId showId : Nat}
    (h : db.showForEpisode episodeId = some showId) :
    ∃ m, db.mediaItems.get? showId = some m ∧ m.kind = .show := by
  unfold showForEpisode at h
  obtain ⟨episode, -, h⟩ := Option.bind_eq_some_iff.1 h
  obtain ⟨season, -, h⟩ := Option.bind_eq_some_iff.1 h
  obtain ⟨m, hm, h⟩ := Option.bind_eq_some_iff.1 h
  obtain ⟨hparent, hk⟩ := Option.filter_eq_some_iff.1 hm
  obtain ⟨i, -, hi⟩ := Option.bind_eq_some_iff.1 hparent
  obtain rfl : m.id = showId := Option.some_inj.1 h
  exact ⟨m, by rw [Table.key_of_get? hi]; exact hi, by simpa using hk⟩

namespace TraktImport
variable {trakt : TraktImport} {s : Importing} {kind : MediaKind} {mediaId : Nat}
  {identifiers : List ExternalIdentifier}
  {event : ExportEvent}

theorem addIdentifiers_extends (hitem : ∃ m, s.db.mediaItems.get? mediaId = some m ∧
      m.kind = kind) :
    s.Extends (trakt.addIdentifiers kind mediaId identifiers s) := by
  obtain ⟨hkept, hnamed⟩ := @insertIdentifiers_kept trakt mediaId identifiers s.db
  refine ⟨hkept, fun k x i hi => MediaIndex.mem_add.2 (.inl hi), fun hs k x i hi => ?_⟩
  rcases MediaIndex.mem_add.1 hi with hi | ⟨rfl, hx, rfl⟩
  · exact hkept.names (hs k x i hi)
  · obtain ⟨m, hm, hk⟩ := hitem
    exact ⟨hnamed x hx, m, hkept.items _ m hm, hk⟩

/-- Nothing is added to an item that has the identifiers. -/
theorem addIdentifiers_idle (hindex : s.index = .load s.db trakt.sourceId)
    (hitem : ∃ m, s.db.mediaItems.get? mediaId = some m ∧ m.kind = kind)
    (h : ∀ x ∈ identifiers, s.db.Identifies mediaId x) :
    (trakt.addIdentifiers kind mediaId identifiers s).db = s.db ∧
      (trakt.addIdentifiers kind mediaId identifiers s).index = s.index := by
  refine ⟨insertIdentifiers_of_identified h, MediaIndex.add_of_mem fun x hx => ?_⟩
  rw [hindex]
  exact MediaIndex.mem_load.2 ⟨h x hx, hitem⟩

theorem addIdentifiers_grows (h : ¬ ∀ x ∈ identifiers, s.db.Identifies mediaId x) :
    s.db.importedRows < (trakt.addIdentifiers kind mediaId identifiers s).db.importedRows :=
  insertIdentifiers_grows h

/-- An item the index matches has the kind of the event. -/
theorem kind_of_match (hs : s.Known) (h : s.index.match kind identifiers = .item mediaId) :
    ∃ m, s.db.mediaItems.get? mediaId = some m ∧ m.kind = kind := by
  obtain ⟨x, -, hx⟩ := MediaIndex.mem_of_match h
  exact (hs kind x mediaId hx).2

theorem enrichShow_extends : s.Extends (trakt.enrichShow event.media mediaId s) := by
  unfold enrichShow
  split
  · exact .refl s
  split
  · exact .refl s
  next hshow => exact addIdentifiers_extends (showForEpisode_kind hshow)

theorem enrichShow_idle (hindex : s.index = .load s.db trakt.sourceId)
    (h : ∀ showId, s.db.showForEpisode mediaId = some showId → ∀ x ∈ event.media.showIdentifiers,
      s.db.Identifies showId x) :
    (trakt.enrichShow event.media mediaId s).db = s.db ∧
    (trakt.enrichShow event.media mediaId s).index = s.index ∧
      (trakt.enrichShow event.media mediaId s).touched = s.touched := by
  unfold enrichShow
  generalize event.media = media at h
  cases media with
  | movie year => exact ⟨rfl, rfl, rfl⟩
  | episode season episode title year showIdentifiers =>
    dsimp only
    split
    · exact ⟨rfl, rfl, rfl⟩
    next showId hshow =>
      obtain ⟨hdb, hidx⟩ := addIdentifiers_idle hindex (showForEpisode_kind hshow) (h showId hshow)
      exact ⟨hdb, hidx, rfl⟩

theorem enrichShow_grows {showId : Nat} (hshow : s.db.showForEpisode mediaId = some showId)
    (h : ¬ ∀ x ∈ event.media.showIdentifiers, s.db.Identifies showId x) :
    s.db.importedRows < (trakt.enrichShow event.media mediaId s).db.importedRows := by
  unfold enrichShow
  generalize event.media = media at h
  cases media with
  | movie year => exact absurd (fun x hx => by cases hx) h
  | episode season episode title year showIdentifiers =>
    dsimp only
    rw [hshow]
    exact addIdentifiers_grows h

theorem enrich_extends (hitem : ∃ m, s.db.mediaItems.get? mediaId = some m ∧
      m.kind = event.media.kind) :
    s.Extends (trakt.enrich event mediaId s) := by
  let counted : Importing :=
    { s with report := { s.report with mediaMatched := s.report.mediaMatched + 1 } }
  have hcounted : s.Extends counted := .of_index (.refl s.db) rfl
  have hmatched :
      counted.Extends (trakt.addIdentifiers event.media.kind mediaId event.identifiers counted) :=
    addIdentifiers_extends hitem
  exact (hcounted.trans hmatched).trans enrichShow_extends

theorem enrich_idle (hindex : s.index = .load s.db trakt.sourceId)
    (hitem : ∃ m, s.db.mediaItems.get? mediaId = some m ∧ m.kind = event.media.kind)
    (h : s.db.Enriched event mediaId) :
    (trakt.enrich event mediaId s).db = s.db ∧ (trakt.enrich event mediaId s).index = s.index ∧
      (trakt.enrich event mediaId s).touched = s.touched := by
  let counted : Importing :=
    { s with report := { s.report with mediaMatched := s.report.mediaMatched + 1 } }
  let matched := trakt.addIdentifiers event.media.kind mediaId event.identifiers counted
  obtain ⟨hdb, hidx⟩ :=
    @addIdentifiers_idle trakt counted event.media.kind mediaId event.identifiers hindex hitem h.1
  have hmatched : matched.index = .load matched.db trakt.sourceId := by
    rw [hidx, hdb]; exact hindex
  obtain ⟨hdb', hidx', htouched⟩ :=
    @enrichShow_idle trakt matched mediaId event hmatched (by rw [hdb]; exact h.2)
  exact ⟨hdb'.trans hdb, hidx'.trans hidx, htouched⟩

theorem enrich_grows (h : ¬ s.db.Enriched event mediaId) :
    s.db.importedRows < (trakt.enrich event mediaId s).db.importedRows := by
  let counted : Importing :=
    { s with report := { s.report with mediaMatched := s.report.mediaMatched + 1 } }
  let matched := trakt.addIdentifiers event.media.kind mediaId event.identifiers counted
  have hsecond : matched.Extends (trakt.enrich event mediaId s) := enrichShow_extends
  by_cases hids : ∀ x ∈ event.identifiers, s.db.Identifies mediaId x
  · have hdb : matched.db = s.db := insertIdentifiers_of_identified hids
    have hshow : ∃ showId, s.db.showForEpisode mediaId = some showId ∧
        ¬ ∀ x ∈ event.media.showIdentifiers, s.db.Identifies showId x := by
      by_contra hnone
      exact h ⟨hids, fun showId hshow => by_contra fun hx => hnone ⟨showId, hshow, hx⟩⟩
    obtain ⟨showId, hshow, hx⟩ := hshow
    have hlt := @enrichShow_grows trakt matched mediaId event showId (by rw [hdb]; exact hshow)
      (by rw [hdb]; exact hx)
    rwa [hdb] at hlt
  · have hlt : s.db.importedRows < matched.db.importedRows :=
      @addIdentifiers_grows trakt counted event.media.kind mediaId event.identifiers hids
    exact hlt.trans_le hsecond.kept.rows

@[simp] theorem associate_decision :
    (trakt.associate s event).2 = s.index.match event.media.kind event.identifiers := by
  unfold associate
  dsimp only
  split <;> rfl

theorem associate_extends (hs : s.Known) : s.Extends (trakt.associate s event).1 := by
  unfold associate
  dsimp only
  split
  · exact .of_index (.refl s.db) rfl
  · exact .refl s
  next hmatch => exact enrich_extends (kind_of_match hs hmatch)

theorem known_load (h : s.index = .load s.db trakt.sourceId) : s.Known := by
  intro k x i hi
  rw [h] at hi
  exact MediaIndex.mem_load.1 hi

/-- What is left to do for the event in the first pass is nothing. -/
theorem associate_idle (hindex : s.index = .load s.db trakt.sourceId)
    (h : ∀ mediaId, s.index.match event.media.kind event.identifiers = .item mediaId →
      s.db.Enriched event mediaId) :
    (trakt.associate s event).1.db = s.db ∧ (trakt.associate s event).1.index = s.index ∧
      (trakt.associate s event).1.touched = s.touched := by
  unfold associate
  dsimp only
  split
  · exact ⟨rfl, rfl, rfl⟩
  · exact ⟨rfl, rfl, rfl⟩
  next mediaId hmatch =>
    exact enrich_idle hindex (kind_of_match (known_load hindex) hmatch) (h mediaId hmatch)

theorem associate_grows (hmatch : s.index.match event.media.kind event.identifiers = .item mediaId)
    (h : ¬ s.db.Enriched event mediaId) :
    s.db.importedRows < (trakt.associate s event).1.db.importedRows := by
  unfold associate
  dsimp only
  rw [hmatch]
  exact enrich_grows h

/-- What is left to do for the events in the first pass is nothing. -/
theorem associateAll_idle {events : List ExportEvent} (hindex : s.index = .load s.db trakt.sourceId)
    (h : ∀ event ∈ events, ∀ mediaId, s.index.match event.media.kind event.identifiers =
      .item mediaId →
      s.db.Enriched event mediaId) :
    (trakt.associateAll s events).1.db = s.db ∧ (trakt.associateAll s events).1.index = s.index ∧
      (trakt.associateAll s events).1.touched = s.touched ∧
      (trakt.associateAll s events).2 = events.map fun event =>
        (event, s.index.match event.media.kind event.identifiers) := by
  induction events generalizing s with
  | nil => exact ⟨rfl, rfl, rfl, rfl⟩
  | cons event events ih =>
    obtain ⟨hdb, hidx, htouched⟩ := associate_idle hindex (h event List.mem_cons_self)
    obtain ⟨hdb', hidx', htouched', hdecisions⟩ :=
      @ih (trakt.associate s event).1 (by rw [hidx, hdb]; exact hindex)
      (by rw [hidx, hdb]; exact fun e he => h e (List.mem_cons_of_mem _ he))
    refine ⟨hdb'.trans hdb, hidx'.trans hidx, htouched'.trans htouched, ?_⟩
    show (event, (trakt.associate s event).2) ::
      (trakt.associateAll (trakt.associate s event).1 events).2 = _
    rw [hdecisions, hidx, associate_decision]
    rfl

theorem associateAll_extends {events : List ExportEvent} (hs : s.Known) :
    s.Extends (trakt.associateAll s events).1 := by
  induction events generalizing s with
  | nil => exact .refl s
  | cons event events ih =>
    have hfirst : s.Extends (trakt.associate s event).1 := associate_extends hs
    exact hfirst.trans (ih (hfirst.known hs))

theorem associateAll_grows {events : List ExportEvent}
    (hindex : s.index = .load s.db trakt.sourceId)
    (hmem : event ∈ events)
    (hmatch : s.index.match event.media.kind event.identifiers = .item mediaId)
    (h : ¬ s.db.Enriched event mediaId) :
    s.db.importedRows < (trakt.associateAll s events).1.db.importedRows := by
  induction events generalizing s with
  | nil => cases hmem
  | cons first events ih =>
    have hknown : (trakt.associate s first).1.Known :=
      (associate_extends (known_load hindex)).known (known_load hindex)
    have hrest : (trakt.associate s first).1.Extends (trakt.associateAll s (first :: events)).1 :=
      associateAll_extends hknown
    by_cases hfirst : ∀ i, s.index.match first.media.kind first.identifiers = .item i →
      s.db.Enriched first i
    · obtain ⟨hdb, hidx, -⟩ := associate_idle hindex hfirst
      rcases List.mem_cons.1 hmem with rfl | hmem
      · exact absurd (hfirst mediaId hmatch) h
      · have hlt := @ih (trakt.associate s first).1 (by rw [hidx, hdb]; exact hindex) hmem
          (by rw [hidx]; exact hmatch)
          (by rw [hdb]; exact h)
        rwa [hdb] at hlt
    · obtain ⟨i, hi⟩ := not_forall.1 hfirst
      obtain ⟨hi, hne⟩ := Classical.not_imp.1 hi
      exact (associate_grows hi hne).trans_le hrest.kept.rows

/-! ### The second pass -/

/-- The event has its row. -/
def Recorded (trakt : TraktImport) (db : Database) (event : ExportEvent) : Prop :=
  (db.bySourceEventId trakt.sourceId (sourceEventId event.toHistoryEvent)).isSome = true

theorem recordEvent_idle (h : trakt.Recorded s.db event) :
    ∃ s', trakt.recordEvent event mediaId s = some s' ∧
    s'.db = s.db ∧ s'.index = s.index ∧ s'.touched = s.touched := by
  have himport : trakt.importEvent (s.db, s.touched) (event.toHistoryEvent, mediaId) =
      some (s.db, s.touched) := if_pos h
  unfold recordEvent
  rw [himport]
  exact ⟨_, rfl, rfl, rfl, rfl⟩

/-- An event without a row gets one. -/
theorem recordEvent_of_new {s' : Importing} (h : ¬ trakt.Recorded s.db event)
    (hs : trakt.recordEvent event mediaId s = some s') :
    s.Extends s' ∧ s.db.importedRows < s'.db.importedRows := by
  unfold recordEvent at hs
  obtain ⟨⟨db, touched⟩, himport, hs⟩ := Option.bind_eq_some_iff.1 hs
  have hnew := (if_neg h).symm.trans himport
  split at hnew
  · cases hnew
  cases hnew
  cases hs
  let e := trakt.newEvent s.db.watchEvents.nextId event.toHistoryEvent mediaId
  have hframe : Frame [.watchEvents, .dirtyItems] s.db (s.db.insertWatchEvent e) :=
    insertWatchEvent_frame e
  have hitems : (s.db.insertWatchEvent e).mediaItems = s.db.mediaItems :=
    hframe .mediaItems (by decide)
  have hids : (s.db.insertWatchEvent e).mediaIdentifiers = s.db.mediaIdentifiers :=
    hframe .mediaIdentifiers (by decide)
  have hrows : (s.db.insertWatchEvent e).watchEvents.rows = s.db.watchEvents.rows ++ [e] := by
    rw [watchEvents_insertWatchEvent]
    exact Table.rows_insert_of_get?_none (Table.get?_nextId _)
  have hlt : s.db.importedRows < (s.db.insertWatchEvent e).importedRows := by
    unfold importedRows
    rw [hitems, hids, hrows, List.length_append, List.length_singleton]
    omega
  refine ⟨.of_index ⟨fun r hr => ?_, fun i m hm => ?_, hlt.le⟩ rfl, hlt⟩
  · show r ∈ (s.db.insertWatchEvent e).mediaIdentifiers.rows
    rw [hids]; exact hr
  · show (s.db.insertWatchEvent e).mediaItems.get? i = some m
    rw [hitems]; exact hm

theorem recordEvent_extends {s' : Importing} (hs : trakt.recordEvent event mediaId s = some s') :
    s.Extends s' := by
  by_cases h : trakt.Recorded s.db event
  · obtain ⟨s₀, hs₀, hdb, hidx, -⟩ := @recordEvent_idle trakt s mediaId event h
    obtain rfl := Option.some_inj.1 (hs₀.symm.trans hs)
    exact .of_index (by rw [hdb]; exact .refl s.db) hidx
  · exact (recordEvent_of_new h hs).1

theorem insertMedia_kept (kind : MediaKind) (title : String)
    (year parentId seasonNumber episodeNumber : Option Nat) (db : Database) :
    let inserted := trakt.insertMedia kind title year parentId seasonNumber episodeNumber db
    db.NamesKept inserted.1 ∧ db.importedRows < inserted.1.importedRows ∧
      ∃ m, inserted.1.mediaItems.get? inserted.2 = some m ∧ m.kind = kind := by
  let m : MediaItem :=
    { id := db.mediaItems.nextId
      kind := kind
      parentId := parentId
      title := String.ofList (title.toList.take 500)
      year := year
      seasonNumber := seasonNumber
      episodeNumber := episodeNumber
      updatedAt := trakt.now }
  have hframe : Frame [.mediaItems] db (db.insertMediaItem m) := insertMediaItem_frame m
  have hids : (db.insertMediaItem m).mediaIdentifiers = db.mediaIdentifiers :=
    hframe .mediaIdentifiers (by decide)
  have hevents : (db.insertMediaItem m).watchEvents = db.watchEvents :=
    hframe .watchEvents (by decide)
  have hfree : db.mediaItems.get? m.id = none := Table.get?_nextId _
  have hlt : db.importedRows < (db.insertMediaItem m).importedRows := by
    unfold importedRows
    rw [hids, hevents, mediaItems_insertMediaItem, Table.rows_insert_of_get?_none hfree,
      List.length_append,
      List.length_singleton]
    omega
  refine ⟨⟨fun r hr => ?_, fun i m' hm' => ?_, hlt.le⟩, hlt, m, ?_, rfl⟩
  · show r ∈ (db.insertMediaItem m).mediaIdentifiers.rows
    rw [hids]; exact hr
  · show (db.insertMediaItem m).mediaItems.get? i = some m'
    rw [mediaItems_insertMediaItem, Table.get?_insert_ne, hm']
    rintro rfl
    rw [hfree] at hm'; cases hm'
  · show (db.insertMediaItem m).mediaItems.get? m.id = some m
    rw [mediaItems_insertMediaItem]
    exact Table.get?_insert_self hfree

theorem historicalShow_extends {title : String} {year : Option Nat} {found : Importing × Nat}
    (h : trakt.historicalShow title year identifiers s = some found) : s.Extends found.1 := by
  unfold historicalShow at h
  split at h
  · cases h
  · cases h; exact .refl s
  · cases h
    obtain ⟨hkept, -, hitem⟩ := @insertMedia_kept trakt .show title year none none none s.db
    let inserted : Importing :=
      { s with
        db := (trakt.insertMedia .show title year none none none s.db).1
        report := { s.report with showsCreated := s.report.showsCreated + 1 } }
    have hinserted : s.Extends inserted := .of_index hkept rfl
    exact hinserted.trans (addIdentifiers_extends hitem)

theorem historicalSeason_extends {showId number : Nat} :
    s.Extends (trakt.historicalSeason showId number s).1 := by
  unfold historicalSeason
  split
  · exact .refl s
  · exact .of_index (insertMedia_kept ..).1 rfl

/-- The new item is a row more, and the event is found. -/
theorem historicalItem_extends {year parentId seasonNumber episodeNumber : Option Nat} :
    let created := trakt.historicalItem event year parentId seasonNumber episodeNumber s
    s.Extends created.1 ∧ s.db.importedRows < created.1.db.importedRows ∧
      event.Found created.1.index := by
  obtain ⟨hkept, hlt, hitem⟩ :=
    @insertMedia_kept trakt event.media.kind event.title year parentId seasonNumber
      episodeNumber s.db
  let inserted : Importing :=
    { s with
      db := (trakt.insertMedia event.media.kind event.title year parentId seasonNumber
        episodeNumber s.db).1
      report := { s.report with mediaCreated := s.report.mediaCreated + 1 } }
  have hinserted : s.Extends inserted := .of_index hkept rfl
  have hadded := @addIdentifiers_extends trakt inserted event.media.kind _ event.identifiers hitem
  refine ⟨hinserted.trans hadded, hlt.trans_le hadded.kept.rows, ?_⟩
  obtain ⟨x, hx⟩ := List.exists_mem_of_ne_nil _ event.identified
  exact ⟨x, hx, _, MediaIndex.mem_add.2 (.inr ⟨rfl, hx, rfl⟩)⟩

theorem createHistoricalMedia_extends {created : Importing × Nat}
    (h : trakt.createHistoricalMedia event s = some created) :
    s.Extends created.1 ∧ event.Found created.1.index := by
  unfold createHistoricalMedia at h
  split at h
  · cases h
    exact ⟨historicalItem_extends.1, historicalItem_extends.2.2⟩
  · obtain ⟨⟨s₁, showId⟩, hshow, h⟩ := Option.bind_eq_some_iff.1 h
    have hfirst : s.Extends s₁ := historicalShow_extends hshow
    cases h
    exact ⟨(hfirst.trans historicalSeason_extends).trans historicalItem_extends.1,
      historicalItem_extends.2.2⟩

theorem createHistoricalMedia_grows {created : Importing × Nat}
    (h : trakt.createHistoricalMedia event s = some created) :
    s.db.importedRows < created.1.db.importedRows := by
  unfold createHistoricalMedia at h
  split at h
  · cases h
    exact historicalItem_extends.2.1
  · obtain ⟨⟨s₁, showId⟩, hshow, h⟩ := Option.bind_eq_some_iff.1 h
    have hfirst : s.Extends s₁ := historicalShow_extends hshow
    cases h
    exact (hfirst.trans historicalSeason_extends).kept.rows.trans_lt historicalItem_extends.2.1

theorem importDecided_extends {s' : Importing} {decided : ExportEvent × IndexMatch}
    (h : trakt.importDecided s decided = some s') :
    s.Extends s' ∧ (s'.db = s.db ∨ s.db.importedRows < s'.db.importedRows) := by
  have hrecord : ∀ event mediaId, trakt.recordEvent event mediaId s = some s' →
      s.Extends s' ∧ (s'.db = s.db ∨ s.db.importedRows < s'.db.importedRows) := by
    intro event mediaId hs
    by_cases hrecorded : trakt.Recorded s.db event
    · obtain ⟨s₀, hs₀, hdb, -, -⟩ := @recordEvent_idle trakt s mediaId event hrecorded
      obtain rfl := Option.some_inj.1 (hs₀.symm.trans hs)
      exact ⟨recordEvent_extends hs, .inl hdb⟩
    · obtain ⟨hext, hlt⟩ := recordEvent_of_new hrecorded hs
      exact ⟨hext, .inr hlt⟩
  unfold importDecided at h
  split at h
  · cases h; exact ⟨.refl _, .inl rfl⟩
  · exact hrecord _ _ h
  split at h
  · cases h; exact ⟨.of_index (.refl _) rfl, .inl rfl⟩
  · exact hrecord _ _ h
  · obtain ⟨⟨s₁, mediaId⟩, hcreated, h⟩ := Option.bind_eq_some_iff.1 h
    have hsecond : s₁.Extends s' := recordEvent_extends h
    exact ⟨(createHistoricalMedia_extends hcreated).1.trans hsecond,
      .inr ((createHistoricalMedia_grows hcreated).trans_le hsecond.kept.rows)⟩

theorem importDecided_found {s' : Importing} {decision : IndexMatch}
    (h : trakt.importDecided s (event, decision) = some s')
    (hfound : decision ≠ .unmatched → event.Found s.index) : event.Found s'.index := by
  have hkeep : event.Found s.index → event.Found s'.index := by
    rintro ⟨x, hx, i, hi⟩
    exact ⟨x, hx, i, (importDecided_extends h).1.index _ x i hi⟩
  by_cases hmatch : s.index.match event.media.kind event.identifiers = .unmatched
  · by_cases hdecision : decision = .unmatched
    · subst hdecision
      unfold importDecided at h
      dsimp only at h
      rw [hmatch] at h
      obtain ⟨⟨s₁, mediaId⟩, hcreated, h⟩ := Option.bind_eq_some_iff.1 h
      obtain ⟨x, hx, i, hi⟩ := (createHistoricalMedia_extends hcreated).2
      exact ⟨x, hx, i, (recordEvent_extends h).index _ x i hi⟩
    · exact hkeep (hfound hdecision)
  · exact hkeep (ExportEvent.found_iff.2 hmatch)

theorem importAll_extends {decisions : List (ExportEvent × IndexMatch)} {s' : Importing}
    (h : decisions.foldlM trakt.importDecided s = some s') : s.Extends s' := by
  induction decisions generalizing s with
  | nil => cases h; exact .refl _
  | cons decided decisions ih =>
    obtain ⟨s₁, hs₁, h⟩ := Option.bind_eq_some_iff.1 h
    exact (importDecided_extends hs₁).1.trans (ih h)

/-- After the second pass the index knows every event. -/
theorem importAll_found {decisions : List (ExportEvent × IndexMatch)} {s' : Importing}
    (h : decisions.foldlM trakt.importDecided s = some s')
    (hfound : ∀ decided ∈ decisions, decided.2 ≠ .unmatched → decided.1.Found s.index) :
    ∀ decided ∈ decisions, decided.1.Found s'.index := by
  induction decisions generalizing s with
  | nil => exact fun d hd => by cases hd
  | cons decided decisions ih =>
    obtain ⟨s₁, hs₁, hfold⟩ := Option.bind_eq_some_iff.1 h
    have hfirst : s.Extends s₁ := (importDecided_extends hs₁).1
    obtain ⟨x, hx, i, hi⟩ := importDecided_found hs₁ (hfound decided List.mem_cons_self)
    intro d hd
    rcases List.mem_cons.1 hd with rfl | hd
    · exact ⟨x, hx, i, (importAll_extends hfold).index _ x i hi⟩
    · refine ih hfold (fun d hd hne => ?_) d hd
      obtain ⟨x, hx, i, hi⟩ := hfound d (List.mem_cons_of_mem _ hd) hne
      exact ⟨x, hx, i, hfirst.index _ x i hi⟩

theorem importAll_idle {decisions : List (ExportEvent × IndexMatch)}
    (h : ∀ decided ∈ decisions, decided.2 ≠ .unmatched ∧ ∀ mediaId, decided.2 = .item mediaId →
      trakt.Recorded s.db decided.1) :
    ∃ s', decisions.foldlM trakt.importDecided s = some s' ∧ s'.db = s.db ∧
    s'.touched = s.touched := by
  induction decisions generalizing s with
  | nil => exact ⟨s, rfl, rfl, rfl⟩
  | cons decided decisions ih =>
    have hstep : ∃ s₁, trakt.importDecided s decided = some s₁ ∧ s₁.db = s.db ∧
        s₁.touched = s.touched := by
      obtain ⟨hne, hrecorded⟩ := h decided List.mem_cons_self
      unfold importDecided
      split
      · exact ⟨s, rfl, rfl, rfl⟩
      next mediaId hd =>
        obtain ⟨s₁, hs₁, hdb, -, htouched⟩ :=
          @recordEvent_idle trakt s mediaId decided.1 (hrecorded mediaId hd)
        exact ⟨s₁, hs₁, hdb, htouched⟩
      next hd => exact absurd hd hne
    obtain ⟨s₁, hs₁, hdb, htouched⟩ := hstep
    obtain ⟨s', hs', hdb', htouched'⟩ :=
      @ih s₁ (by rw [hdb]; exact fun d hd => h d (List.mem_cons_of_mem _ hd))
    refine ⟨s', ?_, hdb'.trans hdb, htouched'.trans htouched⟩
    rw [List.foldlM_cons, hs₁]
    exact hs'

theorem importAll_grows {decisions : List (ExportEvent × IndexMatch)} {s' : Importing}
    (h : decisions.foldlM trakt.importDecided s = some s')
    (hmem : (event, .item mediaId) ∈ decisions)
    (hnew : ¬ trakt.Recorded s.db event) : s.db.importedRows < s'.db.importedRows := by
  induction decisions generalizing s with
  | nil => cases hmem
  | cons decided decisions ih =>
    obtain ⟨s₁, hs₁, hfold⟩ := Option.bind_eq_some_iff.1 h
    have hrest : s₁.db.importedRows ≤ s'.db.importedRows := (importAll_extends hfold).kept.rows
    rcases List.mem_cons.1 hmem with rfl | hmem
    · exact (recordEvent_of_new hnew hs₁).2.trans_le hrest
    · rcases (importDecided_extends hs₁).2 with hdb | hlt
      · rw [← hdb] at hnew ⊢
        exact ih hfold hmem hnew
      · exact hlt.trans_le hrest

/-- A match of the first pass stays found. -/
theorem associateAll_found {events : List ExportEvent} (hs : s.Known) :
    (trakt.associateAll s events).2.map Prod.fst = events ∧
      ∀ decided ∈ (trakt.associateAll s events).2, decided.2 ≠ .unmatched →
        decided.1.Found (trakt.associateAll s events).1.index := by
  induction events generalizing s with
  | nil => exact ⟨rfl, fun d hd => by cases hd⟩
  | cons event events ih =>
    have hfirst : s.Extends (trakt.associate s event).1 := associate_extends hs
    have hrest : (trakt.associate s event).1.Extends (trakt.associateAll s (event :: events)).1 :=
      associateAll_extends (hfirst.known hs)
    obtain ⟨hevents, hfound⟩ := ih (hfirst.known hs)
    refine ⟨congrArg (event :: ·) hevents, fun decided hmem hne => ?_⟩
    rcases List.mem_cons.1 hmem with rfl | hmem
    · have hmatch : (trakt.associate s event).2 ≠ .unmatched := hne
      rw [associate_decision] at hmatch
      obtain ⟨x, hx, i, hi⟩ := ExportEvent.found_iff.2 hmatch
      exact ⟨x, hx, i, hrest.index _ x i (hfirst.index _ x i hi)⟩
    · exact hfound decided hmem hne

end TraktImport

/-- The events a report says something of. -/
def ImportReport.decided (report : ImportReport) : Nat :=
  report.eventsInserted + report.eventsAlreadyImported + report.ambiguousEvents

namespace TraktImport
variable {trakt : TraktImport} {s s' : Importing}

/-- Everything but the fate of the events may change. -/
structure SameFates (report report' : ImportReport) : Prop where
  valid : report'.eventsValid = report.eventsValid
  decided : report'.decided = report.decided

theorem SameFates.trans {r r' r'' : ImportReport} (h : SameFates r r') (h' : SameFates r' r'') :
    SameFates r r'' :=
  ⟨h'.valid.trans h.valid, h'.decided.trans h.decided⟩

theorem enrich_fates {event : ExportEvent} {mediaId : Nat} :
    SameFates s.report (trakt.enrich event mediaId s).report := by
  unfold enrich enrichShow
  split
  · exact ⟨rfl, rfl⟩
  split <;> exact ⟨rfl, rfl⟩

theorem createHistoricalMedia_fates {event : ExportEvent} {created : Importing × Nat}
    (h : trakt.createHistoricalMedia event s = some created) :
    SameFates s.report created.1.report := by
  unfold createHistoricalMedia at h
  split at h
  · cases h; exact ⟨rfl, rfl⟩
  · obtain ⟨⟨s₁, showId⟩, hshow, h⟩ := Option.bind_eq_some_iff.1 h
    have hfirst : SameFates s.report s₁.report := by
      unfold historicalShow at hshow
      split at hshow
      · cases hshow
      · cases hshow; exact ⟨rfl, rfl⟩
      · cases hshow; exact ⟨rfl, rfl⟩
    have hsecond : ∀ number,
        SameFates s₁.report (trakt.historicalSeason showId number s₁).1.report := by
      intro number
      unfold historicalSeason
      split <;> exact ⟨rfl, rfl⟩
    cases h
    exact (hfirst.trans (hsecond _)).trans ⟨rfl, rfl⟩

theorem recordEvent_fates {event : ExportEvent} {mediaId : Nat}
    (h : trakt.recordEvent event mediaId s = some s') :
    s'.report.eventsValid = s.report.eventsValid ∧ s'.report.decided = s.report.decided + 1 := by
  unfold recordEvent at h
  obtain ⟨⟨db, touched⟩, -, h⟩ := Option.bind_eq_some_iff.1 h
  cases h
  unfold ImportReport.decided
  dsimp only
  split
  · exact ⟨rfl, by dsimp only; omega⟩
  · exact ⟨rfl, by dsimp only; omega⟩

theorem importDecided_fates {decided : ExportEvent × IndexMatch}
    (h : trakt.importDecided s decided = some s') :
    s'.report.eventsValid = s.report.eventsValid ∧
      s'.report.decided = s.report.decided + if decided.2 = .ambiguous then 0 else 1 := by
  unfold importDecided at h
  split at h
  next hd => cases h; rw [if_pos hd]; exact ⟨rfl, rfl⟩
  next mediaId hd => rw [if_neg (by rw [hd]; simp)]; exact recordEvent_fates h
  next hd =>
    rw [if_neg (by rw [hd]; simp)]
    split at h
    · cases h
      exact ⟨rfl, by unfold ImportReport.decided; dsimp only; omega⟩
    · exact recordEvent_fates h
    · obtain ⟨⟨s₁, mediaId⟩, hcreated, h⟩ := Option.bind_eq_some_iff.1 h
      have hfates : SameFates s.report s₁.report := createHistoricalMedia_fates hcreated
      obtain ⟨hvalid, hdecided⟩ := recordEvent_fates h
      exact ⟨hvalid.trans hfates.valid, by rw [hdecided, hfates.decided]⟩

theorem associate_fates {event : ExportEvent} :
    (trakt.associate s event).1.report.eventsValid = s.report.eventsValid ∧
    (trakt.associate s event).1.report.decided =
      s.report.decided + if (trakt.associate s event).2 = .ambiguous then 1 else 0 := by
  rw [associate_decision]
  unfold associate
  dsimp only
  cases s.index.match event.media.kind event.identifiers with
  | ambiguous => exact ⟨rfl, by rw [if_pos rfl]; unfold ImportReport.decided; dsimp only; omega⟩
  | unmatched => exact ⟨rfl, by rw [if_neg (by simp)]; rfl⟩
  | item mediaId =>
    rw [if_neg (by simp)]
    exact ⟨enrich_fates.valid, enrich_fates.decided⟩

/-- The two passes count every event once. -/
theorem passes_fates {events : List ExportEvent}
    (h : (trakt.associateAll s events).2.foldlM trakt.importDecided
      (trakt.associateAll s events).1 = some s') :
    s'.report.eventsValid = s.report.eventsValid ∧
    s'.report.decided = s.report.decided + events.length := by
  have hfirst : ∀ (events : List ExportEvent) (s : Importing),
      (trakt.associateAll s events).1.report.eventsValid = s.report.eventsValid ∧
      (trakt.associateAll s events).1.report.decided +
        ((trakt.associateAll s events).2.map fun decided =>
          if decided.2 = IndexMatch.ambiguous then 0 else 1).sum =
          s.report.decided + events.length := by
    intro events
    induction events with
    | nil => exact fun s => ⟨rfl, rfl⟩
    | cons event events ih =>
      intro s
      obtain ⟨hvalid, hdecided⟩ := @associate_fates trakt s event
      obtain ⟨hvalid', hdecided'⟩ := ih (trakt.associate s event).1
      refine ⟨hvalid'.trans hvalid, ?_⟩
      have hcons : trakt.associateAll s (event :: events) =
          ((trakt.associateAll (trakt.associate s event).1 events).1,
          (event, (trakt.associate s event).2) ::
            (trakt.associateAll (trakt.associate s event).1 events).2) := rfl
      simp only [hcons, List.map_cons, List.sum_cons, List.length_cons]
      split at hdecided
      next hambiguous => rw [if_pos hambiguous]; omega
      next hambiguous => rw [if_neg hambiguous]; omega
  have hsecond : ∀ (decisions : List (ExportEvent × IndexMatch)) (s : Importing),
      decisions.foldlM trakt.importDecided s = some s' →
      s'.report.eventsValid = s.report.eventsValid ∧ s'.report.decided =
        s.report.decided +
          (decisions.map fun decided => if decided.2 = IndexMatch.ambiguous then 0 else 1).sum := by
    intro decisions
    induction decisions with
    | nil => rintro s h; cases h; exact ⟨rfl, rfl⟩
    | cons decided decisions ih =>
      intro s h
      obtain ⟨s₁, hs₁, h⟩ := Option.bind_eq_some_iff.1 h
      obtain ⟨hvalid, hdecided⟩ := importDecided_fates hs₁
      obtain ⟨hvalid', hdecided'⟩ := ih s₁ h
      refine ⟨hvalid'.trans hvalid, ?_⟩
      rw [hdecided', hdecided, List.map_cons, List.sum_cons]
      omega
  obtain ⟨hvalid, hdecided⟩ := hfirst events s
  obtain ⟨hvalid', hdecided'⟩ := hsecond _ _ h
  exact ⟨hvalid'.trans hvalid, by omega⟩

end TraktImport

/-! ### The second import -/

/-- The tables of the catalogue and of the history are the same. -/
structure Database.SameHistory (db db' : Database) : Prop where
  items : db'.mediaItems = db.mediaItems
  identifiers : db'.mediaIdentifiers = db.mediaIdentifiers
  events : db'.watchEvents = db.watchEvents
  states : db'.watchStates = db.watchStates

theorem Database.SameHistory.rows {db db' : Database} (h : db.SameHistory db') :
    db'.importedRows = db.importedRows := by
  unfold importedRows
  rw [h.items, h.identifiers, h.events]

/-- `events_valid = events_inserted + events_already_imported + ambiguous_events`. -/
def ImportReport.Balanced (report : ImportReport) : Prop :=
  report.eventsValid = report.eventsInserted + report.eventsAlreadyImported + report.ambiguousEvents

namespace TraktImport
variable {trakt : TraktImport} {events : List ExportEvent} {db db' : Database}
  {report : ImportReport}

/-- The two passes. -/
def passes (trakt : TraktImport) (events : List ExportEvent) (db : Database) : Option Importing :=
  let associated :=
    trakt.associateAll ⟨db, .load db trakt.sourceId, { eventsValid := events.length }, []⟩ events
  associated.2.foldlM trakt.importDecided associated.1

theorem importArchive_of_passes {s : Importing} (hne : events ≠ [])
    (h : trakt.passes events db = some s) :
    trakt.importArchive events db = some (trakt.finish s, s.report) := by
  unfold importArchive
  rw [if_neg (by simpa using hne)]
  show (trakt.passes events db).bind _ = _
  rw [h]
  rfl

/-- An import that ends ran both passes and refreshed the states. -/
theorem of_importArchive (h : trakt.importArchive events db = some (db', report)) :
    ∃ s, trakt.passes events db = some s ∧ db' = trakt.finish s ∧ report = s.report := by
  unfold importArchive at h
  split at h
  · cases h
  obtain ⟨s, hs, h⟩ := Option.bind_eq_some_iff.1 h
  cases h
  exact ⟨s, hs, rfl, rfl⟩

theorem finish_frame (s : Importing) :
    Frame [.watchStates, .dirtyItems, .settings] s.db (trakt.finish s) := by
  have hframe : ∀ (items : List Nat) (db : Database),
      Frame [.watchStates, .dirtyItems] db (items.foldl trakt.refreshWatchState db) := by
    intro items
    induction items with
    | nil => exact fun db => .refl db
    | cons item items ih => exact fun db => refreshWatchState_frame.trans (ih _)
  have h := (hframe (s.touched.dedup.mergeSort (· ≤ ·)) s.db).mono
    (show [.watchStates, .dirtyItems] ⊆ [TableName.watchStates, .dirtyItems, .settings] by decide)
  unfold finish
  dsimp only
  split
  · exact h
  · refine h.trans fun name hname => ?_
    cases name <;> first | rfl | exact absurd (by decide) hname

/-- Nothing of the catalogue and no event changes when the states are refreshed. -/
theorem finish_tables (s : Importing) : (trakt.finish s).mediaItems = s.db.mediaItems ∧
    (trakt.finish s).mediaIdentifiers = s.db.mediaIdentifiers ∧
    (trakt.finish s).watchEvents = s.db.watchEvents :=
  ⟨finish_frame s .mediaItems (by decide), finish_frame s .mediaIdentifiers (by decide),
    finish_frame s .watchEvents (by decide)⟩

theorem load_finish (s : Importing) :
    MediaIndex.load (trakt.finish s) trakt.sourceId = .load s.db trakt.sourceId := by
  have hrefs : (trakt.finish s).sourceMediaRefs = s.db.sourceMediaRefs :=
    finish_frame s .sourceMediaRefs (by decide)
  obtain ⟨hitems, hids, -⟩ := @finish_tables trakt s
  unfold MediaIndex.load
  rw [hrefs, hitems, hids]

/-- An event that the index decides is recorded, and nothing is missing at its item and its show. -/
def Settled (trakt : TraktImport) (db : Database) (event : ExportEvent) : Prop :=
  ∀ mediaId, (MediaIndex.load db trakt.sourceId).match event.media.kind event.identifiers =
    .item mediaId →
    db.Enriched event mediaId ∧ trakt.Recorded db event

theorem importArchive_balanced (h : trakt.importArchive events db = some (db', report)) :
    report.Balanced := by
  obtain ⟨s, hs, -, rfl⟩ := of_importArchive h
  obtain ⟨hvalid, hdecided⟩ := passes_fates hs
  unfold ImportReport.Balanced
  unfold ImportReport.decided at hdecided
  rw [hvalid]
  simp only at hdecided ⊢
  omega

/-- After an import the index decides every event or finds it ambiguous. -/
theorem importArchive_found (h : trakt.importArchive events db = some (db', report)) :
    ∀ event ∈ events, event.Found (.load db' trakt.sourceId) := by
  obtain ⟨s, hs, rfl, -⟩ := of_importArchive h
  let start : Importing := ⟨db, .load db trakt.sourceId, { eventsValid := events.length }, []⟩
  have hknown : start.Known := known_load rfl
  obtain ⟨hevents, hfound⟩ := @associateAll_found trakt start events hknown
  have hlater : s.Known := (importAll_extends hs).known ((associateAll_extends hknown).known hknown)
  obtain ⟨hitems, hids, -⟩ := @finish_tables trakt s
  intro event hevent
  rw [← hevents] at hevent
  obtain ⟨decided, hdecided, rfl⟩ := List.mem_map.1 hevent
  obtain ⟨x, hx, i, hi⟩ := importAll_found hs hfound decided hdecided
  obtain ⟨⟨r, hr, hrow⟩, m, hm⟩ := hlater _ x i hi
  exact ⟨x, hx, i,
    MediaIndex.mem_load.2 ⟨⟨r, by rw [hids]; exact hr, hrow⟩, m, by rw [hitems]; exact hm⟩⟩

/-- An import of settled events leaves the database as it is. -/
theorem importArchive_idle (hne : events ≠ [])
    (hfound : ∀ event ∈ events, event.Found (.load db trakt.sourceId))
    (h : ∀ event ∈ events, trakt.Settled db event) :
    ∃ report, trakt.importArchive events db = some (db, report) := by
  let start : Importing := ⟨db, .load db trakt.sourceId, { eventsValid := events.length }, []⟩
  obtain ⟨hdb, -, htouched, hdecisions⟩ :=
      @associateAll_idle trakt start events rfl fun event he mediaId hmatch =>
    (h event he mediaId hmatch).1
  have hidle : ∀ decided ∈ (trakt.associateAll start events).2, decided.2 ≠ .unmatched ∧
      ∀ mediaId, decided.2 = .item mediaId →
        trakt.Recorded (trakt.associateAll start events).1.db decided.1 := by
    intro decided hdecided
    rw [hdecisions] at hdecided
    obtain ⟨event, he, rfl⟩ := List.mem_map.1 hdecided
    refine ⟨ExportEvent.found_iff.1 (hfound event he), fun mediaId hmatch => ?_⟩
    rw [hdb]
    exact (h event he mediaId hmatch).2
  obtain ⟨s, hs, hdb', htouched'⟩ := importAll_idle hidle
  have hfinish : trakt.finish s = db := by
    unfold finish
    rw [htouched', htouched, hdb', hdb]
    simp [start]
  exact ⟨s.report, by rw [importArchive_of_passes hne hs, hfinish]⟩

/-- An import that adds no row met settled events only. -/
theorem settled_of_rows (h : trakt.importArchive events db = some (db', report))
    (hrows : db'.importedRows = db.importedRows) :
    ∀ event ∈ events, trakt.Settled db event := by
  obtain ⟨s, hs, rfl, -⟩ := of_importArchive h
  let start : Importing := ⟨db, .load db trakt.sourceId, { eventsValid := events.length }, []⟩
  have hfinal : s.db.importedRows = db.importedRows := by
    obtain ⟨hitems, hids, hevents⟩ := @finish_tables trakt s
    rw [← hrows]
    unfold importedRows
    rw [hitems, hids, hevents]
  have hsecond : (trakt.associateAll start events).1.db.importedRows ≤ s.db.importedRows :=
    (importAll_extends hs).kept.rows
  have henriched : ∀ event ∈ events, ∀ mediaId,
      start.index.match event.media.kind event.identifiers = .item mediaId →
      db.Enriched event mediaId := by
    intro event he mediaId hmatch
    by_contra hne
    have hlt : db.importedRows < (trakt.associateAll start events).1.db.importedRows :=
      @associateAll_grows trakt start mediaId event events rfl he hmatch hne
    omega
  obtain ⟨hdb, -, -, hdecisions⟩ := @associateAll_idle trakt start events rfl henriched
  intro event he mediaId hmatch
  refine ⟨henriched event he mediaId hmatch, ?_⟩
  by_contra hnew
  have hmem : (event, IndexMatch.item mediaId) ∈ (trakt.associateAll start events).2 := by
    rw [hdecisions]
    exact List.mem_map.2 ⟨event, he, congrArg (Prod.mk event) hmatch⟩
  have hlt := importAll_grows hs hmem (by rw [hdb]; exact hnew)
  rw [hdb] at hlt
  have hstart : start.db.importedRows = db.importedRows := rfl
  omega

end TraktImport

end Euvieouvi
