import Euvieouvi.Catalog.ManualMatch

/-!
# Manual matches are kept

Every writer of a title, of identifiers or of a hierarchy leaves an item with a manual match alone,
and a merge gives the match to the winner. The invariant is about all items with a match at once
(`MatchesKept`): each still says what its match said.
-/

namespace Euvieouvi

/-- The columns of an item that a match fixes. -/
structure MediaItem.Keeps (m m' : MediaItem) : Prop where
  kind : m'.kind = m.kind
  manual : m'.manualMatchTmdbId = m.manualMatchTmdbId
  title : m'.title = m.title
  originalTitle : ∀ o, m.originalTitle = some o → m'.originalTitle = some o
  year : ∀ y, m.year = some y → m'.year = some y

namespace MediaItem.Keeps

theorem refl (m : MediaItem) : m.Keeps m := ⟨rfl, rfl, rfl, fun _ h => h, fun _ h => h⟩

theorem trans {a b c : MediaItem} (h : a.Keeps b) (h' : b.Keeps c) : a.Keeps c :=
  ⟨h'.kind.trans h.kind, h'.manual.trans h.manual, h'.title.trans h.title, fun o ho =>
    h'.originalTitle o (h.originalTitle o ho),
    fun y hy => h'.year y (h.year y hy)⟩

theorem manualMatch {m m' : MediaItem} (h : m.Keeps m') : m'.manualMatch = m.manualMatch := by
  unfold MediaItem.manualMatch
  rw [h.manual]

end MediaItem.Keeps

namespace Database
variable {db db' db'' : Database} {i j : Nat} {t t' : TmdbMatch}

def identifiersAt (db : Database) (i : Nat) : List MediaIdentifier :=
  db.mediaIdentifiers.rows.filter (·.mediaItemId == i)

theorem Frame.identifiersAt {written : List TableName} (h : Frame written db db')
    (hw : .mediaIdentifiers ∉ written) (i : Nat) :
    db'.identifiersAt i = db.identifiersAt i := by
  have hids : db'.mediaIdentifiers = db.mediaIdentifiers := h .mediaIdentifiers hw
  unfold Database.identifiersAt
  rw [hids]

/-- Changing the identifiers of an item leaves those of the others. -/
theorem Identified.identifiersAt (h : Identified i db db') (hj : j ≠ i) :
    db'.identifiersAt j = db.identifiersAt j := by
  have hothers := congrArg (List.filter (·.mediaItemId == j)) h.others
  rw [List.filter_filter, List.filter_filter] at hothers
  have hsame : ∀ r : MediaIdentifier, (r.mediaItemId == j && r.mediaItemId != i) =
      (r.mediaItemId == j) := by
    intro r
    by_cases hr : r.mediaItemId = j
    · simp [hr, hj]
    · simp [hr]
  unfold Database.identifiersAt
  simpa only [hsame] using hothers

/-- The item carries the match, and says what the match said. -/
structure Matched (t : TmdbMatch) (db : Database) (i : Nat) : Prop where
  row : ∃ m, db.mediaItems.get? i = some m ∧ m.manualMatchTmdbId = some t.externalId ∧
    m.title = t.title ∧
    (∀ o, t.originalTitle = some o → m.originalTitle = some o) ∧ ∀ y, t.year = some y →
      m.year = some y
  identifiers : ∀ v : ExternalIdentifier,
    v ∈ (db.identifiersAt i).map (fun r => ⟨r.provider, r.externalId⟩) ↔ v ∈ t.identifiers

/-- Every item with a manual match is a movie or a show that says what one of the matches said. -/
structure MatchesKept (known : List TmdbMatch) (db : Database) : Prop where
  rooted : db.Rooted
  kinds : ∀ i x, db.identityRows.manualMatchOf i = some x →
    db.identityRows.kindOf i = some .movie ∨ db.identityRows.kindOf i = some .show
  matched : ∀ i x, db.identityRows.manualMatchOf i = some x → ∃ t ∈ known, t.externalId = x ∧
    Matched t db i

theorem manualMatchOf_of_get? {m : MediaItem} (h : db.mediaItems.get? i = some m) :
    db.identityRows.manualMatchOf i = m.manualMatch := by
  unfold IdentityRows.manualMatchOf
  rw [show db.identityRows.mediaItems.get? i = some m from h]
  rfl

theorem kindOf_of_get? {m : MediaItem} (h : db.mediaItems.get? i = some m) :
    db.identityRows.kindOf i = some m.kind :=
  Option.map_eq_some_iff.2 ⟨m, h, rfl⟩

section Step
variable {known : List TmdbMatch}

/-- Rows with a manual match come from such rows and keep what the match fixes, and so do their
identifiers. -/
structure MatchedRows (db db' : Database) : Prop where
  rows : ∀ i m', db'.mediaItems.get? i = some m' → m'.manualMatch ≠ none →
    ∃ m, db.mediaItems.get? i = some m ∧ m.Keeps m'
  identifiers : ∀ i, db.identityRows.manualMatchOf i ≠ none → db'.mediaItems.contains i = true →
    db'.identifiersAt i = db.identifiersAt i

theorem MatchedRows.of_frame {written : List TableName} (h : Frame written db db')
    (hitems : .mediaItems ∉ written) (hids : .mediaIdentifiers ∉ written) : MatchedRows db db' := by
  have heq : db'.mediaItems = db.mediaItems := h .mediaItems hitems
  exact ⟨fun i m' hm' _ => ⟨m', heq ▸ hm', .refl m'⟩, fun i _ _ => h.identifiersAt hids i⟩

theorem MatchesKept.step (h : MatchesKept known db) (hrooted : db'.Rooted)
    (hs : MatchedRows db db') : MatchesKept known db' := by
  have hback : ∀ i x, db'.identityRows.manualMatchOf i = some x →
      ∃ m m', db.mediaItems.get? i = some m ∧
      db'.mediaItems.get? i = some m' ∧ m.Keeps m' ∧ db.identityRows.manualMatchOf i = some x := by
    intro i x hx
    obtain ⟨m', hm', hmanual⟩ := Option.bind_eq_some_iff.1 hx
    obtain ⟨m, hm, hkeeps⟩ := hs.rows i m' hm' (by rw [hmanual]; simp)
    refine ⟨m, m', hm, hm', hkeeps, ?_⟩
    rw [manualMatchOf_of_get? hm, ← hkeeps.manualMatch, hmanual]
  refine ⟨hrooted, fun i x hx => ?_, fun i x hx => ?_⟩
  all_goals obtain ⟨m, m', hm, hm', hkeeps, hx⟩ := hback i x hx
  · rw [kindOf_of_get? hm', hkeeps.kind, ← kindOf_of_get? hm]
    exact h.kinds i x hx
  · obtain ⟨t, ht, hid, hmatched⟩ := h.matched i x hx
    obtain ⟨m₀, hm₀, hext, htitle, ho, hy⟩ := hmatched.row
    obtain rfl : m = m₀ := Option.some_inj.1 (hm.symm.trans hm₀)
    refine ⟨t, ht, hid, ⟨m', hm', hkeeps.manual.trans hext, hkeeps.title.trans htitle,
      fun o h => hkeeps.originalTitle o (ho o h), fun y h => hkeeps.year y (hy y h)⟩, fun v => ?_⟩
    rw [hs.identifiers i (by rw [hx]; simp) (Option.isSome_iff_exists.2 ⟨m', hm'⟩)]
    exact hmatched.identifiers v

/-- A flush of the row of an item without a manual match. -/
theorem MatchedRows.save (db : Database) (now : Time) {i : Nat} {f : Assignment MediaItem.id}
    (hf : ∀ m : MediaItem, (f m).manualMatchTmdbId = m.manualMatchTmdbId)
    (hi : db.identityRows.manualMatchOf i = none) :
    MatchedRows db (db.saveMediaItem now i f) := by
  have hframe : Frame [.mediaItems] db (db.saveMediaItem now i f) := updateMediaItems_frame _ _
  refine ⟨fun j m' hm' hmanual => ?_, fun j _ _ => hframe.identifiersAt (by decide) j⟩
  obtain ⟨g, hget, hg⟩ := db.saveMediaItem_row now i j f
  obtain ⟨m, hm, rfl⟩ := Option.map_eq_some_iff.1 (hget.symm.trans hm')
  rcases hg m with heq | ⟨hid, heq⟩
  · exact ⟨m, hm, by rw [heq]; exact .refl m⟩
  · have hji : j = i := (Table.key_of_get? hm).symm.trans hid
    rw [hji] at hm
    rw [manualMatchOf_of_get? hm] at hi
    refine absurd ?_ hmanual
    rw [heq]
    unfold MediaItem.manualMatch at hi ⊢
    rw [← hi]
    exact congrArg (Option.filter _) (hf m)

theorem MatchedRows.insert (db : Database) (m : MediaItem) (hm : m.manualMatchTmdbId = none) :
    MatchedRows db (db.insertMediaItem m) := by
  have hframe : Frame _ db (db.insertMediaItem m) := insertMediaItem_frame m
  refine ⟨fun j m' hm' hmanual => ?_, fun j _ _ => hframe.identifiersAt (by decide) j⟩
  rw [mediaItems_insertMediaItem] at hm'
  rcases Table.mem_insert (Table.mem_of_get? hm') with hrow | rfl
  · exact ⟨m', Table.get?_eq_some.2 ⟨hrow, Table.key_of_get? hm'⟩, .refl m'⟩
  · refine absurd ?_ hmanual
    unfold MediaItem.manualMatch
    rw [hm]; rfl

end Step

/-! ### Persisting -/

section Persist
variable {service : MediaPersistenceService} {item : MediaFields} {known : List TmdbMatch}

theorem Rooted.insert (h : db.Rooted) {m : MediaItem} (hfits : db.ParentFits m.kind m.parentId) :
    (db.insertMediaItem m).Rooted := by
  intro i m' hm'
  rw [mediaItems_insertMediaItem] at hm'
  rcases Table.mem_insert (Table.mem_of_get? hm') with hrow | rfl
  · exact h i m' (Table.get?_eq_some.2 ⟨hrow, Table.key_of_get? hm'⟩)
  · have hsome := congrArg Option.isSome hfits
    rwa [Option.isSome_map, Option.isSome_map] at hsome

theorem Rooted.save (h : db.Rooted) {now : Time} {f : Assignment MediaItem.id}
    (hf : ∀ m : MediaItem, m.parentId.isSome = m.kind.parentKind.isSome →
      (f m).parentId.isSome = (f m).kind.parentKind.isSome) :
    (db.saveMediaItem now i f).Rooted := by
  intro j m' hm'
  obtain ⟨g, hget, hg⟩ := db.saveMediaItem_row now i j f
  obtain ⟨m, hm, rfl⟩ := Option.map_eq_some_iff.1 (hget.symm.trans hm')
  rcases hg m with heq | ⟨-, heq⟩ <;> rw [heq]
  exacts [h j m hm, hf m (h j m hm)]

theorem Rooted.of_frame {written : List TableName} (h : db.Rooted) (hframe : Frame written db db')
    (hitems : .mediaItems ∉ written) : db'.Rooted := by
  have heq : db'.mediaItems = db.mediaItems := hframe .mediaItems hitems
  exact fun i m hm => h i m (heq ▸ hm)

theorem MatchesKept.of_frame {written : List TableName} (h : MatchesKept known db)
    (hframe : Frame written db db')
    (hitems : .mediaItems ∉ written) (hids : .mediaIdentifiers ∉ written) : MatchesKept known db' :=
  h.step (h.rooted.of_frame hframe hitems) (.of_frame hframe hitems hids)

theorem HierarchyWrite.rooted (hw : HierarchyWrite service item db db') (h : db.Rooted) :
    db'.Rooted := by
  cases hw with
  | touch => exact h.of_frame (updateSourceMediaRefs_frame _ _) (by decide)
  | refer => exact h.of_frame (insertSourceMediaRef_frame _) (by decide)
  | create m _ _ _ hfits => exact h.insert hfits
  | retitle i f hf =>
    refine h.save fun m hm => ?_
    rw [(hf m).1, (hf m).2.1]; exact hm
  | identify i _ hids => exact h.of_frame hids.frame (by decide)
  | detail hframe => exact h.of_frame hframe (by decide)

theorem CatalogWrite.rooted (hw : CatalogWrite service item db db') (h : db.Rooted) :
    db'.Rooted := by
  cases hw with
  | hierarchy hw => exact HierarchyWrite.rooted hw h
  | create m _ _ _ hfits => exact h.insert hfits
  | update i parent _ hfits =>
    refine h.save fun m _ => ?_
    have hsome := congrArg Option.isSome hfits
    rwa [Option.isSome_map, Option.isSome_map] at hsome
  | refer => exact h.of_frame (insertSourceMediaRef_frame _) (by decide)
  | observe => exact h.of_frame (updateSourceMediaRefs_frame _ _) (by decide)

theorem CatalogWrites.rooted (hw : CatalogWrites service item db db') (h : db.Rooted) :
    db'.Rooted := by
  induction hw with
  | refl => exact h
  | tail _ hw ih => exact CatalogWrite.rooted hw ih

theorem MatchesKept.hierarchyWrite (h : MatchesKept known db)
    (hw : HierarchyWrite service item db db') :
    MatchesKept known db' := by
  have hrooted := HierarchyWrite.rooted hw h.rooted
  cases hw with
  | touch => exact h.of_frame (updateSourceMediaRefs_frame _ _) (by decide) (by decide)
  | refer => exact h.of_frame (insertSourceMediaRef_frame _) (by decide) (by decide)
  | create m _ hmanual => exact h.step hrooted (.insert db m hmanual)
  | retitle i f hf hguard =>
    have hnone : db.identityRows.manualMatchOf i = none := by
      rcases hguard with hnone | halbum
      · exact hnone
      · by_contra hsome
        obtain ⟨x, hx⟩ := Option.ne_none_iff_exists'.1 hsome
        rcases h.kinds i x hx with hk | hk <;> rw [halbum] at hk <;> cases hk
    exact h.step hrooted (.save db service.now (fun m => (hf m).2.2) hnone)
  | identify i hnone hids =>
    have hitems : db'.mediaItems = db.mediaItems := hids.frame .mediaItems (by decide)
    refine h.step hrooted ⟨fun j m' hm' _ => ⟨m', hitems ▸ hm', .refl m'⟩, fun j hj _ => ?_⟩
    refine hids.identifiersAt ?_
    rintro rfl
    exact hj hnone
  | detail hframe => exact h.of_frame hframe (by decide) (by decide)

theorem MatchesKept.catalogWrite (h : MatchesKept known db)
    (hw : CatalogWrite service item db db') : MatchesKept known db' := by
  have hrooted := CatalogWrite.rooted hw h.rooted
  cases hw with
  | hierarchy hw => exact h.hierarchyWrite hw
  | create m _ hmanual => exact h.step hrooted (.insert db m hmanual)
  | update i parent hnone => exact h.step hrooted (.save db service.now (fun _ => rfl) hnone)
  | refer => exact h.of_frame (insertSourceMediaRef_frame _) (by decide) (by decide)
  | observe => exact h.of_frame (updateSourceMediaRefs_frame _ _) (by decide) (by decide)

/-- Every item stays, with its manual match. -/
def ManualStays (db db' : Database) : Prop :=
  ∀ i x, db.identityRows.manualMatchOf i = some x → db'.identityRows.manualMatchOf i = some x

theorem ManualStays.of_itemsKept (h : ItemsKept db db') : ManualStays db db' := by
  intro i x hx
  obtain ⟨m, hm, hmanual⟩ := Option.bind_eq_some_iff.1 hx
  obtain ⟨m', hm', -, -, hsame⟩ := h i m hm
  rw [manualMatchOf_of_get? hm']
  unfold MediaItem.manualMatch at hmanual ⊢
  rw [hsame]; exact hmanual

theorem CatalogWrite.manualStays (hw : CatalogWrite service item db db') : ManualStays db db' := by
  cases hw with
  | hierarchy hw => exact .of_itemsKept hw.itemsKept
  | create m => exact .of_itemsKept (.insert db m)
  | update i parent =>
    intro j x hx
    obtain ⟨m, hm, hmanual⟩ := Option.bind_eq_some_iff.1 hx
    obtain ⟨g, hget, hg⟩ := db.saveMediaItem_row service.now i j
      ⟨MediaPersistenceService.applyMedia item parent, fun _ => rfl⟩
    rw [manualMatchOf_of_get? (hget.trans (congrArg _ hm))]
    rcases hg m with heq | ⟨-, heq⟩ <;> rw [heq]
    exacts [hmanual, hmanual]
  | refer => exact .of_itemsKept (.of_frame (insertSourceMediaRef_frame _) (by decide))
  | observe => exact .of_itemsKept (.of_frame (updateSourceMediaRefs_frame _ _) (by decide))

theorem CatalogWrites.matchesKept (h : MatchesKept known db)
    (hw : CatalogWrites service item db db') :
    MatchesKept known db' ∧ ManualStays db db' := by
  induction hw with
  | refl => exact ⟨h, fun _ _ hx => hx⟩
  | tail _ hw ih =>
    exact ⟨ih.1.catalogWrite hw, fun i x hx => CatalogWrite.manualStays hw i x (ih.2 i x hx)⟩

end Persist

end Database

end Euvieouvi
