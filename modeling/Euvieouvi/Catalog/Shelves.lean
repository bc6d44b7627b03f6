import Euvieouvi.Reconcile.Calls
import Euvieouvi.Reconcile.Respects
import Euvieouvi.Catalog.Places

/-!
# Merges and places

A merge takes the place of the loser away and puts its children below the winner. So it keeps a
numbered catalog numbered where two seasons that are merged have one number, and where no season is
left below a lost show: `_merge_hierarchy` has merged or moved them all, because two seasons of one
show never have the same number.
-/

namespace Euvieouvi

/-- An item that is still there has the kind and the season number it had. -/
abbrev NumbersRemain : Database → Database → Prop :=
  RowsRelate fun m m' => m'.kind = m.kind ∧ m'.seasonNumber = m.seasonNumber

namespace Database
variable {db db' db'' : Database} {now : Time} {w l i : Nat}

theorem mergeItem_numbers (db : Database) (now : Time) (w l : Nat) :
    NumbersRemain db (db.mergeItem now w l) :=
  .of_merge (fun _ => ⟨rfl, rfl⟩) (fun h h' => ⟨h'.1.trans h.1, h'.2.trans h.2⟩)
    (fun _ _ _ => ⟨rfl, rfl⟩)
    (fun _ _ => ⟨rfl, rfl⟩) db now w l

/-- Every primitive change of the reconciliation keeps the numbers. -/
theorem respects_numbers : Respects NumbersRemain where
  refl db := .refl (fun _ => ⟨rfl, rfl⟩) db
  trans h h' := h.trans (fun h h' => ⟨h'.1.trans h.1, h'.2.trans h.2⟩) h'
  merge := mergeItem_numbers
  move db now parent i := by
    have hitems : (db.saveParent now parent i).mediaItems = _ := mediaItems_updateMediaItems _ _
    exact .of_table (fun _ => ⟨rfl, rfl⟩) (fun _ => ⟨rfl, rfl⟩) hitems
  stale db := .refl (fun _ => ⟨rfl, rfl⟩) db

theorem places_mergeItem (h : MergeItem w l db db') (j : Nat) :
    db'.places j = if j = l then none else (db.places j).map (Place.merged w l) := by
  obtain ⟨g, hg, hget⟩ := h.get?_eq
  obtain ⟨now, hrun⟩ := h.run
  have hnumbers := db.mergeItem_numbers now w l
  rw [← hrun] at hnumbers
  unfold places
  rw [hget]
  split
  · rfl
  next hj =>
    cases hm : db.mediaItems.get? j with
    | none => rfl
    | some m =>
      have hrow : db'.mediaItems.get? j = some (g m) := by rw [hget, if_neg hj, hm]; rfl
      obtain ⟨m₀, hm₀, -, hnumber⟩ := hnumbers j (g m) hrow
      obtain rfl : m₀ = m := Option.some_inj.1 (hm₀.symm.trans hm)
      show some (Place.mk (g m₀).kind (g m₀).parentId (g m₀).seasonNumber) =
        some (m₀.place.merged w l)
      rw [(hg m₀).1, (hg m₀).2, hnumber]
      rfl

/-- A flush of one item that is there. -/
theorem places_saveItem {a : Place} (hi : db.places i = some a) (f : Assignment MediaItem.id)
    {F : Place → Place} (hf : ∀ m : MediaItem, (f m).place = F m.place) (j : Nat) :
    (db.saveMediaItem now i f).places j = if j = i then some (F a) else db.places j := by
  obtain ⟨m, hm, rfl⟩ := Option.map_eq_some_iff.1 hi
  unfold places
  rw [get?_saveMediaItem]
  split
  next hji =>
    rw [hji, hm, Option.map_some, Option.map_some, ← hf]
    congr 1
    split
    next => rfl
    next hsame =>
      simp only [Table.key_of_get? hm, beq_self_eq_true, Bool.true_and, decide_eq_true_eq,
        not_not] at hsame
      exact congrArg MediaItem.place hsame.symm
  next hji =>
    rw [Option.map_map]
    cases hmj : db.mediaItems.get? j with
    | none => rfl
    | some m' =>
      have hid : m'.id = j := Table.key_of_get? hmj
      rw [Option.map_some, Option.map_some, Function.comp, if_neg (by simp [hid, hji])]

theorem places_saveParent {parent : Nat} {a : Place} (hi : db.places i = some a) (j : Nat) :
    (db.saveParent now parent i).places j = if j =
      i then some { a with parent := some parent } else db.places j :=
  places_saveItem (F := fun a => { a with parent := some parent }) hi _ (fun _ => rfl) j

theorem places_of_kindOf {k : MediaKind} (h : db.identityRows.kindOf i = some k) :
    ∃ a, db.places i = some a ∧ a.kind = k := by
  obtain ⟨m, hm, hk⟩ := Option.map_eq_some_iff.1 h
  exact ⟨m.place, places_of_get? hm, hk⟩

namespace Shelved

/-- The parent of an item is there, and has the kind the item asks for. -/
theorem parent (h : db.Shelved) {j p : Nat} {b : Place} (hj : db.places j = some b)
    (hp : b.parent = some p) :
    ∃ c, db.places p = some c ∧ b.kind.parentKind = some c.kind := by
  obtain ⟨k, kp, hk, hkp, hkind⟩ := h.layered.parentOf ((parentOf_of_places hj).trans hp)
  obtain ⟨c, hc, rfl⟩ := places_of_kindOf hkind
  rw [kindOf_of_places hj, Option.some_inj] at hk
  exact ⟨c, hc, hk ▸ hkp⟩

/-- An item whose kind another does not ask for is not its parent. -/
theorem not_parent (h : db.Shelved) {j p : Nat} {b c : Place} (hj : db.places j = some b)
    (hp : db.places p = some c) (hkind : b.kind.parentKind ≠ some c.kind) : b.parent ≠ some p := by
  intro heq
  obtain ⟨c', hc', hfits⟩ := h.parent hj heq
  rw [hp, Option.some_inj] at hc'
  exact hkind (hc' ▸ hfits)

theorem merge (h : db.Shelved) (hs : MergeItem w l db db') (hne : w ≠ l) (hkinds : db.SameKind w l)
    (hnumber : ∀ a b, db.places l = some a → a.kind = .season → db.places w = some b →
      b.number = a.number)
    (hseasons : ∀ i a, db.places i = some a → a.kind = .season → a.parent ≠ some l) :
    db'.Shelved where
  layered := h.layered.merge hs hne hkinds
  numbered := by
    refine h.numbered.merge (places_mergeItem hs) (fun i a b hi hkind hp hb => ?_)
        fun i j a b hi _ hkind _ hp _ =>
      absurd hp (hseasons i a hi hkind)
    obtain ⟨c, hc, hck⟩ := h.parent hi hp
    have hseason : c.kind = .season := by
      rw [hkind] at hck
      exact (Option.some_inj.1 hck).symm
    rw [hnumber c b hc hseason hb]
    exact h.numbered.episodes i l a c hi hkind hp hc

theorem move (h : db.Shelved) {parent : Nat} {a p : Place} (hi : db.places i = some a)
    (hp : db.places parent = some p)
    (hfits : a.kind.parentKind = some p.kind) (hepisode : a.kind = .episode → p.number = a.number)
    (hseason : a.kind = .season → ∀ j, db.places j ≠ some { a with parent := some parent }) :
    (db.saveParent now parent i).Shelved where
  layered :=
    h.layered.move (db.saveParent_spec now parent i) (kindOf_of_places hi) (.of_places hfits hp rfl)
  numbered := by
    refine h.numbered.set (places_saveParent hi) (fun j b hj hkind hb => ?_)
      (fun q b hkind hq hb => ?_)
      fun j hkind hj => absurd hj (hseason hkind j)
    · exact h.numbered.episodes j i b a hj hkind hb hi
    · obtain rfl : parent = q := Option.some_inj.1 hq
      rw [hp, Option.some_inj] at hb
      rw [← hb]
      exact hepisode hkind

end Shelved

/-- What is not below the loser keeps its place. -/
theorem places_merge_other (h : db.Shelved) (hs : MergeItem w l db db') {j : Nat} {b c : Place}
    (hl : db.places l = some c)
    (hb : b.kind.parentKind ≠ some c.kind) (hj : j ≠ l) :
    db'.places j = some b ↔ db.places j = some b := by
  rw [places_mergeItem hs, if_neg hj]
  constructor
  · intro hmap
    obtain ⟨a, ha, rfl⟩ := Option.map_eq_some_iff.1 hmap
    rw [Place.merged_of_ne (h.not_parent ha hl hb)]
    exact ha
  · intro hrow
    rw [hrow, Option.map_some, Place.merged_of_ne (h.not_parent hrow hl hb)]

/-- The places of what is no episode are what they were. -/
def OthersStay (db db' : Database) : Prop :=
  ∀ j b, b.kind ≠ .episode → (db'.places j = some b ↔ db.places j = some b)

theorem OthersStay.refl (db : Database) : OthersStay db db := fun _ _ _ => Iff.rfl

theorem OthersStay.trans (h : OthersStay db db') (h' : OthersStay db' db'') : OthersStay db db'' :=
  fun j b hb => (h' j b hb).trans (h j b hb)

theorem season_ne_episode : MediaKind.season ≠ .episode := by decide

theorem parentKind_ne_episode (k : MediaKind) :
    k.parentKind ≠ some .episode := by cases k <;> decide

theorem othersStay_merge (h : db.Shelved) (hs : MergeItem w l db db') {c : Place}
    (hl : db.places l = some c) (hc : c.kind = .episode) : OthersStay db db' := by
  intro j b hb
  by_cases hj : j = l
  · rw [places_mergeItem hs, if_pos hj, hj, hl, Option.some_inj]
    refine iff_of_false (by simp) ?_
    rintro rfl
    exact hb hc
  · exact places_merge_other h hs hl (hc ▸ parentKind_ne_episode b.kind) hj

theorem othersStay_move {a : Place} {parent : Nat} (hi : db.places i = some a)
    (ha : a.kind = .episode) :
    OthersStay db (db.saveParent now parent i) := by
  intro j b hb
  rw [places_saveParent hi]
  split
  next hji =>
    rw [hji, hi, Option.some_inj, Option.some_inj]
    refine iff_of_false ?_ ?_ <;> rintro rfl <;> exact hb ha
  next => rfl

/-- The episodes of a season merged into or moved below another of the same number. -/
theorem mergeSeason_shelved (now : Time) (h : db.Shelved) {kept lost : Nat} {a b : Place}
    (ha : db.places kept = some a)
    (hb : db.places lost = some b) (hak : a.kind = .season) (hbk : b.kind = .season)
    (hnumber : a.number = b.number)
    (hne : kept ≠ lost) : (db.mergeSeason now kept lost).1.Shelved ∧
    OthersStay db (db.mergeSeason now kept lost).1 := by
  have hrun := mergeSeason_run now hne (hak ▸ kindOf_of_places ha) (hbk ▸ kindOf_of_places hb)
  have hnot : ∀ {c : Place}, c.kind = .season → c.kind ≠ .episode := fun hc => by rw [hc]; decide
  refine (hrun.strengthen (I := fun d => d.Shelved ∧ OthersStay db d) ⟨h, .refl db⟩ ?_ ?_).2
  · rintro step d hm hmerge ⟨hd, hstay⟩
    obtain ⟨c, hc, hck⟩ := places_of_kindOf hm.kind
    obtain ⟨m, hwm⟩ := Option.isSome_iff_exists.1 (IdentityRows.contains_of_parentOf hm.winner)
    have hw : step.before.places step.winner = some m.place := places_of_get? hwm
    -- what is below a season is an episode
    have hepisode : step.before.identityRows.kindOf step.winner = some .episode := by
      obtain ⟨c', hc', hfits⟩ := hd.parent hw ((parentOf_of_places hw).symm.trans hm.winner)
      rw [(hstay kept a (hnot hak)).2 ha, Option.some_inj] at hc'
      rw [← hc', hak] at hfits
      rw [kindOf_of_places hw]
      cases hk : m.place.kind <;> rw [hk] at hfits <;> cases hfits
    refine ⟨hd.merge hmerge (hm.ne hne) ⟨.episode, hepisode, fun k' hk' => ?_⟩
      (fun a' b' ha' hk' => ?_) fun i a' hi hk' => ?_,
      hstay.trans (othersStay_merge hd hmerge hc hck)⟩
    · exact (Option.some_inj.1 (hm.kind.symm.trans hk')).symm
    · rw [hc, Option.some_inj] at ha'
      exact absurd (ha' ▸ hck) (hnot hk')
    · exact hd.not_parent hi hc (hck ▸ parentKind_ne_episode a'.kind)
  · rintro parent i d d' hv hmove ⟨hd, hstay⟩
    obtain ⟨now, rfl⟩ := hmove.run
    obtain ⟨hkind, hparent, rfl, -⟩ := hv
    obtain ⟨c, hc, hck⟩ := places_of_kindOf hkind
    have hkept := (hstay parent a (hnot hak)).2 ha
    have hlost := (hstay lost b (hnot hbk)).2 hb
    have hsame :=
      hd.numbered.episodes i lost c b hc hck ((parentOf_of_places hc).symm.trans hparent) hlost
    refine ⟨hd.move hc hkept ?_ (fun _ => hnumber.trans hsame) fun hseason => ?_,
      hstay.trans (othersStay_move hc hck)⟩
    · rw [hck, hak]
      rfl
    · exact absurd hck (hnot hseason)

/-- The seasons of the show `lost` that are still to be merged into the show `kept`, and all there
are. -/
structure ShowShelved (kept lost : Nat) (rest : List MediaItem) (db : Database) : Prop where
  shelved : db.Shelved
  kept : ∃ a, db.places kept = some a ∧ a.kind = .show
  seasons : ∀ s ∈ rest, db.places s.id = some ⟨.season, some lost, s.seasonNumber⟩
  left : ∀ j b, db.places j = some b → b.kind = .season → b.parent = some lost →
    ∃ s ∈ rest, s.id = j

/-- One season is no longer below the lost show. -/
theorem ShowShelved.step {kept lost : Nat} {season : MediaItem} {rest : List MediaItem}
    (h : ShowShelved kept lost (season :: rest) db) (hnodup : season.id ∉ rest.map (·.id))
    (hs : db'.Shelved)
    (hsame : ∀ j b, j ≠ season.id → b.kind ≠ .episode →
      (db'.places j = some b ↔ db.places j = some b))
    (hgone : ∀ b, db'.places season.id = some b → b.parent ≠ some lost) :
    ShowShelved kept lost rest db' where
  shelved := hs
  kept := by
    obtain ⟨a, ha, hak⟩ := h.kept
    have hseason := h.seasons season List.mem_cons_self
    refine ⟨a, (hsame kept a ?_ (by rw [hak]; decide)).2 ha, hak⟩
    rintro rfl
    rw [ha, Option.some_inj] at hseason
    rw [hseason] at hak
    cases hak
  seasons s hmem := by
    refine (hsame s.id _ (fun heq => ?_) season_ne_episode).2
      (h.seasons s (List.mem_cons_of_mem season hmem))
    exact hnodup (List.mem_map.2 ⟨s, hmem, heq⟩)
  left j b hj hk hp := by
    have hne : j ≠ season.id := by
      rintro rfl
      exact hgone b hj hp
    obtain ⟨s, hmem, rfl⟩ := h.left j b ((hsame j b hne (by rw [hk]; decide)).1 hj) hk hp
    rcases List.mem_cons.1 hmem with rfl | hmem
    · exact absurd rfl hne
    · exact ⟨s, hmem, rfl⟩

theorem mergeShowSeason_shelved (now : Time) {kept lost : Nat} (hne : kept ≠ lost)
    {acc : Database × List MergeStep}
    {season : MediaItem} {rest : List MediaItem} (hnodup : season.id ∉ rest.map (·.id))
    (h : ShowShelved kept lost (season :: rest) acc.1) :
    ShowShelved kept lost rest (mergeShowSeason now kept acc season).1 := by
  have hlost := h.seasons season List.mem_cons_self
  obtain ⟨a, ha, hak⟩ := h.kept
  have hcandidate : ∀ m ∈ acc.1.mediaItems.rows.filter fun m =>
      m.parentId == some kept && m.kind == .season && m.seasonNumber == season.seasonNumber,
      acc.1.places m.id = some ⟨.season, some kept, season.seasonNumber⟩ := by
    intro m hm
    obtain ⟨hrow, hsel⟩ := List.mem_filter.1 hm
    simp only [Bool.and_eq_true, beq_iff_eq] at hsel
    obtain ⟨⟨hp, hk⟩, hn⟩ := hsel
    rw [places_of_get? (Table.get?_of_mem hrow), MediaItem.place, hp, hk, hn]
  unfold mergeShowSeason
  dsimp only
  split
  next candidate hcand =>
    have hkept := hcandidate candidate (by rw [hcand]; exact List.mem_singleton.2 rfl)
    have hpair : candidate.id ≠ season.id := by
      intro heq
      rw [heq, hlost] at hkept
      have hparents := congrArg Place.parent (Option.some_inj.1 hkept)
      exact hne (Option.some_inj.1 hparents).symm
    obtain ⟨hd, hstay⟩ := mergeSeason_shelved now h.shelved hkept hlost rfl rfl rfl hpair
    generalize acc.1.mergeSeason now candidate.id season.id = merged at hd hstay ⊢
    obtain ⟨d, log⟩ := merged
    dsimp only at hd hstay ⊢
    have hw := (hstay _ _ season_ne_episode).2 hkept
    have hl := (hstay _ _ season_ne_episode).2 hlost
    have hmerge := d.mergeItem_spec now hpair
    refine h.step hnodup (hd.merge hmerge hpair ⟨.season, kindOf_of_places hw, fun k' hk' => ?_⟩
      (fun a' b' ha' _ hb' => ?_)
      fun j a' hj hk' => hd.not_parent hj hl (by rw [hk']; exact fun hfits => by cases hfits))
        (fun j b hj hb => ?_) fun b hb => ?_
    · exact (Option.some_inj.1 ((kindOf_of_places hl).symm.trans hk')).symm
    · rw [hl, Option.some_inj] at ha'
      rw [hw, Option.some_inj] at hb'
      rw [← ha', ← hb']
    · refine (places_merge_other hd hmerge hl (fun hfits => hb ?_) hj).trans (hstay j b hb)
      cases hk : b.kind <;> rw [hk] at hfits <;> cases hfits
    · rw [places_mergeItem hmerge, if_pos rfl] at hb
      cases hb
  next hnone =>
    refine h.step hnodup
      (h.shelved.move hlost ha (by rw [hak]; rfl) (fun hk => by cases hk) fun _ j hj => ?_)
      (fun j b hj _ => ?_) fun b hb => ?_
    · obtain ⟨m, hm, hplace⟩ := Option.map_eq_some_iff.1 hj
      obtain ⟨hk, hp, hn⟩ := Place.mk.inj hplace
      refine List.not_mem_nil (a := m) (hnone ▸ List.mem_filter.2 ⟨Table.mem_of_get? hm, ?_⟩)
      rw [hk, hp, hn]
      simp
    · rw [places_saveParent hlost, if_neg hj]
    · rw [places_saveParent hlost, if_pos rfl, Option.some_inj] at hb
      rw [← hb]
      exact fun heq => hne (Option.some_inj.1 heq)
  next hsome hnone =>
    -- two seasons of the show would have the same place
    exfalso
    set found := acc.1.mediaItems.rows.filter fun m =>
      m.parentId == some kept && m.kind == .season &&
        m.seasonNumber == season.seasonNumber with hfound
    have hids : (found.map (·.id)).Nodup := (List.filter_sublist.map _).nodup acc.1.mediaItems.nodup
    clear_value found
    rcases found with _ | ⟨first, _ | ⟨second, others⟩⟩
    · exact hnone rfl
    · exact hsome first rfl
    · have hfirst := hcandidate first List.mem_cons_self
      have hsecond := hcandidate second (List.mem_cons_of_mem first List.mem_cons_self)
      have hsame : first.id = second.id := h.shelved.numbered.once _ _ _ hfirst hsecond rfl
      simp [hsame] at hids

theorem mergeHierarchy_shelved (now : Time) (h : db.Shelved) {kept lost : Nat}
    (hne : kept ≠ lost) {a : Place}
    (ha : db.places kept = some a) (hak : a.kind = .show) :
    ShowShelved kept lost [] (db.mergeHierarchy now kept lost).1 := by
  have hloop : ∀ (seasons : List MediaItem) (acc : Database × List MergeStep),
      (seasons.map (·.id)).Nodup →
      ShowShelved kept lost seasons acc.1 →
        ShowShelved kept lost [] (seasons.foldl (mergeShowSeason now kept) acc).1 := by
    intro seasons
    induction seasons with
    | nil => exact fun _ _ h => h
    | cons season seasons ih =>
      intro acc hnodup h
      obtain ⟨hseason, hnodup⟩ := List.nodup_cons.1 hnodup
      exact ih _ hnodup (mergeShowSeason_shelved now hne hseason h)
  have hshow : ¬ (db.identityRows.kindOf kept ≠ some .show) := not_not.2 (hak ▸ kindOf_of_places ha)
  unfold mergeHierarchy
  rw [if_neg hshow]
  refine hloop _ (db, []) ((List.filter_sublist.map _).nodup db.mediaItems.nodup)
    ⟨h, ⟨a, ha, hak⟩, fun s hs => ?_, fun j b hj hk hp => ?_⟩
  · obtain ⟨hrow, hsel⟩ := List.mem_filter.1 hs
    simp only [Bool.and_eq_true, beq_iff_eq] at hsel
    show db.places s.id = _
    rw [places_of_get? (Table.get?_of_mem hrow), MediaItem.place, hsel.1, hsel.2]
  · obtain ⟨m, hm, rfl⟩ := Option.map_eq_some_iff.1 hj
    refine ⟨m, List.mem_filter.2 ⟨Table.mem_of_get? hm, ?_⟩, Table.key_of_get? hm⟩
    rw [show m.parentId = some lost from hp, show m.kind = .season from hk]
    simp

/-! ### Groups -/

/-- The second item, if it is there, has the kind of the first, and its number if that is a
season. -/
structure Mergeable (w l : Nat) (db : Database) : Prop where
  ne : w ≠ l
  same : ∃ a, db.places w = some a ∧ ∀ b, db.places l = some b → b.kind = a.kind ∧
    (a.kind = .season → a.number = b.number)

/-- The place of an item that is still there. -/
theorem number_of_remain (h : NumbersRemain db db') {j : Nat} {a : Place}
    (hj : db'.places j = some a) :
    ∃ b, db.places j = some b ∧ a.kind = b.kind ∧ a.number = b.number := by
  obtain ⟨m', hm', rfl⟩ := Option.map_eq_some_iff.1 hj
  obtain ⟨m, hm, hk, hn⟩ := h j m' hm'
  exact ⟨m.place, places_of_get? hm, hk, hn⟩

theorem Mergeable.later (h : Mergeable w l db) (hr : NumbersRemain db db')
    (hw : (db'.places w).isSome = true) :
    Mergeable w l db' := by
  obtain ⟨a', ha'⟩ := Option.isSome_iff_exists.1 hw
  obtain ⟨a, ha, hsame⟩ := h.same
  obtain ⟨a₀, ha₀, hk, hn⟩ := number_of_remain hr ha'
  obtain rfl : a₀ = a := Option.some_inj.1 (ha₀.symm.trans ha)
  refine ⟨h.ne, a', ha', fun b' hb' => ?_⟩
  obtain ⟨b, hb, hbk, hbn⟩ := number_of_remain hr hb'
  obtain ⟨hkinds, hnumbers⟩ := hsame b hb
  rw [hk, hn, hbk, hbn]
  exact ⟨hkinds, hnumbers⟩

/-- Two items are merged, and no season is below the second. -/
theorem Mergeable.merge (h : Mergeable w l db) (hs : db.Shelved) (now : Time)
    (hseasons : ∀ i a, db.places i = some a → a.kind = .season → a.parent ≠ some l) :
    (db.mergeItem now w l).Shelved ∧ ((db.mergeItem now w l).places w).isSome = true := by
  have hmerge := db.mergeItem_spec now h.ne
  obtain ⟨a, ha, hsame⟩ := h.same
  refine ⟨hs.merge hmerge h.ne ⟨a.kind, kindOf_of_places ha, fun k' hk' => ?_⟩
    (fun b a' hb hk ha' => ?_) hseasons, ?_⟩
  · obtain ⟨b, hb, hbk⟩ := places_of_kindOf hk'
    exact hbk ▸ (hsame b hb).1
  · obtain ⟨hkinds, hnumbers⟩ := hsame b hb
    obtain rfl : a = a' := Option.some_inj.1 (ha.symm.trans ha')
    exact hnumbers (hkinds ▸ hk)
  · rw [places_mergeItem hmerge, if_neg h.ne, ha]
    rfl

theorem mergePair_shelved (now : Time) (hs : db.Shelved) (h : Mergeable w l db) :
    (db.mergePair now w l).1.Shelved ∧ ((db.mergePair now w l).1.places w).isSome = true := by
  obtain ⟨a, ha, hsame⟩ := h.same
  by_cases hshow : a.kind = .show
  · have hhierarchy := mergeHierarchy_shelved now hs h.ne ha hshow
    have hremain := (respects_numbers.log now).mergeHierarchy w l db
    unfold mergePair
    generalize db.mergeHierarchy now w l = merged at hhierarchy hremain ⊢
    obtain ⟨d, log⟩ := merged
    dsimp only at hhierarchy hremain ⊢
    obtain ⟨b, hb, -⟩ := hhierarchy.kept
    refine (h.later hremain (by rw [hb]; rfl)).merge hhierarchy.shelved now fun i c hi hk hp => ?_
    obtain ⟨s, hmem, -⟩ := hhierarchy.left i c hi hk hp
    cases hmem
  · have hmerged := h.merge hs now fun i c hi hk hp => by
      obtain ⟨b, hb, hfits⟩ := hs.parent hi hp
      rw [hk] at hfits
      exact hshow ((hsame b hb).1 ▸ (Option.some_inj.1 hfits).symm)
    rw [mergePair_of_not_show now l (by rw [kindOf_of_places ha]; simpa using hshow)]
    generalize db.mergeItem now w l = d at hmerged ⊢
    exact hmerged

theorem mergePair_numbers (db : Database) (now : Time) (w l : Nat) :
    NumbersRemain db (db.mergePair now w l).1 := by
  have hhierarchy := (respects_numbers.log now).mergeHierarchy w l db
  unfold mergePair
  generalize db.mergeHierarchy now w l = merged at hhierarchy ⊢
  obtain ⟨d, log⟩ := merged
  have hmerged := respects_numbers.trans hhierarchy (d.mergeItem_numbers now w l)
  dsimp only
  generalize d.mergeItem now w l = d' at hmerged ⊢
  exact hmerged

theorem mergeDuplicates_shelved (now : Time) {c : Nat} {items : List Nat} (hs : db.Shelved)
    (hitems : ∀ d ∈ items, c ≠ d → Mergeable c d db) (hc : (db.places c).isSome = true) :
    (db.mergeDuplicates now c items).1.Shelved := by
  have hloop : ∀ (duplicates : List Nat) (acc : Database × List MergeStep),
      (∀ d ∈ duplicates, Mergeable c d acc.1) →
      acc.1.Shelved → (acc.1.places c).isSome = true →
        (duplicates.foldl (mergeDuplicate now c) acc).1.Shelved := by
    intro duplicates
    induction duplicates with
    | nil => exact fun _ _ hs _ => hs
    | cons d duplicates ih =>
      intro acc hd hs hc
      obtain ⟨hshelved, hkept⟩ := mergePair_shelved now hs (hd d List.mem_cons_self)
      have hremain := acc.1.mergePair_numbers now c d
      rw [List.foldl_cons]
      unfold mergeDuplicate
      generalize acc.1.mergePair now c d = merged at hshelved hkept hremain ⊢
      obtain ⟨d', log⟩ := merged
      exact ih (d', acc.2 ++ log)
        (fun d hmem => (hd d (List.mem_cons_of_mem _ hmem)).later hremain hkept) hshelved hkept
  refine hloop _ (db, []) (fun d hmem => ?_) hs hc
  obtain ⟨hd, hne⟩ := List.mem_filter.1 hmem
  exact hitems d hd fun heq => by simp [heq] at hne

/-- The items of the group that are there have one kind, and one number if that is the kind of a
season. -/
def OneNumber (db : Database) (ids : List Nat) : Prop :=
  ∀ i ∈ ids, ∀ j ∈ ids, ∀ a b, db.places i = some a → db.places j = some b →
    b.kind = a.kind ∧ (a.kind = .season → a.number = b.number)

theorem OneNumber.later {ids : List Nat} (h : db.OneNumber ids) (hr : NumbersRemain db db') :
    db'.OneNumber ids := by
  intro i hi j hj a' b' ha' hb'
  obtain ⟨a, ha, hak, han⟩ := number_of_remain hr ha'
  obtain ⟨b, hb, hbk, hbn⟩ := number_of_remain hr hb'
  rw [hak, hbk, han, hbn]
  exact h i hi j hj a b ha hb

theorem OneNumber.live {ids : List Nat} (h : db.OneNumber ids) : db.OneNumber (db.live ids) :=
  fun i hi j hj => h i (List.mem_filter.1 hi).1 j (List.mem_filter.1 hj).1

theorem mergeGroupInto_shelved (now : Time) {c : Nat} {items : List Nat} (hs : db.Shelved)
    (h : db.OneNumber items)
    (hc : c ∈ items) (hpresent : db.mediaItems.contains c = true) :
    (db.mergeDuplicates now c items).1.Shelved := by
  obtain ⟨m, hm⟩ := Option.isSome_iff_exists.1 hpresent
  have hplace := places_of_get? hm
  exact mergeDuplicates_shelved now hs
    (fun d hd hne => ⟨hne, m.place, hplace, fun b hb => h c hc d hd _ b hplace hb⟩)
    (by rw [hplace]; rfl)

theorem mergeGroup_shelved (now : Time) {ids : List Nat} {physical : Bool} (hs : db.Shelved)
    (h : db.OneNumber ids)
    {d : Database} {log : List MergeStep}
    (hgroup : db.mergeGroup now ids physical = some (d, log)) : d.Shelved := by
  unfold mergeGroup at hgroup
  dsimp only at hgroup
  split_ifs at hgroup with hunsafe
  obtain ⟨hne, -⟩ := passed hunsafe
  have hc := db.canonical_mem hne
  have hmerged := mergeGroupInto_shelved now hs h.live hc (mem_live hc)
  rwa [Option.some_inj.1 hgroup] at hmerged

end Database

end Euvieouvi
