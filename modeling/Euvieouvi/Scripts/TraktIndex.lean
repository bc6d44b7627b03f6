import Euvieouvi.Lib.Grouping
import Euvieouvi.Persist.Identifiers
import Euvieouvi.Scripts.TraktArchive

/-!
# The index of an import

`MediaIndex.match` decides by the number of identifiers that an item shares with an event, so what
it says depends on the index only through these numbers. Adding identifiers raises the number of one
item.
-/

namespace Euvieouvi

open Database

/-- An item of the kind has the identifier. -/
def Database.Names (db : Database) (kind : MediaKind) (x : ExternalIdentifier) (i : Nat) : Prop :=
  db.Identifies i x ∧ ∃ m, db.mediaItems.get? i = some m ∧ m.kind = kind

namespace MediaIndex
variable {index index' : MediaIndex} {kind k : MediaKind} {x y : ExternalIdentifier}
  {i mediaId : Nat}
  {identifiers : List ExternalIdentifier}

theorem mem_insert : i ∈ (index.insert kind x mediaId).byIdentifier k y ↔
    i ∈ index.byIdentifier k y ∨ k = kind ∧ y = x ∧ i = mediaId := by
  unfold insert
  dsimp only
  split
  next h => simp [h, or_comm]
  next h =>
    refine ⟨.inl, fun hi => ?_⟩
    rcases hi with hi | ⟨hk, hy, -⟩
    exacts [hi, absurd ⟨hk, hy⟩ h]

theorem insert_of_mem (h : mediaId ∈ index.byIdentifier kind x) :
    index.insert kind x mediaId = index := by
  have hsame : ∀ k y, (if k = kind ∧
      y = x then (index.byIdentifier k y).insert mediaId else index.byIdentifier k y) =
      index.byIdentifier k y := by
    intro k y
    split
    next heq => rw [heq.1, heq.2, List.insert_of_mem h]
    next => rfl
  unfold insert
  simp only [hsame]

theorem mem_add : i ∈ (index.add kind mediaId identifiers).byIdentifier k y ↔
    i ∈ index.byIdentifier k y ∨ k = kind ∧ y ∈ identifiers ∧ i = mediaId := by
  unfold add
  induction identifiers generalizing index with
  | nil => simp
  | cons x identifiers ih =>
    rw [List.foldl_cons, ih, mem_insert, List.mem_cons]
    constructor
    · rintro ((hi | ⟨hk, hy, hi⟩) | ⟨hk, hy, hi⟩)
      exacts [.inl hi, .inr ⟨hk, .inl hy, hi⟩, .inr ⟨hk, .inr hy, hi⟩]
    · rintro (hi | ⟨hk, hy | hy, hi⟩)
      exacts [.inl (.inl hi), .inl (.inr ⟨hk, hy, hi⟩), .inr ⟨hk, hy, hi⟩]

theorem add_of_mem (h : ∀ x ∈ identifiers, mediaId ∈ index.byIdentifier kind x) :
    index.add kind mediaId identifiers = index := by
  unfold add
  induction identifiers with
  | nil => rfl
  | cons x identifiers ih =>
    rw [List.foldl_cons, insert_of_mem (h x List.mem_cons_self)]
    exact ih fun y hy => h y (List.mem_cons_of_mem _ hy)

/-- What `load` does with one row. -/
def loadRow (db : Database) (index : MediaIndex) (r : MediaIdentifier) : MediaIndex :=
  match db.mediaItems.get? r.mediaItemId with
  | some m => index.insert m.kind ⟨r.provider, r.externalId⟩ r.mediaItemId
  | none => index

theorem mem_loadRow {db : Database} (index : MediaIndex) (r : MediaIdentifier) :
    i ∈ (loadRow db index r).byIdentifier k x ↔
    i ∈ index.byIdentifier k x ∨ r.mediaItemId = i ∧ r.identity = x ∧
    ∃ m, db.mediaItems.get? i = some m ∧ m.kind = k := by
  unfold loadRow
  split
  next m hm =>
    rw [mem_insert]
    refine or_congr Iff.rfl ⟨?_, ?_⟩
    · rintro ⟨rfl, rfl, rfl⟩
      exact ⟨rfl, rfl, m, hm, rfl⟩
    · rintro ⟨rfl, rfl, m', hm', rfl⟩
      obtain rfl := Option.some_inj.1 (hm.symm.trans hm')
      exact ⟨rfl, rfl, rfl⟩
  next hm =>
    refine ⟨.inl, fun hi => ?_⟩
    rcases hi with hi | ⟨rfl, -, m, hm', -⟩
    · exact hi
    · rw [hm] at hm'; cases hm'

/-- The index holds what the tables say. -/
theorem mem_load {db : Database} {source : Nat} : i ∈ (load db source).byIdentifier k x ↔
    db.Names k x i := by
  have hfold : ∀ (rows : List MediaIdentifier) (index : MediaIndex),
      i ∈ (rows.foldl (loadRow db) index).byIdentifier k x ↔
      i ∈ index.byIdentifier k x ∨ ∃ r ∈ rows, r.mediaItemId = i ∧ r.identity = x ∧
        ∃ m, db.mediaItems.get? i = some m ∧ m.kind = k := by
    intro rows
    induction rows with
    | nil => simp
    | cons r rows ih => intro index; rw [List.foldl_cons, ih, mem_loadRow]; simp [or_assoc]
  show i ∈ (db.mediaIdentifiers.rows.foldl (loadRow db) _).byIdentifier k x ↔ _
  rw [hfold]
  constructor
  · rintro (hi | ⟨r, hr, hitem, hx, hm⟩)
    · cases hi
    · exact ⟨⟨r, hr, hitem, hx⟩, hm⟩
  · rintro ⟨⟨r, hr, hitem, hx⟩, hm⟩
    exact .inr ⟨r, hr, hitem, hx, hm⟩

theorem mem_candidates : i ∈ index.candidates kind identifiers ↔ ∃ x ∈ identifiers,
    i ∈ index.byIdentifier kind x := by
  unfold candidates
  rw [List.mem_eraseDups, List.mem_flatMap]

theorem match_eq_unmatched : index.match kind identifiers = .unmatched ↔
    index.candidates kind identifiers = [] := by
  unfold «match»
  dsimp only
  split
  next h => simpa using h
  next h =>
    refine ⟨fun hm => ?_, fun hc => absurd (by rw [hc]; rfl) h⟩
    split at hm
    · cases hm
    split at hm <;> cases hm

/-- An item that is matched is in the index under some identifier. -/
theorem mem_of_match (h : index.match kind identifiers = .item i) :
    ∃ x ∈ identifiers, i ∈ index.byIdentifier kind x := by
  unfold «match» at h
  dsimp only at h
  split at h
  · cases h
  refine mem_candidates.1 ?_
  split at h
  next j hbest =>
    cases h
    have hj : i ∈ [i] := List.mem_cons_self
    rw [← hbest] at hj
    exact List.mem_of_mem_filter (List.mem_of_mem_filter hj)
  split at h
  next j hbest =>
    cases h
    have hj : i ∈ [i] := List.mem_cons_self
    rw [← hbest] at hj
    exact List.mem_of_mem_filter hj
  · cases h

/-- No item has more of the identifiers, and the item has one of them. -/
def Leads (index : MediaIndex) (kind : MediaKind) (identifiers : List ExternalIdentifier)
    (i : Nat) : Prop :=
  0 < index.score kind identifiers i ∧
    ∀ j, index.score kind identifiers j ≤ index.score kind identifiers i

theorem score_pos : 0 < index.score kind identifiers i ↔ i ∈ index.candidates kind identifiers := by
  unfold score
  simp [List.countP_pos_iff, mem_candidates]

theorem foldl_max_le {scores : List Nat} {n : Nat} (b : Nat) :
    scores.foldl max b ≤ n ↔ b ≤ n ∧ ∀ k ∈ scores, k ≤ n := by
  induction scores generalizing b with
  | nil => simp
  | cons k scores ih => simp [ih, and_assoc]

/-- The items that `match` keeps are the leading ones. -/
theorem mem_best {scored : List Nat} (hscored : index.candidates kind identifiers = scored) :
    i ∈ (scored.filter fun i => index.score kind identifiers i ==
      (scored.map (index.score kind identifiers)).foldl max 0) ↔
      index.Leads kind identifiers i := by
  subst hscored
  rw [List.mem_filter, ← score_pos, beq_iff_eq]
  refine and_congr_right fun hi => ?_
  have hle : ∀ n,
      ((index.candidates kind identifiers).map (index.score kind identifiers)).foldl max 0 ≤ n ↔
      ∀ j, index.score kind identifiers j ≤ n := by
    intro n
    rw [foldl_max_le]
    constructor
    · rintro ⟨-, h⟩ j
      by_cases hj : 0 < index.score kind identifiers j
      · exact h _ (List.mem_map_of_mem (score_pos.1 hj))
      · omega
    · intro h
      refine ⟨Nat.zero_le n, fun k hk => ?_⟩
      obtain ⟨j, -, rfl⟩ := List.mem_map.1 hk
      exact h j
  constructor
  · intro h
    exact (hle _).1 h.ge
  · intro h
    exact le_antisymm ((hle _).1 le_rfl i) ((hle _).2 h)

theorem eq_singleton {items : List Nat} (hitems : items.Nodup) :
    items = [i] ↔ ∀ j, j ∈ items ↔ j = i := by
  rw [← List.perm_singleton, List.perm_ext_iff_of_nodup hitems (List.nodup_singleton i)]
  simp

/-- `match` decides for the one leading item of the source, or for the one leading item. -/
theorem match_eq_item : index.match kind identifiers = .item i ↔ index.Leads kind identifiers i ∧
    ((i ∈ index.preferredMediaIds ∧ ∀ j, index.Leads kind identifiers j →
      j ∈ index.preferredMediaIds → j = i) ∨
      ∀ j, index.Leads kind identifiers j → j = i) := by
  unfold «match»
  dsimp only
  generalize hscored : index.candidates kind identifiers = scored
  have hbest := fun j => @mem_best index kind j identifiers scored hscored
  have hnodup : scored.Nodup := by rw [← hscored]; exact nodup_eraseDups _
  generalize hb : scored.filter _ = best at hbest ⊢
  have hnodup : best.Nodup := by rw [← hb]; exact hnodup.filter _
  have hone : best = [i] ↔ index.Leads kind identifiers i ∧
      ∀ j, index.Leads kind identifiers j → j = i := by
    rw [eq_singleton hnodup]
    simp only [hbest]
    exact ⟨fun h => ⟨(h i).2 rfl, fun j => (h j).1⟩, fun h j => ⟨h.2 j, fun hj => hj ▸ h.1⟩⟩
  have hpreferred : ∀ i, best.filter index.preferredMediaIds.contains = [i] ↔
      index.Leads kind identifiers i ∧
      i ∈ index.preferredMediaIds ∧ ∀ j, index.Leads kind identifiers j →
        j ∈ index.preferredMediaIds → j = i := by
    intro i
    rw [eq_singleton (hnodup.filter _)]
    simp only [List.mem_filter, hbest, List.contains_iff_mem]
    constructor
    · intro h
      exact ⟨((h i).2 rfl).1, ((h i).2 rfl).2, fun j hj hp => (h j).1 ⟨hj, hp⟩⟩
    · rintro ⟨hi, hp, h⟩ j
      exact ⟨fun hj => h j hj.1 hj.2, by rintro rfl; exact ⟨hi, hp⟩⟩
  split
  next hempty =>
    have hnone : best = [] := by rw [← hb, List.isEmpty_iff.1 hempty]; rfl
    rw [hnone] at hbest
    simp [← hbest]
  split
  next k hk =>
    obtain ⟨hlead, hp, huniq⟩ := (hpreferred k).1 hk
    rw [IndexMatch.item.injEq]
    constructor
    · rintro rfl
      exact ⟨hlead, .inl ⟨hp, huniq⟩⟩
    · rintro ⟨hi, ⟨hpi, h⟩ | h⟩
      exacts [h k hlead hp, h k hlead]
  next hmany =>
    have hchoice : index.Leads kind identifiers i ∧
        ((i ∈ index.preferredMediaIds ∧ ∀ j, index.Leads kind identifiers j →
          j ∈ index.preferredMediaIds → j = i) ∨
          ∀ j, index.Leads kind identifiers j → j = i) ↔ best = [i] := by
      rw [hone]
      constructor
      · rintro ⟨hi, ⟨hp, h⟩ | h⟩
        exacts [absurd ((hpreferred i).2 ⟨hi, hp, h⟩) (hmany i), ⟨hi, h⟩]
      · rintro ⟨hi, h⟩
        exact ⟨hi, .inr h⟩
    rw [hchoice]
    split
    next k => simp
    next hnone =>
      constructor
      · intro h
        cases h
      · intro h
        exact absurd h (hnone i)

theorem unmatched_iff : index.match kind identifiers = .unmatched ↔
    ∀ i, index.score kind identifiers i = 0 := by
  rw [match_eq_unmatched, List.eq_nil_iff_forall_not_mem]
  refine forall_congr' fun i => ?_
  rw [← score_pos]
  omega

theorem match_ext {decision decision' : IndexMatch}
    (hitem : ∀ i, decision' = .item i ↔ decision = .item i)
    (hnone : decision' = .unmatched ↔ decision = .unmatched) : decision' = decision := by
  cases decision with
  | item i => exact (hitem i).2 rfl
  | unmatched => exact hnone.2 rfl
  | ambiguous =>
    cases decision' with
    | item i => cases (hitem i).1 rfl
    | unmatched => cases hnone.1 rfl
    | ambiguous => rfl

/-- What is matched depends on the scores and on the items of the source only. -/
theorem match_congr (hscore : ∀ i, index'.score kind identifiers i = index.score kind identifiers i)
    (hpreferred : index'.preferredMediaIds = index.preferredMediaIds) :
    index'.match kind identifiers = index.match kind identifiers := by
  have hleads : ∀ i, index'.Leads kind identifiers i ↔ index.Leads kind identifiers i := fun i => by
    simp only [Leads, hscore]
  refine match_ext (fun i => ?_) ?_
  · simp only [match_eq_item, hleads, hpreferred]
  · simp only [unmatched_iff, hscore]

/-! ### Identifiers added -/

@[simp] theorem preferred_add :
    (index.add kind mediaId identifiers).preferredMediaIds = index.preferredMediaIds := by
  unfold add
  induction identifiers generalizing index with
  | nil => rfl
  | cons x identifiers ih => exact ih

section Add
variable {wanted : List ExternalIdentifier}

theorem score_congr (h : ∀ x ∈ wanted, (i ∈ index'.byIdentifier k x ↔ i ∈ index.byIdentifier k x)) :
    index'.score k wanted i = index.score k wanted i := by
  unfold score
  refine List.countP_congr fun x hx => ?_
  simp only [List.contains_iff_mem, h x hx]

theorem score_add_of_ne (h : i ≠ mediaId) :
    (index.add kind mediaId identifiers).score k wanted i = index.score k wanted i :=
  score_congr fun x _ => by simp [mem_add, h]

/-- An item of another kind stays as it was. -/
theorem match_add_of_kind (h : k ≠ kind) :
    (index.add kind mediaId identifiers).match k wanted = index.match k wanted :=
  match_congr (fun i => score_congr fun x _ => by simp [mem_add, h]) preferred_add

theorem score_le_add :
    index.score kind wanted i ≤ (index.add kind mediaId identifiers).score kind wanted i := by
  unfold score
  refine List.countP_mono_left fun x _ h => ?_
  simp only [List.contains_iff_mem] at h ⊢
  exact mem_add.2 (.inl h)

theorem score_add_self :
    (index.add kind mediaId identifiers).score kind identifiers mediaId = identifiers.length := by
  unfold score
  refine List.countP_eq_length.2 fun x hx => ?_
  simpa [mem_add] using .inr hx

theorem score_le_length : index.score kind wanted i ≤ wanted.length := List.countP_le_length

/-- The item that is matched gets the identifiers and is matched again. -/
theorem match_add_self (h : index.match kind identifiers = .item i) :
    (index.add kind i identifiers).match kind identifiers = .item i := by
  obtain ⟨⟨hpos, hbest⟩, huniq⟩ := match_eq_item.1 h
  have hlength : ∀ j, (index.add kind i identifiers).score kind identifiers j ≤
      identifiers.length := fun j => score_le_length
  have hleads : ∀ j, (index.add kind i identifiers).Leads kind identifiers j → j ≠ i →
      index.Leads kind identifiers j := by
    rintro j ⟨-, hj⟩ hne
    have hfull := hj i
    rw [score_add_self, score_add_of_ne hne] at hfull
    have hjle := hbest j
    have hile := @score_le_length index kind i identifiers
    exact ⟨by omega, fun j' => (hbest j').trans (by omega)⟩
  rw [match_eq_item]
  refine ⟨⟨hpos.trans_le score_le_add, fun j => by rw [score_add_self]; exact hlength j⟩,
    huniq.imp ?_ ?_⟩
  · rintro ⟨hp, hi⟩
    refine ⟨by
      rwa [preferred_add], fun j hj hjp => by_contra fun hne => hne (hi j (hleads j hj hne) ?_)⟩
    rwa [preferred_add] at hjp
  · exact fun hi j hj => by_contra fun hne => hne (hi j (hleads j hj hne))

/-- A new item stands alone under identifiers that nothing has. -/
theorem match_add_of_unmatched (h : index.match kind identifiers = .unmatched)
    (hne : identifiers ≠ []) :
    (index.add kind i identifiers).match kind identifiers = .item i := by
  have hzero := unmatched_iff.1 h
  have hlength : 0 < identifiers.length := List.length_pos_of_ne_nil hne
  have hself : (index.add kind i identifiers).score kind identifiers i = identifiers.length :=
    score_add_self
  refine match_eq_item.2 ⟨⟨by omega, fun j => by rw [hself]; exact score_le_length⟩,
    .inr fun j hj => ?_⟩
  by_contra hji
  have hpos := hj.1
  rw [score_add_of_ne hji, hzero j] at hpos
  omega

/-- A new item with `n` of the identifiers is no match for what is known. -/
def Withstands (index : MediaIndex) (kind : MediaKind) (identifiers : List ExternalIdentifier)
    (n : Nat) : Prop :=
  (∃ i ∈ index.candidates kind identifiers, n ≤ index.score kind identifiers i) ∧
    ∀ i, index.match kind identifiers = .item i →
      n < index.score kind identifiers i ∨ i ∈ index.preferredMediaIds

theorem score_add_fresh (hfresh : ∀ x, i ∉ index.byIdentifier kind x) :
    (index.add kind i identifiers).score kind wanted i = wanted.countP identifiers.contains := by
  unfold score
  refine List.countP_congr fun x _ => ?_
  simp [mem_add, hfresh]

/-- A new item that does not score higher than the best one leaves the others leading or not. -/
theorem leads_add_of_ne {j top : Nat} (hfresh : ∀ x, i ∉ index.byIdentifier kind x)
    (htop : wanted.countP identifiers.contains ≤ index.score kind wanted top) (hj : j ≠ i) :
    (index.add kind i identifiers).Leads kind wanted j ↔ index.Leads kind wanted j := by
  have hold : index.score kind wanted i = 0 :=
    List.countP_eq_zero.2 fun x _ => by simpa using hfresh x
  unfold Leads
  rw [score_add_of_ne hj]
  refine and_congr_right fun _ => ⟨fun h j' => ?_, fun h j' => ?_⟩
  · by_cases hj' : j' = i
    · rw [hj', hold]; exact Nat.zero_le _
    · have := h j'
      rwa [score_add_of_ne hj'] at this
  · by_cases hj' : j' = i
    · rw [hj', score_add_fresh hfresh]; exact htop.trans (h top)
    · rw [score_add_of_ne hj']; exact h j'

/-- A new item that the index withstands is not the match, and leaves another item to be it. -/
theorem match_add_fresh_item {j : Nat} (hfresh : ∀ x, i ∉ index.byIdentifier kind x)
    (hsource : i ∉ index.preferredMediaIds)
    (h : index.Withstands kind wanted (wanted.countP identifiers.contains)) :
    (index.add kind i identifiers).match kind wanted = .item j ↔
      index.match kind wanted = .item j := by
  obtain ⟨⟨top, htop, hle⟩, hitem⟩ := h
  rw [← score_pos] at htop
  have hold : index.score kind wanted i = 0 :=
    List.countP_eq_zero.2 fun x _ => by simpa using hfresh x
  have hnew := @score_add_fresh index kind i identifiers wanted hfresh
  have htopne : top ≠ i := by rintro rfl; omega
  have hleads := fun j => @leads_add_of_ne index kind i identifiers wanted j top hfresh hle
  have hpos : ∀ j, index.Leads kind wanted j → j ≠ i := by
    rintro j ⟨hj, -⟩ rfl
    omega
  have hpreferred : ∀ j, j ∈ index.preferredMediaIds → j ≠ i := by
    rintro j hj rfl
    exact hsource hj
  rw [match_eq_item, preferred_add]
  by_cases hj : j = i
  · subst hj
    refine ⟨?_, fun h => absurd rfl (hpos j (match_eq_item.1 h).1)⟩
    rintro ⟨⟨-, hmax⟩, ⟨hp, -⟩ | huniq⟩
    · exact absurd hp hsource
    · -- the best known item has as many identifiers, so there are two
      have htopmax := hmax top
      rw [hnew, score_add_of_ne htopne] at htopmax
      refine absurd (huniq top
        ⟨by rw [score_add_of_ne htopne]; exact htop, fun j' => (hmax j').trans ?_⟩) htopne
      rw [hnew, score_add_of_ne htopne]
      exact hle
  · rw [hleads j hj]
    constructor
    · rintro ⟨hlead, ⟨hp, huniq⟩ | huniq⟩
      · refine match_eq_item.2
          ⟨hlead, .inl ⟨hp, fun j' hj' => huniq j' ((hleads j' (hpos j' hj')).2 hj')⟩⟩
      · exact match_eq_item.2
          ⟨hlead, .inr fun j' hj' => huniq j' ((hleads j' (hpos j' hj')).2 hj')⟩
    · intro hmatch
      obtain ⟨hlead, hchoice⟩ := match_eq_item.1 hmatch
      refine ⟨hlead, ?_⟩
      have hp_of : j ∈ index.preferredMediaIds → j ∈ index.preferredMediaIds ∧
          ∀ j', (index.add kind i identifiers).Leads kind wanted j' →
            j' ∈ index.preferredMediaIds → j' = j := by
        refine fun hp => ⟨hp, fun j' hj' hp' => ?_⟩
        have hj'lead := (hleads j' (hpreferred j' hp')).1 hj'
        rcases hchoice with ⟨-, huniq⟩ | huniq
        exacts [huniq j' hj'lead hp', huniq j' hj'lead]
      rcases hitem j hmatch with hlt | hp
      · refine hchoice.imp (fun h => hp_of h.1) fun huniq j' hj' => ?_
        by_cases hj'i : j' = i
        · subst hj'i
          have := hj'.2 j
          rw [hnew, score_add_of_ne hj] at this
          omega
        · exact huniq j' ((hleads j' hj'i).1 hj')
      · exact .inl (hp_of hp)

/-- A new item that the index withstands changes no match. -/
theorem match_add_fresh (hfresh : ∀ x, i ∉ index.byIdentifier kind x)
    (hsource : i ∉ index.preferredMediaIds)
    (h : index.Withstands kind wanted (wanted.countP identifiers.contains)) :
    (index.add kind i identifiers).match kind wanted = index.match kind wanted := by
  refine match_ext (fun j => match_add_fresh_item hfresh hsource h) ?_
  obtain ⟨⟨top, htop, hle⟩, -⟩ := h
  rw [← score_pos] at htop
  have htopne : top ≠ i := by
    rintro rfl
    have hold : index.score kind wanted top = 0 :=
      List.countP_eq_zero.2 fun x _ => by simpa using hfresh x
    omega
  rw [unmatched_iff, unmatched_iff]
  constructor
  · intro h
    have := h top
    rw [score_add_of_ne htopne] at this
    omega
  · intro h
    have := h top
    omega

end Add

end MediaIndex

end Euvieouvi
