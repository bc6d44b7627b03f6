import Mathlib.Data.List.Pairwise
import Mathlib.Data.Prod.Lex
import Euvieouvi.Projection.Members

/-!
# The groups are a safe partition

The groups hold every catalog item once (`flatten_groups_perm`), a group of two or more is safe as a
whole (`SafeGroup`), and its representative comes first by manual match, Plex reference and id.
-/

namespace Euvieouvi

namespace IdentityRows
variable {rows : IdentityRows} {py : PyLib}

theorem nodup_catalogIds (rows : IdentityRows) : rows.catalogIds.Nodup := by
  unfold catalogIds
  rw [(List.perm_insertionSort _ _).nodup_iff]
  exact (List.filter_sublist.map _).nodup rows.mediaItems.nodup

theorem mem_catalogIds {i : Nat} :
    i ∈ rows.catalogIds ↔ ∃ m ∈ rows.mediaItems.rows, isCatalogKind m.kind = true ∧ m.id = i := by
  unfold catalogIds
  rw [List.mem_insertionSort]
  simp only [List.mem_map, List.mem_filter, and_assoc]

theorem flatten_groups_perm (rows : IdentityRows) (py : PyLib) :
    (rows.groups py).flatten.Perm rows.catalogIds := by
  have hflat : (rows.groups py).flatten =
      (groupBy (fun i => ((rows.union py).findCompress i).1) rows.catalogIds).flatMap Prod.snd := by
    unfold groups
    rw [List.flatMap_def, List.flatMap_def, List.flatten_flatten, List.map_map]
    congr 1
    refine List.map_congr_left fun candidate _ => ?_
    show List.flatten (if _ then _ else _) = _
    split
    · exact List.flatten_singleton
    · induction candidate.2 with
      | nil => rfl
      | cons i l ih => rw [List.map_cons, List.flatten_cons, ih]; rfl
  rw [hflat]
  exact flatMap_groupBy_perm _ _

theorem nodup_flatten_groups (rows : IdentityRows) (py : PyLib) : (rows.groups py).flatten.Nodup :=
  (flatten_groups_perm rows py).nodup_iff.2 rows.nodup_catalogIds

theorem groups_disjoint (rows : IdentityRows) (py : PyLib) :
    (rows.groups py).Pairwise List.Disjoint :=
  (List.nodup_flatten.1 (nodup_flatten_groups rows py)).2

theorem eq_of_mem_groups {g g' : List Nat} {i : Nat} (h : g ∈ rows.groups py)
    (h' : g' ∈ rows.groups py) (hi : i ∈ g) (hi' : i ∈ g') : g = g' := by
  by_contra hne
  have : Std.Symm (List.Disjoint : List Nat → List Nat → Prop) := ⟨fun _ _ hd => hd.symm⟩
  exact (groups_disjoint rows py).forall h h' hne hi hi'

theorem nodup_canonicalOf (rows : IdentityRows) (py : PyLib) :
    ((rows.groups py).map rows.canonicalOf).Nodup := by
  have hmem : ∀ g ∈ rows.groups py, rows.canonicalOf g ∈ g :=
    fun g hg => canonicalOf_mem (groupOk hg).nonempty
  rw [List.Nodup, List.pairwise_map]
  refine (groups_disjoint rows py).imp_of_mem fun {g g'} hg hg' hdisjoint heq => ?_
  exact hdisjoint (hmem g hg) (heq ▸ hmem g' hg')

/-- Manual matches first, then items with a Plex reference, then low ids. -/
def representKey (rows : IdentityRows) (i : Nat) : Bool ×ₗ Bool ×ₗ Nat :=
  toLex (!(rows.manualMatchOf i).isSome, toLex (!rows.isPlex i, i))

theorem represents_iff {a b : Nat} :
    rows.represents a b = true ↔ rows.representKey a ≤ rows.representKey b := by
  have hlex : ∀ (manual manual' plex plex' : Bool),
      (if manual != manual' then manual else if plex != plex' then plex else decide (a ≤ b)) =
        true ↔
        toLex (!manual, toLex (!plex, a)) ≤ toLex (!manual', toLex (!plex', b)) := by
    intro manual manual' plex plex'
    rw [Prod.Lex.toLex_le_toLex, Prod.Lex.toLex_le_toLex]
    cases manual <;> cases manual' <;> cases plex <;> cases plex' <;> simp [Bool.lt_iff]
  exact hlex _ _ _ _

theorem representKey_canonicalOf_le {g : List Nat} {i : Nat} (hi : i ∈ g) :
    rows.representKey (rows.canonicalOf g) ≤ rows.representKey i := by
  have hfold : ∀ (l : List Nat) (best : Nat),
      rows.representKey (l.foldl (fun best i => if rows.represents best i then best else i) best) ≤
        rows.representKey best ∧
      ∀ j ∈ l, rows.representKey
        (l.foldl (fun best i => if rows.represents best i then best else i) best) ≤
        rows.representKey j := by
    intro l
    induction l with
    | nil => exact fun best => ⟨le_rfl, by simp⟩
    | cons j l ih =>
      intro best
      rw [List.foldl_cons]
      obtain ⟨hbest, hl⟩ := ih (if rows.represents best j then best else j)
      have hnext : rows.representKey (if rows.represents best j then best else j) ≤
          rows.representKey best ∧
          rows.representKey (if rows.represents best j then best else j) ≤ rows.representKey j := by
        split
        next h => exact ⟨le_rfl, represents_iff.1 h⟩
        next h => exact ⟨(le_total _ _).resolve_right fun hle => h (represents_iff.2 hle), le_rfl⟩
      refine ⟨hbest.trans hnext.1, fun k hk => ?_⟩
      rcases List.mem_cons.1 hk with rfl | hk
      · exact hbest.trans hnext.2
      · exact hl k hk
  cases g with
  | nil => cases hi
  | cons first rest =>
    rcases List.mem_cons.1 hi with rfl | hi
    · exact (hfold rest i).1
    · exact (hfold rest first).2 i hi

/-! ### What makes a group safe -/

/-- What `safe_identity_group` checks, member by member. -/
structure SafeGroup (rows : IdentityRows) (members : List Nat) : Prop where
  manual : ∀ i ∈ members, ∀ j ∈ members, ∀ a b, rows.manualMatchOf i = some a →
    rows.manualMatchOf j = some b → a = b
  files : members.Pairwise fun i j => rows.pathsOf i ≠ [] → rows.pathsOf j ≠ [] →
    ∃ key ∈ rows.pathsOf i, key ∈ rows.pathsOf j
  referenced : 2 ≤ members.length → ∀ i ∈ members, rows.sourceIdsOf i ≠ []
  apart : 2 ≤ members.length → members.Pairwise fun i j =>
    List.Disjoint (rows.availableSourcesOf i) (rows.availableSourcesOf j)

theorem safeGroup_go (sourcesOf availableSourcesOf : Nat → List Nat) (members seen : List Nat) :
    safeGroup.go sourcesOf availableSourcesOf seen members = true ↔
      (∀ i ∈ members, sourcesOf i ≠ [] ∧ List.Disjoint seen (availableSourcesOf i)) ∧
        members.Pairwise fun i j => List.Disjoint (availableSourcesOf i)
        (availableSourcesOf j) := by
  induction members generalizing seen with
  | nil => simp [safeGroup.go]
  | cons i rest ih =>
    have hseen : (availableSourcesOf i).all (fun s => !seen.contains s) = true ↔
        List.Disjoint seen (availableSourcesOf i) := by
      rw [List.all_eq_true]
      refine ⟨fun h s hs hi => ?_, fun h s hi => ?_⟩
      · have := h s hi
        rw [List.contains_iff_mem.2 hs] at this
        cases this
      · rw [Bool.not_eq_true', ← Bool.not_eq_true, List.contains_iff_mem]
        exact fun hs => h hs hi
    rw [safeGroup.go, Bool.and_eq_true, Bool.and_eq_true, hseen, ih, List.pairwise_cons]
    simp only [List.mem_cons, List.disjoint_append_left]
    constructor
    · rintro ⟨⟨hsource, hdisjoint⟩, hrest, hpair⟩
      refine ⟨?_, fun j hj => (hrest j hj).2.2, hpair⟩
      rintro j (rfl | hj)
      · exact ⟨by simpa using hsource, hdisjoint⟩
      · exact ⟨(hrest j hj).1, (hrest j hj).2.1⟩
    · rintro ⟨hall, hfirst, hpair⟩
      refine ⟨⟨by simpa using (hall i (.inl rfl)).1, (hall i (.inl rfl)).2⟩, fun j hj => ?_, hpair⟩
      exact ⟨(hall j (.inr hj)).1, (hall j (.inr hj)).2, hfirst j hj⟩

theorem length_eraseDups_le_one {α : Type} [DecidableEq α] {l : List α} :
    l.eraseDups.length ≤ 1 ↔ ∀ a ∈ l, ∀ b ∈ l, a = b := by
  have hmem : ∀ a, a ∈ l ↔ a ∈ l.eraseDups := fun a => List.mem_eraseDups.symm
  simp only [hmem]
  have hnodup := nodup_eraseDups l
  generalize l.eraseDups = distinct at hnodup
  rcases distinct with _ | ⟨a, _ | ⟨b, rest⟩⟩
  · simp
  · simp
  · refine iff_of_false (by simp) fun h => ?_
    have hab : a = b := h a (by simp) b (by simp)
    simp [hab] at hnodup

theorem safeIdentityGroup_iff {members : List Nat} : rows.safeIdentityGroup members = true ↔
    rows.SafeGroup members := by
  have hmanual : ((members.filterMap rows.manualMatchOf).eraseDups.length ≤ 1) ↔
      ∀ i ∈ members, ∀ j ∈ members, ∀ a b, rows.manualMatchOf i = some a →
        rows.manualMatchOf j = some b → a = b := by
    rw [length_eraseDups_le_one]
    simp only [List.mem_filterMap]
    constructor
    · exact fun h i hi j hj a b ha hb => h a ⟨i, hi, ha⟩ b ⟨j, hj, hb⟩
    · rintro h a ⟨i, hi, ha⟩ b ⟨j, hj, hb⟩
      exact h i hi j hj a b ha hb
  have hfiles : ((members.map rows.pathsOf).filter (· ≠ [])).Pairwise
      (fun left right => ∃ key ∈ left, key ∈ right) ↔
      members.Pairwise fun i j => rows.pathsOf i ≠ [] → rows.pathsOf j ≠ [] →
        ∃ key ∈ rows.pathsOf i, key ∈ rows.pathsOf j := by
    rw [List.pairwise_filter, List.pairwise_map]
    simp only [ne_eq, decide_eq_true_eq]
  have hapart : safeGroup members rows.sourceIdsOf rows.availableSourcesOf = true ↔
      (2 ≤ members.length → ∀ i ∈ members, rows.sourceIdsOf i ≠ []) ∧
        (2 ≤ members.length → members.Pairwise fun i j =>
          List.Disjoint (rows.availableSourcesOf i) (rows.availableSourcesOf j)) := by
    unfold safeGroup
    rw [Bool.or_eq_true, decide_eq_true_eq, safeGroup_go]
    by_cases hlen : 2 ≤ members.length
    · have hlt : ¬ members.length < 2 := by omega
      constructor
      · rintro (h | ⟨hall, hpair⟩)
        exacts [absurd h hlt, ⟨fun _ i hi => (hall i hi).1, fun _ => hpair⟩]
      · exact fun h => .inr ⟨fun i hi => ⟨h.1 hlen i hi, List.disjoint_nil_left _⟩, h.2 hlen⟩
    · exact iff_of_true (.inl (by omega)) ⟨fun h => absurd h hlen, fun h => absurd h hlen⟩
  unfold safeIdentityGroup
  simp only [Bool.and_eq_true, decide_eq_true_eq, hmanual, hfiles, hapart]
  exact ⟨fun h => ⟨h.1.1, h.1.2, h.2.1, h.2.2⟩, fun h =>
    ⟨⟨h.manual, h.files⟩, h.referenced, h.apart⟩⟩

theorem safeGroup_of_mem_groups {g : List Nat} (h : g ∈ rows.groups py) (hlen : 2 ≤ g.length) :
    rows.SafeGroup g := by
  rw [← safeIdentityGroup_iff]
  obtain ⟨candidate, -, hg⟩ := List.mem_flatMap.1 h
  split at hg
  next hsafe =>
    rw [List.mem_singleton] at hg
    subst hg
    rcases Bool.or_eq_true_iff.1 hsafe with hone | hsafe
    · rw [of_decide_eq_true hone] at hlen
      omega
    · exact hsafe
  next =>
    obtain ⟨i, -, rfl⟩ := List.mem_map.1 hg
    rw [List.length_singleton] at hlen
    omega

end IdentityRows

end Euvieouvi
