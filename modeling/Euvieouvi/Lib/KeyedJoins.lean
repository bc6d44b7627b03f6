import Euvieouvi.Lib.Grouping
import Euvieouvi.Lib.UnionFind

/-!
# Joining the items of one key

Rows are read in order: the first item of a key owns it, and every later item of the key is joined
to the owner unless the two conflict. Which items a conflict keeps apart depends on the order of the
rows. In any order, an item is joined to the owner of its key unless they conflict (`same_owner`),
and nothing is joined but by rows of one key that do not (`foldl_joinRow_within`).
-/

namespace Euvieouvi

namespace Dict
variable {κ ν : Type} [DecidableEq κ]

/-- `d.setdefault(k, v)`. -/
def setDefault (d : Dict κ ν) (k : κ) (v : ν) : ν × Dict κ ν :=
  match d.lookup k with
  | some found => (found, d)
  | none => (v, d.insert (k, v))

theorem setDefault_fst (d : Dict κ ν) (k : κ) (v : ν) :
    (d.setDefault k v).1 = (d.lookup k).getD v := by
  unfold setDefault; cases d.lookup k <;> rfl

theorem lookup_setDefault (d : Dict κ ν) (k k' : κ) (v : ν) :
    (d.setDefault k v).2.lookup k' = if k' =
      k then some ((d.lookup k).getD v) else d.lookup k' := by
  unfold setDefault
  cases hk : d.lookup k with
  | some found =>
    by_cases h : k' = k
    · rw [if_pos h, h]; exact hk
    · rw [if_neg h]
  | none =>
    have hnone : d.get? k = none := Option.map_eq_none_iff.1 hk
    show (Table.get? (d.insert (k, v)) k').map Prod.snd = _
    by_cases h : k' = k
    · subst h
      rw [if_pos rfl, Table.get?_insert_self (t := d) (r := (k', v)) hnone]; rfl
    · rw [if_neg h, Table.get?_insert_ne (t := d) (r := (k, v)) (Ne.symm h)]; rfl

end Dict

namespace UnionFind
variable {α : Type} [DecidableEq α] {u v u' v' : UnionFind α} {x y a b : α} {C : α → Prop}

/-- `parents[find(x)] = find(y)`. -/
def attach (u : UnionFind α) (x y : α) : UnionFind α :=
  let (target, u) := u.find y
  let (moved, u) := u.find x
  u.link moved target

theorem attach_joins (u : UnionFind α) (x y : α) : Joins x y u (u.attach x y) := by
  have hroot : ∀ z, ((u.find y).2.find x).2.root z = u.root z :=
    fun z => by rw [root_find, root_find]
  refine Joins.congr hroot ?_
  have h := joins_link x y ((u.find y).2.find x).2
  rw [hroot, hroot] at h
  unfold attach
  simp only [find_fst, root_find]
  exact h

omit [DecidableEq α] in
theorem Same.symm (h : u.Same x y) : u.Same y x := Eq.symm h

end UnionFind

section JoinRow
variable {ρ κ α : Type} [DecidableEq κ] [DecidableEq α]
variable (key : ρ → Option κ) (item : ρ → α) (conflict : α → α → Bool)
variable (attach : UnionFind α → α → α → UnionFind α)

/-- One row: its item is joined to the owner of its key, which is the item itself when the key is
new. -/
def joinRow (s : UnionFind α × Dict κ α) (row : ρ) : UnionFind α × Dict κ α :=
  match key row with
  | none => s
  | some k =>
    let (owner, owners) := s.2.setDefault k (item row)
    (if conflict owner (item row) then s.1 else attach s.1 owner (item row), owners)

variable {key item conflict attach}
variable {C : α → Prop} {s s' : UnionFind α × Dict κ α} {row : ρ} {rows : List ρ}

omit [DecidableEq α] in
theorem lookup_joinRow (k : κ) : (joinRow key item conflict attach s row).2.lookup k =
    (s.2.lookup k).or (if key row = some k then some (item row) else none) := by
  unfold joinRow
  cases hk : key row with
  | none => rw [if_neg (by simp), Option.or_none]
  | some k' =>
    dsimp only
    rw [Dict.lookup_setDefault]
    by_cases heq : k = k'
    · subst heq
      rw [if_pos rfl, if_pos rfl]
      cases s.2.lookup k <;> rfl
    · rw [if_neg heq, if_neg fun h => heq (Option.some.inj h).symm, Option.or_none]

omit [DecidableEq α] in
/-- The first item of a key owns it. -/
theorem lookup_foldl_joinRow (k : κ) :
    (rows.foldl (joinRow key item conflict attach) s).2.lookup k =
    (s.2.lookup k).or ((rows.find? fun r => key r = some k).map item) := by
  induction rows generalizing s with
  | nil => exact (Option.or_none).symm
  | cons r rows ih =>
    rw [List.foldl_cons, ih, lookup_joinRow, Option.or_assoc, List.find?_cons]
    by_cases hk : key r = some k
    · rw [if_pos hk, decide_eq_true hk]
      rfl
    · rw [if_neg hk, decide_eq_false hk, Option.none_or]

omit [DecidableEq α] in
theorem exists_owner {k : κ} (hrow : row ∈ rows) (hk : key row = some k)
    (hs : s.2.lookup k = none) :
    ∃ r, (rows.find? fun r => key r = some k) = some r ∧
      (rows.foldl (joinRow key item conflict attach) s).2.lookup k = some (item r) := by
  have hsome : (rows.find? fun r => key r = some k).isSome = true :=
    List.find?_isSome.2 ⟨row, hrow, decide_eq_true hk⟩
  obtain ⟨r, hr⟩ := Option.isSome_iff_exists.1 hsome
  refine ⟨r, hr, ?_⟩
  rw [lookup_foldl_joinRow, hs, hr]
  rfl

/-! ### What is joined -/

omit [DecidableEq α] in
theorem UnionFind.Joins.mono {u u' : UnionFind α} {x y a b : α} (hj : UnionFind.Joins x y u u')
    (h : u.Same a b) : u'.Same a b :=
  (hj a b).2 (.inl h)

omit [DecidableEq α] in
theorem UnionFind.Joins.same {u u' : UnionFind α} {x y : α} (hj : UnionFind.Joins x y u u') :
    u'.Same x y :=
  (hj x y).2 (.inr (.inl ⟨rfl, rfl⟩))

variable (hattach : ∀ u x y, UnionFind.Joins x y u (attach u x y))
include hattach

omit [DecidableEq α] in
theorem same_joinRow {x y : α} (h : s.1.Same x y) :
    (joinRow key item conflict attach s row).1.Same x y := by
  unfold joinRow
  cases key row with
  | none => exact h
  | some k =>
    show UnionFind.Same (ite _ _ _) x y
    split
    · exact h
    · exact (hattach _ _ _).mono h

omit [DecidableEq α] in
theorem same_foldl_joinRow {x y : α} (h : s.1.Same x y) :
    (rows.foldl (joinRow key item conflict attach) s).1.Same x y := by
  induction rows generalizing s with
  | nil => exact h
  | cons r rows ih => exact ih (same_joinRow hattach h)

omit [DecidableEq α] in
/-- An item that does not conflict with the owner of its key is joined to it. -/
theorem same_owner {k : κ} {o : α} (hrow : row ∈ rows) (hk : key row = some k)
    (howner : (rows.foldl (joinRow key item conflict attach) s).2.lookup k = some o)
    (hconflict : conflict o (item row) = false) :
    (rows.foldl (joinRow key item conflict attach) s).1.Same o (item row) := by
  induction rows generalizing s with
  | nil => cases hrow
  | cons r rows ih =>
    rw [List.foldl_cons] at howner ⊢
    rcases List.mem_cons.1 hrow with rfl | hrow
    · refine same_foldl_joinRow hattach ?_
      have hfirst : (s.2.lookup k).getD (item row) = o := by
        rw [lookup_foldl_joinRow, lookup_joinRow, if_pos hk] at howner
        cases hl : s.2.lookup k with
        | none => rw [hl] at howner; exact Option.some.inj howner
        | some i => rw [hl] at howner; exact Option.some.inj howner
      unfold joinRow
      rw [hk]
      dsimp only
      rw [Dict.setDefault_fst, hfirst, hconflict]
      exact (hattach _ _ _).same
    · exact ih hrow howner

omit [DecidableEq α] in
/-- Nothing is joined but by pairs of rows of one key that do not conflict. -/
theorem foldl_joinRow_within {R : α → α → Prop} {all : List ρ} (hsubset : rows ⊆ all)
    (hR : ∀ r ∈ all, ∀ r' ∈ all, ∀ k, key r = some k → key r' = some k →
      conflict (item r) (item r') = false →
      Relation.EqvGen R (item r) (item r'))
    (hs : ∀ x y, s.1.Same x y → Relation.EqvGen R x y)
    (howners : ∀ k o, s.2.lookup k = some o → ∃ r ∈ all, key r = some k ∧ item r = o) {x y : α}
    (h : (rows.foldl (joinRow key item conflict attach) s).1.Same x y) : Relation.EqvGen R x y := by
  induction rows generalizing s with
  | nil => exact hs x y h
  | cons r rows ih =>
    have hr : r ∈ all := hsubset List.mem_cons_self
    refine ih (fun _ h => hsubset (List.mem_cons_of_mem _ h)) (fun x y hxy => ?_)
      (fun k o ho => ?_) h
    · unfold joinRow at hxy
      cases hk : key r with
      | none => rw [hk] at hxy; exact hs x y hxy
      | some k =>
        rw [hk] at hxy
        dsimp only at hxy
        rw [Dict.setDefault_fst] at hxy
        split at hxy
        next => exact hs x y hxy
        next hconflict =>
          obtain ⟨o, ho, howner⟩ : ∃ r' ∈ all, key r' = some k ∧
              item r' = (s.2.lookup k).getD (item r) := by
            cases hl : s.2.lookup k with
            | none => exact ⟨r, hr, hk, rfl⟩
            | some i => exact howners k i hl
          rw [← howner.2] at hxy hconflict
          have hjoin := hR o ho r hr k howner.1 hk (eq_false_of_ne_true hconflict)
          rcases (hattach _ _ _ x y).1 hxy with h | ⟨h₁, h₂⟩ | ⟨h₁, h₂⟩
          · exact hs x y h
          · exact (hs _ _ h₁).trans _ _ _ (hjoin.trans _ _ _ (hs _ _ h₂))
          · exact (hs _ _ h₁).trans _ _ _ ((hjoin.symm _ _).trans _ _ _ (hs _ _ h₂))
    · rw [lookup_joinRow] at ho
      rcases Option.or_eq_some_iff.1 ho with ho | ⟨-, ho⟩
      · exact howners k o ho
      · split at ho
        next hk => exact ⟨r, hr, hk, Option.some.inj ho⟩
        next => cases ho

end JoinRow

end Euvieouvi
