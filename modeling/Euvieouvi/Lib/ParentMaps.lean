import Euvieouvi.Lib.KeyedJoins

/-!
# Parent pointers in a dictionary

A program keeps the parents of a union-find in a dictionary. Looking up an element that is not there
fails, and nothing but the pointers ends the loop that follows them: a run is bounded by fuel and
has a result when `Returns` holds, that is with all fuel from some amount on. `Holds keys parents u`
says that the dictionary has the pointers of `u` for its keys; the loop then returns the root and
leaves the pointers of `find` (`Holds.halveLoop`).
-/

namespace Euvieouvi

namespace Dict
variable {κ ν : Type} [DecidableEq κ]

/-- `d[k] = v`. -/
def set (d : Dict κ ν) (k : κ) (v : ν) : Dict κ ν := d.upsert k fun _ => v

theorem lookup_set (d : Dict κ ν) (k k' : κ) (v : ν) :
    (d.set k v).lookup k' = if k' = k then some v else d.lookup k' := by
  unfold set
  split
  next h => rw [h, lookup_upsert_self]
  next h => rw [lookup_upsert_of_ne h]

end Dict

section Fuel
variable {α β : Type*} {f : Nat → Option α} {a b : α}

/-- With enough fuel the result is `a`. -/
def ReturnsWithFuel (f : Nat → Option α) (a : α) : Prop := ∃ fuel, ∀ n, fuel ≤ n → f n = some a

/-- More fuel changes no result. -/
def FuelMonotone (f : Nat → Option α) : Prop := ∀ n a, f n = some a → f (n + 1) = some a

namespace ReturnsWithFuel

theorem unique (h : ReturnsWithFuel f a) (h' : ReturnsWithFuel f b) : a = b := by
  obtain ⟨n, hn⟩ := h
  obtain ⟨m, hm⟩ := h'
  exact Option.some.inj ((hn _ (Nat.le_max_left n m)).symm.trans (hm _ (Nat.le_max_right n m)))

theorem of_monotone (hf : FuelMonotone f) {fuel : Nat} (h : f fuel = some a) :
    ReturnsWithFuel f a := by
  refine ⟨fuel, fun n hn => ?_⟩
  induction n, hn using Nat.le_induction with
  | base => exact h
  | succ n _ ih => exact hf n a ih

end ReturnsWithFuel

namespace FuelMonotone

theorem pure (o : Option α) : FuelMonotone fun _ => o := fun _ _ h => h

theorem foldlM {step : Nat → β → α → Option β} (hstep : ∀ b a, FuelMonotone fun n => step n b a)
    (l : List α) (b : β) :
    FuelMonotone fun n => l.foldlM (step n) b := by
  intro n
  induction l generalizing b with
  | nil => exact fun _ h => h
  | cons a l ih =>
    intro c h
    simp only [List.foldlM_cons] at h ⊢
    obtain ⟨b', hb', h⟩ := Option.bind_eq_some_iff.1 h
    exact Option.bind_eq_some_iff.2 ⟨b', hstep b a n b' hb', ih b' c h⟩

theorem bind {g : Nat → α → Option β} (hf : FuelMonotone f)
    (hg : ∀ a, FuelMonotone fun n => g n a) :
    FuelMonotone fun n => (f n).bind (g n) := by
  intro n b h
  obtain ⟨a, ha, hb⟩ := Option.bind_eq_some_iff.1 h
  exact Option.bind_eq_some_iff.2 ⟨a, hf n a ha, hg a n b hb⟩

end FuelMonotone

end Fuel

namespace UnionFind
variable {α : Type} [DecidableEq α]

theorem height_findLoop (n : Nat) (u : UnionFind α) (x : α) :
    (findLoop n u x).2.height = u.height := by
  induction n generalizing u x with
  | zero => rfl
  | succ n ih =>
    unfold findLoop
    split
    · rfl
    · exact ih _ _

@[simp] theorem height_find (u : UnionFind α) (x : α) : (u.find x).2.height = u.height :=
  height_findLoop ..

theorem height_link_le (u : UnionFind α) (a b : α) : (u.link a b).height ≤ u.height + 1 := by
  unfold link
  split
  · exact Nat.le_refl _
  · exact Nat.le_succ _

theorem height_attach_le (u : UnionFind α) (x y : α) : (u.attach x y).height ≤ u.height + 1 := by
  have h := height_link_le ((u.find y).2.find x).2 ((u.find y).2.find x).1 (u.find y).1
  rwa [height_find, height_find] at h

end UnionFind

section JoinRow
variable {α κ ρ : Type}
  [DecidableEq κ] {key : ρ → Option κ} {item : ρ → α} {conflict : α → α → Bool}
  {attach : UnionFind α → α → α → UnionFind α}

theorem height_joinRow_le (hattach : ∀ u x y, (attach u x y).height ≤ u.height + 1)
    (s : UnionFind α × Dict κ α) (row : ρ) :
    (joinRow key item conflict attach s row).1.height ≤ s.1.height + 1 := by
  unfold joinRow
  split
  · exact Nat.le_succ _
  · dsimp only
    split
    · exact Nat.le_succ _
    · exact hattach ..

theorem height_foldl_joinRow_le (hattach : ∀ u x y, (attach u x y).height ≤ u.height + 1)
    (s : UnionFind α × Dict κ α)
    (rows : List ρ) :
    (rows.foldl (joinRow key item conflict attach) s).1.height ≤ s.1.height + rows.length := by
  induction rows generalizing s with
  | nil => exact Nat.le_refl _
  | cons row rows ih =>
    have hrow : (joinRow key item conflict attach s row).1.height ≤ s.1.height + 1 :=
      height_joinRow_le hattach s row
    have hrows := ih (joinRow key item conflict attach s row)
    rw [List.foldl_cons, List.length_cons]
    omega

end JoinRow

/-! ### The loop -/

namespace ParentMap
variable {α : Type} [DecidableEq α]

/-- `{value: value for value in values}`. -/
def ofValues (values : List α) : Dict α α :=
  values.foldl (fun parents value => parents.set value value) .empty

/-- `while parents[x] != x: parents[x] = parents[parents[x]]; x = parents[x]`, then `x`. -/
def halveLoop : Nat → Dict α α → α → Option (α × Dict α α)
  | 0, _, _ => none
  | n + 1, parents, x =>
    (parents.lookup x).bind fun parent =>
      if parent = x then some (x, parents)
      else (parents.lookup parent).bind fun above =>
        let parents := parents.set x above
        (parents.lookup x).bind fun x => halveLoop n parents x

theorem lookup_ofValues (values : List α) (x : α) :
    (ofValues values).lookup x = if x ∈ values then some x else none := by
  have hfold : ∀ (parents : Dict α α),
      (values.foldl (fun parents value => parents.set value value) parents).lookup x =
      if x ∈ values then some x else parents.lookup x := by
    induction values with
    | nil => intro parents; simp
    | cons value values ih =>
      intro parents
      rw [List.foldl_cons, ih, Dict.lookup_set]
      by_cases hx : x = value <;> by_cases hmem : x ∈ values <;> simp [hx, hmem]
  exact hfold .empty

theorem halveLoop_monotone (parents : Dict α α) (x : α) :
    FuelMonotone fun n => halveLoop n parents x := by
  intro n
  induction n generalizing parents x with
  | zero => intro a h; cases h
  | succ n ih =>
    intro a h
    unfold halveLoop at h ⊢
    obtain ⟨parent, hparent, h⟩ := Option.bind_eq_some_iff.1 h
    refine Option.bind_eq_some_iff.2 ⟨parent, hparent, ?_⟩
    split at h
    next hroot => rwa [if_pos hroot]
    next hroot =>
      obtain ⟨above, habove, h⟩ := Option.bind_eq_some_iff.1 h
      obtain ⟨x', hx', h⟩ := Option.bind_eq_some_iff.1 h
      rw [if_neg hroot]
      exact Option.bind_eq_some_iff.2
        ⟨above, habove, Option.bind_eq_some_iff.2 ⟨x', hx', ih _ _ _ h⟩⟩

/-- The dictionary has the pointers of `u` for the keys, and no pointer leaves them. -/
structure Holds (keys : List α) (parents : Dict α α) (u : UnionFind α) : Prop where
  lookup : ∀ x ∈ keys, parents.lookup x = some (u.parent x)
  closed : ∀ x ∈ keys, u.parent x ∈ keys

namespace Holds
variable {keys : List α} {parents : Dict α α} {u : UnionFind α} {x a b : α} {n : Nat}

theorem ofValues (values : List α) : Holds values (ofValues values) .singletons where
  lookup x hx := by rw [lookup_ofValues, if_pos hx]; rfl
  closed _ hx := hx

theorem iterate (h : Holds keys parents u) (hx : x ∈ keys) (n : Nat) : u.parent^[n] x ∈ keys := by
  induction n with
  | zero => exact hx
  | succ n ih => rw [Function.iterate_succ_apply']; exact h.closed _ ih

theorem root (h : Holds keys parents u) (hx : x ∈ keys) : u.root x ∈ keys := h.iterate hx _

/-- One entry is written, with a key. -/
theorem set {u' : UnionFind α} (h : Holds keys parents u)
    (hparent : u'.parent = Function.update u.parent a b)
    (hb : b ∈ keys) : Holds keys (parents.set a b) u' where
  lookup x hx := by
    rw [Dict.lookup_set, hparent]
    split
    next hxa => rw [hxa, Function.update_self]
    next hxa => rw [Function.update_of_ne hxa, h.lookup x hx]
  closed x hx := by
    rw [hparent]
    by_cases hxa : x = a
    · rw [hxa, Function.update_self]; exact hb
    · rw [Function.update_of_ne hxa]; exact h.closed x hx

theorem halve (h : Holds keys parents u) (hx : x ∈ keys) :
    Holds keys (parents.set x (u.parent (u.parent x))) (u.halve x) :=
  h.set rfl (h.iterate hx 2)

theorem compress (h : Holds keys parents u) (hx : x ∈ keys) : Holds keys (parents.set x (u.root x))
    (u.compress x) := by
  refine h.set ?_ (h.root hx)
  show Function.update u.parent x (u.parent^[u.height + 1] x) = _
  rw [Function.iterate_succ_apply']
  exact congrArg _ (u.parent_root x)

theorem link (h : Holds keys parents u) (ha : u.root a = a) (hb : u.root b = b) (hkey : b ∈ keys) :
    Holds keys (parents.set a b) (u.link a b) := by
  refine h.set ?_ hkey
  have ha' : u.parent a = a := by rw [← ha, u.parent_root]
  have hb' : u.parent b = b := by rw [← hb, u.parent_root]
  unfold UnionFind.link
  rw [dif_pos ⟨ha', hb'⟩]

/-- The loop of the dictionary follows the loop of `u`. -/
theorem halveLoop_findLoop (h : Holds keys parents u) (hx : x ∈ keys)
    (hn : u.parent^[n] x = u.root x) :
    ∃ parents', ParentMap.halveLoop (n + 1) parents x =
      some ((UnionFind.findLoop n u x).1, parents') ∧
      Holds keys parents' (UnionFind.findLoop n u x).2 := by
  induction n generalizing parents u x with
  | zero =>
    have hroot : u.parent x = x := by
      have : x = u.root x := hn
      rw [this, u.parent_root]
    refine ⟨parents, ?_, h⟩
    unfold ParentMap.halveLoop
    rw [h.lookup x hx, Option.bind_some, if_pos hroot]
    rfl
  | succ n ih =>
    unfold ParentMap.halveLoop UnionFind.findLoop
    rw [h.lookup x hx, Option.bind_some]
    split
    next => exact ⟨parents, rfl, h⟩
    next hroot =>
      have hhalve := h.halve hx
      have hup : (u.halve x).parent x = u.parent (u.parent x) := UnionFind.parent_halve_self u x
      rw [h.lookup _ (h.closed x hx), Option.bind_some]
      dsimp only
      rw [Dict.lookup_set, if_pos rfl, Option.bind_some, hup]
      refine ih hhalve (h.iterate hx 2) ?_
      rw [← hup, UnionFind.root_parent, UnionFind.root_halve, hup]
      exact UnionFind.iterate_halve hn

/-- With more fuel than the longest path the loop returns the root, and the dictionary has the
pointers that `find` leaves. -/
theorem halveLoop (h : Holds keys parents u) (hx : x ∈ keys) (hn : u.height < n) :
    ∃ parents', ParentMap.halveLoop n parents x = some (u.root x, parents') ∧
    Holds keys parents' (u.find x).2 := by
  obtain ⟨parents', hloop, hholds⟩ := h.halveLoop_findLoop (n := u.height) hx rfl
  rw [show (UnionFind.findLoop u.height u x).1 = u.root x from UnionFind.find_fst u x] at hloop
  refine ⟨parents', ?_, hholds⟩
  induction n, (hn : u.height + 1 ≤ n) using Nat.le_induction with
  | base => exact hloop
  | succ n _ ih => exact halveLoop_monotone parents x n _ ih

/-- Both roots are found, and the pointer that is written is the one of `attach`; where the roots
are one, none is needed. -/
theorem attach (h : Holds keys parents u) (hx : x ∈ keys) (hy : y ∈ keys) (hn : u.height < n) :
    ∃ first second, ParentMap.halveLoop n parents y = some (u.root y, first) ∧
      ParentMap.halveLoop n first x = some (u.root x, second) ∧
      Holds keys (second.set (u.root x) (u.root y)) (u.attach x y) ∧
      (u.root x = u.root y → Holds keys second (u.attach x y)) := by
  obtain ⟨first, hfirst, h₁⟩ := h.halveLoop hy hn
  obtain ⟨second, hsecond, h₂⟩ := h₁.halveLoop hx (by rwa [UnionFind.height_find])
  rw [UnionFind.root_find] at hsecond
  have hroot : ∀ z, ((u.find y).2.find x).2.root (u.root z) = u.root z := fun z => by
    rw [UnionFind.root_find, UnionFind.root_find, UnionFind.root_root]
  have hattach : u.attach x y = ((u.find y).2.find x).2.link (u.root x) (u.root y) := by
    unfold UnionFind.attach
    simp only [UnionFind.find_fst, UnionFind.root_find]
  rw [hattach]
  refine ⟨first, second, hfirst, hsecond, h₂.link (hroot x) (hroot y) (h.root hy), fun heq => ?_⟩
  have hparent : (((u.find y).2.find x).2.link (u.root x) (u.root y)).parent =
      ((u.find y).2.find x).2.parent := by
    have hfixed : ((u.find y).2.find x).2.parent (u.root y) = u.root y := by
      rw [← hroot y, UnionFind.parent_root]
    unfold UnionFind.link
    split
    · show Function.update ((u.find y).2.find x).2.parent (u.root x) (u.root y) = _
      rw [heq]
      exact Function.update_eq_self_iff.2 hfixed.symm
    · rfl
  exact ⟨fun z hz => by rw [hparent]; exact h₂.lookup z hz, fun z hz => by
    rw [hparent]; exact h₂.closed z hz⟩

end Holds

end ParentMap

end Euvieouvi
