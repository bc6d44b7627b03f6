import Mathlib.Logic.Function.Iterate
import Mathlib.Logic.Relation

/-!
# Union-find over parent pointers

`UnionFind α` is a parent function together with a bound on the length of its paths, so that every
path ends in a root and the loops below need no other argument for their end. `find` shortens the
path it walks and changes no root (`find_fst`, `root_find`); `link` hangs one root below another
(`root_link`). After any number of joins two elements have the same root exactly when the joined
pairs connect them (`Classes.join`).
-/

namespace Euvieouvi

structure UnionFind (α : Type) where
  parent : α → α
  height : Nat
  rooted : ∀ x, parent (parent^[height] x) = parent^[height] x

/-- A path that has met a fixed point stays there. -/
theorem iterate_of_le {α : Type*} {f : α → α} {x r : α} {m n : Nat} (h : f^[m] x = r) (hr : f r = r)
    (hmn : m ≤ n) : f^[n] x = r := by
  obtain ⟨k, rfl⟩ := Nat.exists_eq_add_of_le' hmn
  rw [Function.iterate_add_apply, h, Function.iterate_fixed hr]

namespace UnionFind

variable {α : Type} {u : UnionFind α} {a b r x y z w : α}

/-- Every element is its own root. -/
def singletons : UnionFind α := ⟨id, 0, fun _ => rfl⟩

def root (u : UnionFind α) (x : α) : α := u.parent^[u.height] x

def Same (u : UnionFind α) (x y : α) : Prop := u.root x = u.root y

theorem parent_root (u : UnionFind α) (x : α) : u.parent (u.root x) = u.root x := u.rooted x

theorem root_of_parent_eq (h : u.parent x = x) : u.root x = x := Function.iterate_fixed h _

/-- The root of `x` is the one fixed point its path meets. -/
theorem root_eq_of_iterate {n : Nat} (hn : u.parent^[n] x = r) (hr : u.parent r = r) :
    u.root x = r := by
  rcases Nat.le_total n u.height with h | h
  · exact iterate_of_le hn hr h
  · exact (iterate_of_le rfl (u.parent_root x) h).symm.trans hn

@[simp] theorem root_root (u : UnionFind α) (x : α) : u.root (u.root x) = u.root x :=
  root_of_parent_eq (u.parent_root x)

@[simp] theorem root_singletons (x : α) : (singletons : UnionFind α).root x = x := rfl

variable [DecidableEq α]

section Shortcut
variable {f : α → α} {n : Nat}

/-- Pointing `a` at an element further up its path keeps the root every path ends in, and lengthens
no path. -/
theorem iterate_shortcut (a : α) (j : Nat) (hx : f^[n] x = r) (hr : f r = r) :
    ∃ m ≤ n, (Function.update f a (f^[j + 1] a))^[m] x = r := by
  induction n using Nat.strongRecOn generalizing x with
  | ind n ih =>
    rcases n with _ | n
    · exact ⟨0, Nat.le_refl _, hx⟩
    · by_cases hxa : x = a
      · subst hxa
        rcases Nat.le_total (j + 1) (n + 1) with hj | hj
        · obtain ⟨k, hk⟩ := Nat.exists_eq_add_of_le' hj
          rw [hk, Function.iterate_add_apply] at hx
          obtain ⟨m, hm, h⟩ := ih k (by omega) hx
          exact ⟨m + 1, by omega, by
            rw [Function.iterate_succ_apply, Function.update_self]; exact h⟩
        · refine ⟨1, by omega, ?_⟩
          simp only [Function.iterate_one, Function.update_self, iterate_of_le hx hr hj]
      · rw [Function.iterate_succ_apply] at hx
        obtain ⟨m, hm, h⟩ := ih n (by omega) hx
        exact ⟨m + 1, by omega, by
          rw [Function.iterate_succ_apply, Function.update_of_ne hxa]; exact h⟩

theorem shortcut_root (a : α) (j : Nat) (hr : f r = r) :
    Function.update f a (f^[j + 1] a) r = r := by
  by_cases hra : r = a
  · subst hra; rw [Function.update_self, Function.iterate_fixed hr]
  · rw [Function.update_of_ne hra, hr]

/-- `x` points at the element `j` steps above its parent. -/
def shortcut (u : UnionFind α) (x : α) (j : Nat) : UnionFind α where
  parent := Function.update u.parent x (u.parent^[j + 1] x)
  height := u.height
  rooted y := by
    obtain ⟨m, hm, h⟩ :=
      iterate_shortcut x j (show u.parent^[u.height] y = u.root y from rfl) (u.parent_root y)
    have hr := shortcut_root x j (u.parent_root y)
    rw [iterate_of_le h hr hm, hr]

@[simp] theorem root_shortcut (u : UnionFind α) (x y : α) (j : Nat) :
    (u.shortcut x j).root y = u.root y := by
  obtain ⟨m, -, h⟩ :=
    iterate_shortcut x j (show u.parent^[u.height] y = u.root y from rfl) (u.parent_root y)
  exact root_eq_of_iterate h (shortcut_root x j (u.parent_root y))

/-- `parents[x] = parents[parents[x]]`. -/
def halve (u : UnionFind α) (x : α) : UnionFind α := u.shortcut x 1

/-- `parents[x]` becomes the root of `x`. -/
def compress (u : UnionFind α) (x : α) : UnionFind α := u.shortcut x u.height

end Shortcut

section Find

/-- `while parents[x] != x: parents[x] = parents[parents[x]]; x = parents[x]`. -/
def findLoop : Nat → UnionFind α → α → α × UnionFind α
  | 0, u, x => (x, u)
  | n + 1, u, x => if u.parent x = x then (x, u) else findLoop n (u.halve x) ((u.halve x).parent x)

/-- The height bounds the passes of the loop, so it ends at a root. -/
def find (u : UnionFind α) (x : α) : α × UnionFind α := findLoop u.height u x

theorem parent_halve_self (u : UnionFind α) (x : α) :
    (u.halve x).parent x = u.parent (u.parent x) := by
  show Function.update u.parent x (u.parent^[2] x) x = _
  rw [Function.update_self]; rfl

@[simp] theorem root_halve (u : UnionFind α) (x y : α) : (u.halve x).root y = u.root y :=
  root_shortcut ..

theorem iterate_halve {n : Nat} (h : u.parent^[n + 1] x = u.root x) :
    (u.halve x).parent^[n] (u.parent (u.parent x)) = u.root x := by
  have hroot : (u.halve x).parent (u.root x) = u.root x := shortcut_root x 1 (u.parent_root x)
  rcases n with _ | n
  · have hx : u.parent x = u.root x := h
    show u.parent (u.parent x) = _
    rw [hx, u.parent_root]
  · obtain ⟨m, hm, hend⟩ :=
      iterate_shortcut x 1 (n := n) (x := u.parent (u.parent x)) h (u.parent_root x)
    exact iterate_of_le hend hroot (by omega)

omit [DecidableEq α] in
theorem root_parent (u : UnionFind α) (x : α) : u.root (u.parent x) = u.root x := by
  have h := u.rooted x
  rw [← Function.iterate_succ_apply' u.parent] at h
  exact h

/-- With enough passes the loop returns the root, and no root has changed. -/
theorem findLoop_spec {n : Nat} (h : u.parent^[n] x = u.root x) :
    (findLoop n u x).1 = u.root x ∧ ∀ y, (findLoop n u x).2.root y = u.root y := by
  induction n generalizing u x with
  | zero => exact ⟨h, fun _ => rfl⟩
  | succ n ih =>
    unfold findLoop
    split
    next hx => exact ⟨(root_of_parent_eq hx).symm, fun _ => rfl⟩
    · have hup : (u.halve x).root ((u.halve x).parent x) = u.root x := by
        rw [root_parent, root_halve]
      obtain ⟨h₁, h₂⟩ := ih (u := u.halve x) (x := (u.halve x).parent x) (by
        rw [hup, parent_halve_self]; exact iterate_halve h)
      exact ⟨h₁.trans hup, fun y => (h₂ y).trans (root_halve u x y)⟩

@[simp] theorem find_fst (u : UnionFind α) (x : α) : (u.find x).1 = u.root x :=
  (findLoop_spec rfl).1

@[simp] theorem root_find (u : UnionFind α) (x y : α) : (u.find x).2.root y = u.root y :=
  (findLoop_spec rfl).2 y

end Find

/-! ### Joining two classes -/

section Link

/-- Hanging the root `a` below the root `b` sends every path that ended in `a` on to `b`. -/
theorem iterate_update_root {f : α → α} {n : Nat} (ha : f a = a) (hx : f^[n] x = r) :
    ∃ m ≤ n + 1, (Function.update f a b)^[m] x = if r = a then b else r := by
  induction n generalizing x with
  | zero =>
    by_cases hxa : x = a
    · exact ⟨1, Nat.le_refl _, by rw [← hx, hxa]; simp⟩
    · exact ⟨0, by omega, by rw [← hx]; simp [hxa]⟩
  | succ n ih =>
    rw [Function.iterate_succ_apply] at hx
    by_cases hxa : x = a
    · subst hxa
      rw [ha, Function.iterate_fixed ha] at hx
      exact ⟨1, by omega, by rw [← hx]; simp⟩
    · obtain ⟨m, hm, h⟩ := ih hx
      exact ⟨m + 1, by omega, by
        rw [Function.iterate_succ_apply, Function.update_of_ne hxa]; exact h⟩

theorem update_root_root {f : α → α} (hb : f b = b) (hr : f r = r) :
    Function.update f a b (if r = a then b else r) = if r = a then b else r := by
  by_cases hra : r = a
  · rw [if_pos hra]
    by_cases hba : b = a
    · rw [hba, Function.update_self]
    · rw [Function.update_of_ne hba, hb]
  · rw [if_neg hra, Function.update_of_ne hra, hr]

/-- `parents[a] = b` for two roots; anything else is refused. -/
def link (u : UnionFind α) (a b : α) : UnionFind α :=
  if h : u.parent a = a ∧ u.parent b = b then
    { parent := Function.update u.parent a b
      height := u.height + 1
      rooted := fun y => by
        obtain ⟨m, hm, hy⟩ := iterate_update_root (b := b) h.1 (x := y) (r := u.root y) rfl
        have hr := update_root_root (a := a) h.2 (u.parent_root y)
        rw [iterate_of_le hy hr hm, hr] }
  else u

theorem root_link (ha : u.parent a = a) (hb : u.parent b = b) (x : α) :
    (u.link a b).root x = if u.root x = a then b else u.root x := by
  obtain ⟨m, -, hx⟩ := iterate_update_root (b := b) ha (x := x) (r := u.root x) rfl
  have hl : (u.link a b).parent = Function.update u.parent a b := by
    unfold link; rw [dif_pos ⟨ha, hb⟩]
  refine root_eq_of_iterate (n := m) (by rw [hl]; exact hx) ?_
  rw [hl]; exact update_root_root hb (u.parent_root x)

/-- Two elements are in one class after a join when they were before, or when each was in the class
of one of the joined elements. -/
def Joins (x y : α) (u u' : UnionFind α) : Prop :=
  ∀ z w, u'.Same z w ↔ u.Same z w ∨ u.Same z x ∧ u.Same y w ∨ u.Same z y ∧ u.Same x w

theorem joins_link (x y : α) (u : UnionFind α) : Joins x y u (u.link (u.root x) (u.root y)) := by
  intro z w
  unfold Same
  rw [root_link (u.parent_root x) (u.parent_root y), root_link (u.parent_root x) (u.parent_root y)]
  by_cases hz : u.root z = u.root x <;> by_cases hw : u.root w = u.root x
  · simp [hz, hw]
  · rw [if_pos hz, if_neg hw, hz]
    constructor
    · exact fun h => .inr (.inl ⟨rfl, h⟩)
    · rintro (h | ⟨-, h⟩ | ⟨h, h'⟩)
      exacts [absurd h.symm hw, h, absurd h'.symm hw]
  · rw [if_neg hz, if_pos hw, hw]
    constructor
    · exact fun h => .inr (.inr ⟨h, rfl⟩)
    · rintro (h | ⟨h, -⟩ | ⟨h, -⟩)
      exacts [absurd h hz, absurd h hz, h]
  · rw [if_neg hz, if_neg hw]
    constructor
    · exact .inl
    · rintro (h | ⟨h, -⟩ | ⟨-, h⟩)
      exacts [h, absurd h hz, absurd h.symm hw]

omit [DecidableEq α] in
theorem Joins.symm {u' : UnionFind α} (h : Joins x y u u') : Joins y x u u' :=
  fun z w => (h z w).trans (or_congr_right or_comm)

omit [DecidableEq α] in
theorem Joins.congr {u₁ u' : UnionFind α} (hroot : ∀ z, u₁.root z = u.root z)
    (h : Joins x y u₁ u') :
    Joins x y u u' := by
  intro z w
  have := h z w
  simp only [Same, hroot] at this ⊢
  exact this

end Link

section Classes
omit [DecidableEq α]

/-- The classes of `u` are the connected components of `R`. -/
def Classes (R : α → α → Prop) (u : UnionFind α) : Prop := ∀ x y, u.Same x y ↔ Relation.EqvGen R x y

theorem Classes.singletons : Classes (fun _ _ : α => False) singletons := by
  intro x y
  constructor
  · rintro (h : x = y); subst h; exact .refl _
  · intro h
    induction h with
    | rel _ _ h => exact h.elim
    | refl _ => rfl
    | symm _ _ _ ih => exact ih.symm
    | trans _ _ _ _ _ ih₁ ih₂ => exact ih₁.trans ih₂

theorem Classes.join {R : α → α → Prop} {u' : UnionFind α} (h : Classes R u) (hj : Joins x y u u') :
    Classes (fun a b => R a b ∨ a = x ∧ b = y) u' := by
  have hmono : ∀ {a b}, u.Same a b →
      Relation.EqvGen (fun a b => R a b ∨ a = x ∧ b = y) a b := fun hs =>
    ((h _ _).1 hs).mono fun _ _ hr => .inl hr
  have hxy : Relation.EqvGen (fun a b => R a b ∨ a = x ∧ b = y) x y := .rel _ _ (.inr ⟨rfl, rfl⟩)
  intro z w
  constructor
  · intro hzw
    rcases (hj z w).1 hzw with h | ⟨h₁, h₂⟩ | ⟨h₁, h₂⟩
    · exact hmono h
    · exact (hmono h₁).trans _ _ _ (hxy.trans _ _ _ (hmono h₂))
    · exact (hmono h₁).trans _ _ _ ((hxy.symm _ _).trans _ _ _ (hmono h₂))
  · intro hzw
    induction hzw with
    | rel a b hab =>
      rcases hab with hab | ⟨rfl, rfl⟩
      · exact (hj a b).2 (.inl ((h a b).2 (.rel _ _ hab)))
      · exact (hj a b).2 (.inr (.inl ⟨rfl, rfl⟩))
    | refl _ => rfl
    | symm _ _ _ ih => exact ih.symm
    | trans _ _ _ _ _ ih₁ ih₂ => exact ih₁.trans ih₂

/-- Relations that connect the same elements have the same classes. -/
theorem Classes.of_connected {R R' : α → α → Prop} (h : Classes R u)
    (hR : ∀ a b, R a b → Relation.EqvGen R' a b)
    (hR' : ∀ a b, R' a b → Relation.EqvGen R a b) : Classes R' u := by
  have hgen : ∀ {S T : α → α → Prop}, (∀ a b, S a b → Relation.EqvGen T a b) →
      ∀ {a b}, Relation.EqvGen S a b → Relation.EqvGen T a b := by
    intro S T hST a b hab
    induction hab with
    | rel _ _ hr => exact hST _ _ hr
    | refl _ => exact .refl _
    | symm _ _ _ ih => exact ih.symm
    | trans _ _ _ _ _ ih₁ ih₂ => exact ih₁.trans _ _ _ ih₂
  intro x y
  exact (h x y).trans ⟨hgen hR, hgen hR'⟩

theorem Classes.congr {R R' : α → α → Prop} (h : Classes R u) (hR : ∀ a b, R a b ↔ R' a b) :
    Classes R' u := by
  have : R = R' := by funext a b; exact propext (hR a b)
  exact this ▸ h

end Classes

section Labels
variable {β : Type*} {f : α → β}

/-- Every class has one label. -/
def Labelled (f : α → β) (u : UnionFind α) : Prop := ∀ x, f (u.root x) = f x

namespace Labelled

omit [DecidableEq α] in
theorem singletons (f : α → β) : Labelled f singletons := fun _ => rfl

theorem find (h : Labelled f u) (x : α) : Labelled f (u.find x).2 :=
  fun y => by rw [root_find]; exact h y

theorem link (h : Labelled f u) {a b : α} (ha : u.root a = a) (hb : u.root b = b)
    (hab : f a = f b) :
    Labelled f (u.link a b) := by
  intro x
  have hlink := root_link (u := u) (a := a) (b := b) (ha ▸ u.parent_root a) (hb ▸ u.parent_root b) x
  rw [hlink, ← h x]
  split
  next hx => rw [hx, hab]
  next => rfl

end Labelled

end Labels

end UnionFind

end Euvieouvi
