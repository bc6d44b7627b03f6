import Euvieouvi.Lib.ParentMaps
import Euvieouvi.Projection.Partition
import Mathlib.Order.Bounds.Basic

/-!
# The union-find of the projection

`_UnionFind` (`sync/catalog_projection.py`) as it runs: a dictionary of parents, `find` with its
loop and the pointer it writes back, and `join`. A run of calls follows the union-find of
`Projection.Grouping` (`follows_run`), whose roots are the least elements of their classes. So each
`find` ends, with the least value that the pairs joined so far connect with its argument
(`findsAfter_least`); what it gives depends on these pairs only, not on their order or on other
finds.
-/

namespace Euvieouvi

/-- A call of a method of `_UnionFind`. -/
inductive UnionFindCall (α : Type)
  | find (value : α)
  | join (left right : α)
deriving DecidableEq, Repr

open UnionFind ParentMap

namespace ParentMap
variable {α : Type} [LinearOrder α]

/-- `_UnionFind.find`. -/
def find (fuel : Nat) (parents : Dict α α) (value : α) : Option (α × Dict α α) :=
  (parents.lookup value).bind fun parent =>
    (halveLoop fuel parents parent).bind fun (parent, parents) =>
      some (parent, parents.set value parent)

/-- `_UnionFind.join`. -/
def join (fuel : Nat) (parents : Dict α α) (left right : α) : Option (Dict α α) :=
  (find fuel parents left).bind fun (leftRoot, parents) =>
    (find fuel parents right).bind fun (rightRoot, parents) =>
      some (if leftRoot ≠
        rightRoot then parents.set (max leftRoot rightRoot) (min leftRoot rightRoot) else parents)

def call (fuel : Nat) (parents : Dict α α) : UnionFindCall α → Option (Dict α α)
  | .find value => (find fuel parents value).map Prod.snd
  | .join left right => join fuel parents left right

def run (fuel : Nat) (parents : Dict α α) : List (UnionFindCall α) → Option (Dict α α)
  | [] => some parents
  | c :: calls => (call fuel parents c).bind fun parents => run fuel parents calls

/-- After the calls on `_UnionFind(values)`, `find(value)` ends with `root`. -/
def FindsAfter (values : List α) (calls : List (UnionFindCall α)) (value root : α) : Prop :=
  ∃ parents parents', ReturnsWithFuel (fun n => run n (ofValues values) calls) parents ∧
    ReturnsWithFuel (fun n => find n parents value) (root, parents')

end ParentMap

namespace UnionFindCall
variable {α : Type}

/-- The arguments are values. -/
def Over (values : List α) : UnionFindCall α → Prop
  | .find value => value ∈ values
  | .join left right => left ∈ values ∧ right ∈ values

/-- The calls join the pair. -/
def Joined (calls : List (UnionFindCall α)) (a b : α) : Prop := .join a b ∈ calls

/-- What a call does to the union-find that the dictionary holds. -/
def apply [DecidableEq α] [Max α] [Min α] (u : UnionFind α) : UnionFindCall α → UnionFind α
  | .find value => (u.findCompress value).2
  | .join left right => u.join left right

end UnionFindCall

open UnionFindCall

section Follows
variable {α : Type} [LinearOrder α] {keys values : List α} {parents : Dict α α} {u : UnionFind α}
  {x y : α} {n : Nat}
  {c : UnionFindCall α} {calls : List (UnionFindCall α)}

theorem ParentMap.find_monotone (parents : Dict α α) (x : α) :
    FuelMonotone fun n => ParentMap.find n parents x :=
  (FuelMonotone.pure _).bind fun parent => (halveLoop_monotone parents parent).bind fun _ =>
    FuelMonotone.pure _

theorem ParentMap.join_monotone (parents : Dict α α) (x y : α) :
    FuelMonotone fun n => ParentMap.join n parents x y :=
  (find_monotone parents x).bind fun left => (find_monotone left.2 y).bind fun _ =>
    FuelMonotone.pure _

theorem ParentMap.call_monotone (parents : Dict α α) :
    ∀ c, FuelMonotone fun n => ParentMap.call n parents c
  | .find value => by
    have h := (find_monotone parents value).bind fun found => FuelMonotone.pure (some found.2)
    simpa [ParentMap.call, Option.map_eq_bind, Function.comp_def] using h
  | .join left right => join_monotone parents left right

theorem ParentMap.run_monotone (parents : Dict α α) (calls : List (UnionFindCall α)) :
    FuelMonotone fun n => ParentMap.run n parents calls := by
  induction calls generalizing parents with
  | nil => exact FuelMonotone.pure _
  | cons c calls ih => exact (call_monotone parents c).bind ih

theorem UnionFind.height_findCompress (u : UnionFind α) (x : α) :
    (u.findCompress x).2.height = u.height :=
  height_findLoop ..

theorem UnionFind.height_join_le (u : UnionFind α) (x y : α) :
    (u.join x y).height ≤ u.height + 1 := by
  unfold UnionFind.join
  dsimp only
  split
  · refine (height_link_le ..).trans ?_
    rw [height_findCompress, height_findCompress]
  · rw [height_findCompress, height_findCompress]
    exact Nat.le_succ _

theorem UnionFindCall.height_apply_le (u : UnionFind α) :
    ∀ c : UnionFindCall α, (c.apply u).height ≤ u.height + 1
  | .find value => (height_findCompress u value).trans_le (Nat.le_succ _)
  | .join left right => height_join_le u left right

namespace ParentMap.Holds

theorem find (h : Holds keys parents u) (hx : x ∈ keys) (hn : u.height < n) :
    ∃ parents', ParentMap.find n parents x = some (u.root x, parents') ∧
    Holds keys parents' (u.findCompress x).2 := by
  obtain ⟨halved, hloop, hholds⟩ := h.halveLoop (h.closed x hx) hn
  rw [root_parent] at hloop
  refine ⟨halved.set x (u.root x), ?_, ?_⟩
  · unfold ParentMap.find
    rw [h.lookup x hx, Option.bind_some, hloop, Option.bind_some]
  · have hcompress := hholds.compress hx
    rwa [root_find] at hcompress

theorem join (h : Holds keys parents u) (hx : x ∈ keys) (hy : y ∈ keys) (hn : u.height < n) :
    ∃ parents', ParentMap.join n parents x y = some parents' ∧
    Holds keys parents' (u.join x y) := by
  obtain ⟨left, hleft, h₁⟩ := h.find hx hn
  obtain ⟨right, hright, h₂⟩ := h₁.find hy (by rwa [height_findCompress])
  rw [root_findCompress] at hright
  refine ⟨if u.root x ≠ u.root y then right.set (max (u.root x) (u.root y))
    (min (u.root x) (u.root y)) else right, ?_, ?_⟩
  · simp only [ParentMap.join, hleft, hright, Option.bind_some]
  rw [join_eq]
  split
  next hne =>
    refine h₂.link ?_ ?_ ?_
    · rw [root_findCompress, root_findCompress]
      rcases max_choice (u.root x) (u.root y) with he | he <;> rw [he, root_root]
    · rw [root_findCompress, root_findCompress]
      rcases min_choice (u.root x) (u.root y) with he | he <;> rw [he, root_root]
    · rcases min_choice (u.root x) (u.root y) with he | he <;> rw [he]
      exacts [h.root hx, h.root hy]
  next => exact h₂

theorem call (h : Holds keys parents u) (hc : c.Over keys) (hn : u.height < n) :
    ∃ parents', ParentMap.call n parents c = some parents' ∧ Holds keys parents' (c.apply u) := by
  cases c with
  | find value =>
    obtain ⟨parents', hfind, hholds⟩ := h.find hc hn
    exact ⟨parents', by simp only [ParentMap.call, hfind, Option.map_some], hholds⟩
  | join left right => exact h.join hc.1 hc.2 hn

theorem run (h : Holds keys parents u) (hcalls : ∀ c ∈ calls, c.Over keys)
    (hn : u.height + calls.length < n) :
    ∃ parents', ParentMap.run n parents calls = some parents' ∧
    Holds keys parents' (calls.foldl apply u) := by
  induction calls generalizing parents u with
  | nil => exact ⟨parents, rfl, h⟩
  | cons c calls ih =>
    rw [List.length_cons] at hn
    obtain ⟨next, hcall, hnext⟩ := h.call (hcalls c List.mem_cons_self) (n := n) (by omega)
    have hheight := height_apply_le u c
    obtain ⟨parents', hrun, hholds⟩ :=
      ih hnext (fun c hc => hcalls c (List.mem_cons_of_mem _ hc)) (by omega)
    exact ⟨parents', by simp only [ParentMap.run, hcall, Option.bind_some, hrun], hholds⟩

end ParentMap.Holds

/-- A run over the values ends, and each `find` after it ends with the root. -/
theorem findsAfter_root (hcalls : ∀ c ∈ calls, c.Over values) (hx : x ∈ values) :
    FindsAfter values calls x ((calls.foldl apply singletons).root x) := by
  obtain ⟨parents, hrun, hholds⟩ := (Holds.ofValues values).run hcalls (Nat.lt_succ_self _)
  obtain ⟨parents', hfind, -⟩ := hholds.find hx (Nat.lt_succ_self _)
  exact ⟨parents, parents', .of_monotone (run_monotone _ _) hrun,
    .of_monotone (find_monotone _ _) hfind⟩

theorem ParentMap.FindsAfter.unique {r s : α} (h : FindsAfter values calls x r)
    (h' : FindsAfter values calls x s) : r = s := by
  obtain ⟨parents, p, hrun, hfind⟩ := h
  obtain ⟨parents', p', hrun', hfind'⟩ := h'
  obtain rfl := hrun.unique hrun'
  exact congrArg Prod.fst (hfind.unique hfind')

end Follows

/-! ### Classes and their least elements -/

section Least
variable {α : Type} [LinearOrder α] {values : List α} {u : UnionFind α} {x y : α}
  {calls calls' : List (UnionFindCall α)}

theorem UnionFind.root_join (u : UnionFind α) (x y z : α) : (u.join x y).root z =
    if u.root x ≠ u.root y ∧ u.root z = max (u.root x) (u.root y) then min (u.root x)
    (u.root y) else u.root z := by
  set u₂ := ((u.findCompress x).2.findCompress y).2 with hu₂
  have hroot : ∀ z, u₂.root z = u.root z :=
    fun z => by rw [hu₂, root_findCompress, root_findCompress]
  have hfixed : ∀ z, u₂.parent (u.root z) = u.root z := fun z => by rw [← hroot z, u₂.parent_root]
  rw [join_eq, ← hu₂]
  by_cases hne : u.root x = u.root y
  · rw [if_neg (not_not.2 hne), if_neg fun h => h.1 hne, hroot]
  · rw [if_pos hne, root_link, hroot]
    · exact if_congr (and_iff_right hne).symm rfl rfl
    · rcases max_choice (u.root x) (u.root y) with he | he <;> rw [he, hfixed]
    · rcases min_choice (u.root x) (u.root y) with he | he <;> rw [he, hfixed]

/-- No root is above an element that ends in it. -/
def UnionFind.LeastRoots (u : UnionFind α) : Prop := ∀ x, u.root x ≤ x

theorem UnionFind.LeastRoots.apply (h : u.LeastRoots) :
    ∀ c : UnionFindCall α, (c.apply u).LeastRoots
  | .find value => fun x => (root_findCompress u value x).trans_le (h x)
  | .join left right => fun x => by
    show (u.join left right).root x ≤ x
    rw [root_join]
    split
    next hmax => exact (min_le_max.trans_eq hmax.2.symm).trans (h x)
    next => exact h x

theorem leastRoots_foldl (h : u.LeastRoots) (calls : List (UnionFindCall α)) :
    (calls.foldl apply u).LeastRoots := by
  induction calls generalizing u with
  | nil => exact h
  | cons c calls ih => exact ih (h.apply c)

theorem classes_apply {R : α → α → Prop} (h : Classes R u) (c : UnionFindCall α) :
    Classes (fun a b => R a b ∨ c = .join a b) (c.apply u) := by
  cases c with
  | find value =>
    intro a b
    show (u.findCompress value).2.root a = (u.findCompress value).2.root b ↔ _
    rw [root_findCompress, root_findCompress]
    exact (h.congr fun a b => by simp) a b
  | join left right =>
    refine (h.join (joins_join u left right)).congr fun a b => or_congr_right ?_
    rw [UnionFindCall.join.injEq]
    exact and_congr eq_comm eq_comm

theorem classes_foldl {R : α → α → Prop} (h : Classes R u) (calls : List (UnionFindCall α)) :
    Classes (fun a b => R a b ∨ UnionFindCall.Joined calls a b) (calls.foldl apply u) := by
  induction calls generalizing u R with
  | nil => exact h.congr fun a b => by simp [UnionFindCall.Joined]
  | cons c calls ih =>
    refine (ih (classes_apply h c)).congr fun a b => ?_
    unfold UnionFindCall.Joined
    rw [List.mem_cons, or_assoc]
    exact or_congr_right (or_congr_left eq_comm)

/-- Two values end in one root exactly when the joined pairs connect them. -/
theorem same_foldl_iff (calls : List (UnionFindCall α)) (x y : α) :
    (calls.foldl apply singletons).root x = (calls.foldl apply singletons).root y ↔
      Relation.EqvGen (UnionFindCall.Joined calls) x y :=
  ((classes_foldl Classes.singletons calls).congr fun a b => by simp) x y

/-- The root is the least of the values connected with the argument. -/
theorem isLeast_root (hcalls : ∀ c ∈ calls, c.Over values) (hx : x ∈ values) :
    IsLeast {y | y ∈ values ∧ Relation.EqvGen (UnionFindCall.Joined calls) x y}
    ((calls.foldl apply singletons).root x) := by
  have hmem : (calls.foldl apply singletons).root x ∈ values := by
    obtain ⟨parents, -, hholds⟩ := (Holds.ofValues values).run hcalls (Nat.lt_succ_self _)
    exact hholds.root hx
  refine ⟨⟨hmem, (same_foldl_iff calls _ _).1 (root_root _ x).symm⟩, fun y hy => ?_⟩
  rw [(same_foldl_iff calls x y).2 hy.2]
  exact leastRoots_foldl (fun x => le_refl x) calls y

/-- Every `find` after a run of calls ends with the least value of its class; the classes are what
the joined pairs connect, and neither the order of the joins nor other finds have a part in them. -/
theorem unionFind_finds (values : List α) (calls : List (UnionFindCall α))
    (hcalls : ∀ c ∈ calls, c.Over values) :
    (∀ x ∈ values, ∃ root, FindsAfter values calls x root ∧
      IsLeast {y | y ∈ values ∧ Relation.EqvGen (UnionFindCall.Joined calls) x y} root) ∧
    (∀ x ∈ values, ∀ y ∈ values, ∀ r s, FindsAfter values calls x r → FindsAfter values calls y s →
      (r = s ↔ Relation.EqvGen (UnionFindCall.Joined calls) x y)) ∧
    ∀ calls' : List (UnionFindCall α), (∀ c ∈ calls', c.Over values) →
      (∀ a b, UnionFindCall.Joined calls' a b ↔ UnionFindCall.Joined calls a b) →
      ∀ x ∈ values, ∀ r, FindsAfter values calls' x r ↔ FindsAfter values calls x r := by
  have hiff : ∀ {calls : List (UnionFindCall α)}, (∀ c ∈ calls, c.Over values) → ∀ x ∈ values, ∀ r,
      FindsAfter values calls x r ↔ r = (calls.foldl apply singletons).root x := by
    intro calls hcalls x hx r
    have hroot := findsAfter_root hcalls hx
    exact ⟨fun h => h.unique hroot, fun h => h ▸ hroot⟩
  refine ⟨fun x hx => ⟨_, findsAfter_root hcalls hx, isLeast_root hcalls hx⟩,
    fun x hx y hy r s hr hs => ?_,
    fun calls' hcalls' hjoined x hx r => ?_⟩
  · rw [(hiff hcalls x hx r).1 hr, (hiff hcalls y hy s).1 hs]
    exact same_foldl_iff calls x y
  · have hconnected : UnionFindCall.Joined calls' = UnionFindCall.Joined calls :=
      funext fun a => funext fun b => propext (hjoined a b)
    have hleast := isLeast_root hcalls' hx
    rw [hconnected] at hleast
    rw [hiff hcalls' x hx, hiff hcalls x hx, hleast.unique (isLeast_root hcalls hx)]

def someJoins : List (UnionFindCall Nat) := [.join 5 3, .find 5, .join 2 1, .join 5 2]

theorem unionFind_finds_someJoins :
    (∃ root, FindsAfter [5, 3, 2, 1, 4] someJoins 5 root ∧
      IsLeast
        {y | y ∈ [5, 3, 2, 1, 4] ∧ Relation.EqvGen (UnionFindCall.Joined someJoins) 5 y} root) ∧
    (∀ r, FindsAfter [5, 3, 2, 1, 4] someJoins.reverse 5 r ↔
      FindsAfter [5, 3, 2, 1, 4] someJoins 5 r) := by
  have hover : ∀ c ∈ someJoins, c.Over [5, 3, 2, 1, 4] := by simp [someJoins, Over]
  have h := unionFind_finds [5, 3, 2, 1, 4] someJoins hover
  exact ⟨h.1 5 (by simp), fun r =>
    h.2.2 someJoins.reverse (fun c hc => hover c (List.mem_reverse.1 hc))
    (fun a b => List.mem_reverse) 5 (by simp) r⟩

end Least

namespace IdentityRows
variable (rows : IdentityRows) (py : PyLib)

/-- The joins of the groups that are safe. -/
def safeJoins (groups : List (List Nat)) : List (UnionFindCall Nat) :=
  (groups.filter fun members => rows.safeIdentityGroup members).flatMap fun members =>
    members.tail.map fun i => .join (members.headD 0) i

/-- The calls of `rebuild_catalog_projection` before it reads the groups. -/
def unionCalls : List (UnionFindCall Nat) :=
  rows.safeJoins rows.identityMembers ++ rows.safeJoins (rows.fallbackMembers py)

variable {rows py}

theorem foldl_safeJoins (groups : List (List Nat)) (u : UnionFind Nat) :
    (rows.safeJoins groups).foldl apply u = rows.joinSafeGroups groups u := by
  unfold safeJoins joinSafeGroups
  induction groups generalizing u with
  | nil => rfl
  | cons members groups ih =>
    rw [List.foldl_cons]
    split
    next hsafe =>
      rw [List.filter_cons_of_pos hsafe, List.flatMap_cons, List.foldl_append, ih, List.foldl_map]
      cases members <;> rfl
    next hsafe => rw [List.filter_cons_of_neg hsafe, ih]

theorem over_safeJoins {groups : List (List Nat)}
    (h : ∀ members ∈ groups, ∀ i ∈ members, i ∈ rows.catalogIds)
    {c : UnionFindCall Nat} (hc : c ∈ rows.safeJoins groups) : c.Over rows.catalogIds := by
  obtain ⟨members, hmembers, hc⟩ := List.mem_flatMap.1 hc
  obtain ⟨i, hi, rfl⟩ := List.mem_map.1 hc
  have hcatalog := h members (List.mem_filter.1 hmembers).1
  refine ⟨hcatalog _ ?_, hcatalog i (List.mem_of_mem_tail hi)⟩
  cases members with
  | nil => cases hi
  | cons first rest => exact List.mem_cons_self

theorem unionCalls_over (py : PyLib) {c : UnionFindCall Nat} (hc : c ∈ rows.unionCalls py) :
    c.Over rows.catalogIds := by
  rcases List.mem_append.1 hc with hc | hc
  · refine over_safeJoins (fun members hmembers i hi => ?_) hc
    obtain ⟨⟨key, group⟩, hgroup, rfl⟩ := List.mem_map.1 hmembers
    obtain ⟨rfl, -⟩ := mem_groupBy hgroup
    obtain ⟨r, hr, rfl⟩ := List.mem_map.1 hi
    have hstable := (List.mem_filter.1 (List.mem_filter.1 hr).1).2
    obtain ⟨kind, hkind, hcatalog⟩ := (Option.any_eq_true ..).1 (Bool.and_eq_true_iff.1 hstable).2
    obtain ⟨m, hm, rfl⟩ := Option.map_eq_some_iff.1 hkind
    obtain ⟨hmem, hid⟩ := Table.get?_eq_some.1 hm
    exact mem_catalogIds.2 ⟨m, hmem, hcatalog, hid⟩
  · refine over_safeJoins (fun members hmembers i hi => ?_) hc
    obtain ⟨⟨key, group⟩, hgroup, rfl⟩ := List.mem_map.1 hmembers
    obtain ⟨rfl, -⟩ := mem_groupBy hgroup
    exact (List.mem_filter.1 (List.mem_filter.1 hi).1).1

/-- What the rebuild reads from the dictionary are the roots of `union`. -/
theorem findsAfter_unionCalls {i : Nat} (hi : i ∈ rows.catalogIds) :
    FindsAfter rows.catalogIds (rows.unionCalls py) i ((rows.union py).root i) := by
  have h := findsAfter_root (fun _ hc => unionCalls_over py hc) hi
  unfold unionCalls at h
  rw [List.foldl_append, foldl_safeJoins, foldl_safeJoins] at h
  exact h

end IdentityRows

end Euvieouvi
