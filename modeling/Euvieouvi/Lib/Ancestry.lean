import Mathlib.Data.List.Basic
import Mathlib.Logic.Function.Iterate

/-!
# Walking a forest of parents

A forest is a partial function `parentOf`. `above parentOf k i` is the ancestor `k` steps above `i`.
A walk that stops at a repeated node meets exactly the ancestors when no node has one at distance
`depth` (`mem_walkUp`, `Shallow`). `recursiveRows` is a recursive common table expression: the rows
of the first levels of a repeated step.
-/

namespace Euvieouvi

section Above
variable {parentOf parentOf' : Nat → Option Nat} {i j a : Nat} {k d : Nat}

/-- The ancestor `k` steps above `i`. -/
def above (parentOf : Nat → Option Nat) : Nat → Nat → Option Nat
  | 0, i => some i
  | k + 1, i => (parentOf i).bind (above parentOf k)

@[simp] theorem above_zero : above parentOf 0 i = some i := rfl

theorem above_succ : above parentOf (k + 1) i = (parentOf i).bind (above parentOf k) := rfl

theorem above_add (m k i : Nat) :
    above parentOf (m + k) i = (above parentOf k i).bind (above parentOf m) := by
  induction k generalizing i with
  | zero => simp
  | succ k ih =>
    rw [Nat.add_succ, above_succ, above_succ]
    cases parentOf i with
    | none => rfl
    | some p => exact ih p

theorem above_succ' : above parentOf (k + 1) i = (above parentOf k i).bind parentOf := by
  rw [Nat.add_comm, above_add]
  congr 1; funext p
  rw [above_succ]; cases parentOf p <;> rfl

theorem above_mono (h : ∀ i p, parentOf' i = some p → parentOf i = some p)
    (ha : above parentOf' k i = some a) :
    above parentOf k i = some a := by
  induction k generalizing i with
  | zero => exact ha
  | succ k ih =>
    rw [above_succ] at ha ⊢
    obtain ⟨p, hp, ha⟩ := Option.bind_eq_some_iff.1 ha
    rw [h i p hp]; exact ih ha

/-- No node has an ancestor `d` steps above it. -/
def Shallow (parentOf : Nat → Option Nat) (d : Nat) : Prop := ∀ i, above parentOf d i = none

theorem Shallow.lt (h : Shallow parentOf d) (ha : above parentOf k i = some a) : k < d := by
  by_contra hk
  obtain ⟨m, rfl⟩ := Nat.exists_eq_add_of_le' (Nat.le_of_not_lt hk)
  rw [above_add, h i] at ha; cases ha

theorem Shallow.mono (hd : Shallow parentOf d)
    (h : ∀ i p, parentOf' i = some p → parentOf i = some p) :
    Shallow parentOf' d := by
  intro i
  cases ha : above parentOf' d i with
  | none => rfl
  | some a => exact absurd (above_mono h ha) (by rw [hd i]; simp)

/-- A forest whose nodes have heights below `d`, a parent always a smaller one than its children. -/
theorem Shallow.of_height (height : Nat → Nat)
    (hstep : ∀ i p, parentOf i = some p → height p < height i)
    (hbound : ∀ i, height i < d) : Shallow parentOf d := by
  have hup : ∀ k i a, above parentOf k i = some a → k + height a ≤ height i := by
    intro k
    induction k with
    | zero =>
      intro i a ha
      cases ha
      omega
    | succ k ih =>
      intro i a ha
      obtain ⟨p, hp, ha⟩ := Option.bind_eq_some_iff.1 (above_succ ▸ ha)
      have hlt := hstep i p hp
      have hle := ih p a ha
      omega
  intro i
  cases ha : above parentOf d i with
  | none => rfl
  | some a =>
    have hle := hup d i a ha
    have hlt := hbound i
    omega

/-- A node is not its own proper ancestor. -/
theorem Shallow.acyclic (h : Shallow parentOf d) : above parentOf (k + 1) i ≠ some i := by
  intro hc
  have hn : ∀ n, above parentOf (n * (k + 1)) i = some i := by
    intro n
    induction n with
    | zero => simp
    | succ n ih => rw [Nat.succ_mul, above_add, hc]; exact ih
  exact absurd (h.lt (hn d)) (Nat.not_lt.2 (Nat.le_mul_of_pos_right d (Nat.succ_pos k)))

end Above

section Walk
variable {parentOf : Nat → Option Nat} {i a : Nat} {n d : Nat} {o : Option Nat}

/-- `while current is not None and current not in visited`, for at most `fuel` passes. -/
def walkUp (parentOf : Nat → Option Nat) : Nat → List Nat → Option Nat → List Nat
  | 0, _, _ => []
  | _ + 1, _, none => []
  | fuel + 1, visited, some i =>
    if visited.contains i then [] else i :: walkUp parentOf fuel (i :: visited) (parentOf i)

/-- The first `n` nodes from `o` upwards. -/
def lineage (parentOf : Nat → Option Nat) : Nat → Option Nat → List Nat
  | 0, _ => []
  | _ + 1, none => []
  | n + 1, some i => i :: lineage parentOf n (parentOf i)

theorem mem_lineage : a ∈ lineage parentOf n o ↔ ∃ k < n, o.bind (above parentOf k) = some a := by
  induction n generalizing o with
  | zero => simp [lineage]
  | succ n ih =>
    cases o with
    | none => simp [lineage]
    | some i =>
      rw [lineage, List.mem_cons, ih]
      constructor
      · rintro (rfl | ⟨k, hk, h⟩)
        · exact ⟨0, by omega, rfl⟩
        · exact ⟨k + 1, by omega, h⟩
      · rintro ⟨_ | k, hk, h⟩
        · exact .inl (Option.some.inj h).symm
        · exact .inr ⟨k, by omega, h⟩

/-- In a shallow forest no walk meets a node twice. -/
theorem walkUp_eq_lineage (h : Shallow parentOf d) (n i : Nat) :
    walkUp parentOf n [] (some i) = lineage parentOf n (some i) := by
  suffices hgen : ∀ (n : Nat) (visited : List Nat) (o : Option Nat),
      (∀ v ∈ visited, ∀ i, o = some i → ∃ m, above parentOf (m + 1) v = some i) →
        walkUp parentOf n visited o = lineage parentOf n o from hgen n [] (some i) (by simp)
  intro n
  induction n with
  | zero => intros; rfl
  | succ n ih =>
    intro visited o hv
    cases o with
    | none => rfl
    | some i =>
      have hnew : visited.contains i = false := by
        rw [List.contains_eq_mem, decide_eq_false_iff_not]
        intro hi
        obtain ⟨m, hm⟩ := hv i hi i rfl
        exact h.acyclic hm
      rw [walkUp, hnew, lineage, if_neg Bool.false_ne_true]
      refine congrArg (i :: ·) (ih _ _ fun v hvis p hp => ?_)
      rcases List.mem_cons.1 hvis with rfl | hvis
      · exact ⟨0, by rw [above_succ, hp]; rfl⟩
      · obtain ⟨m, hm⟩ := hv v hvis i rfl
        exact ⟨m + 1, by rw [above_succ', hm]; exact hp⟩

theorem mem_walkUp (h : Shallow parentOf d) (hd : d ≤ n) :
    a ∈ walkUp parentOf n [] (some i) ↔ ∃ k, above parentOf k i = some a := by
  rw [walkUp_eq_lineage h, mem_lineage]
  exact ⟨fun ⟨k, _, hk⟩ => ⟨k, hk⟩, fun ⟨k, hk⟩ => ⟨k, Nat.lt_of_lt_of_le (h.lt hk) hd, hk⟩⟩

end Walk

/-! ### Walking inside a part of the forest -/

section Within
variable {α : Type} {S : Nat → Bool} {f : Nat → Option α} {parentOf : Nat → Option Nat}
  {i a s : Nat} {k n : Nat}

/-- The part of a dictionary whose keys satisfy `S`. -/
def within (S : Nat → Bool) (f : Nat → Option α) (i : Nat) : Option α := if S i then f i else none

theorem within_eq_some {x : α} : within S f i = some x ↔ S i = true ∧ f i = some x := by
  unfold within; split <;> simp [*]

theorem within_of_mem (h : S i = true) : within S f i = f i := if_pos h

theorem within_le (i p : Nat) (h : within S parentOf i = some p) : parentOf i = some p :=
  (within_eq_some.1 h).2

/-- An ancestor is reached inside `S` when the nodes below it are there. -/
theorem above_within (h : ∀ m j, above parentOf (m + 1) j = some a → S j = true)
    (ha : above parentOf k i = some a) : above (within S parentOf) k i = some a := by
  induction k generalizing i with
  | zero => exact ha
  | succ k ih =>
    rw [above_succ, within_of_mem (h k i ha)]
    obtain ⟨p, hp, hpa⟩ := Option.bind_eq_some_iff.1 ha
    rw [hp]; exact ih hpa

theorem find?_lineage_of_within {p : Nat → Bool} {o : Option Nat}
    (h : (lineage (within S parentOf) n o).find? (fun i => S i && p i) = some s) :
    (lineage parentOf n o).find? p = some s := by
  induction n generalizing o with
  | zero => cases h
  | succ n ih =>
    cases o with
    | none => cases h
    | some i =>
      rw [lineage, List.find?_cons] at h ⊢
      cases hS : S i with
      | false =>
        rw [hS] at h
        have hnone : within S parentOf i = none := by simp [within, hS]
        rw [hnone] at h
        cases n <;> cases h
      | true =>
        rw [hS, Bool.true_and] at h
        cases hp : p i with
        | true => rw [hp] at h; exact h
        | false => rw [hp, within_of_mem hS] at h; exact ih h

theorem find?_lineage_within {p : Nat → Bool} {o : Option Nat}
    (hS : ∀ m j, above parentOf m j = some s → S j = true)
    (h : (lineage parentOf n o).find? p = some s) :
    (lineage (within S parentOf) n o).find? (fun i => S i && p i) = some s := by
  induction n generalizing o with
  | zero => cases h
  | succ n ih =>
    cases o with
    | none => cases h
    | some i =>
      have hi : S i = true := by
        obtain ⟨k, -, hk⟩ := mem_lineage.1 (List.mem_of_find?_eq_some h)
        exact hS k i hk
      rw [lineage, List.find?_cons] at h ⊢
      rw [hi, Bool.true_and, within_of_mem hi]
      cases hp : p i with
      | true => rw [hp] at h; exact h
      | false => rw [hp] at h; exact ih h

end Within

section Recursive
variable {ρ : Type}

/-- The rows of `level` and of what the recursive step makes of it, `depth` times. -/
def recursiveRows (step : List ρ → List ρ) : Nat → List ρ → List ρ
  | 0, level => level
  | depth + 1, level => level ++ recursiveRows step depth (step level)

theorem mem_recursiveRows {step : List ρ → List ρ} {depth : Nat} {level : List ρ} {r : ρ} :
    r ∈ recursiveRows step depth level ↔ ∃ k ≤ depth, r ∈ step^[k] level := by
  induction depth generalizing level with
  | zero =>
    constructor
    · exact fun h => ⟨0, Nat.le_refl _, h⟩
    · rintro ⟨k, hk, h⟩
      rw [Nat.le_zero.1 hk] at h; exact h
  | succ depth ih =>
    rw [recursiveRows, List.mem_append, ih]
    constructor
    · rintro (h | ⟨k, hk, h⟩)
      · exact ⟨0, by omega, h⟩
      · exact ⟨k + 1, by omega, h⟩
    · rintro ⟨_ | k, hk, h⟩
      · exact .inl h
      · exact .inr ⟨k, by omega, h⟩

end Recursive

end Euvieouvi
