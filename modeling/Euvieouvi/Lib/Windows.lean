import Mathlib.Data.List.Nodup
import Mathlib.Data.List.Range

/-!
# Windows of a list

`window n k l` is the `k`-th window of size `n`. In a list without duplicates each element is in
exactly one window (`countP_windows`), and two windows share no element (`window_disjoint`).
-/

namespace Euvieouvi

variable {α : Type*} {n k j m i : Nat} {l : List α}

def window (n k : Nat) (l : List α) : List α := (l.drop (k * n)).take n

theorem length_window : (window n k l).length = min n (l.length - k * n) := by
  simp [window]

theorem window_subset : window n k l ⊆ l :=
  fun _ hx => List.mem_of_mem_drop (List.mem_of_mem_take hx)

theorem window_map {β : Type*} (f : α → β) : window n k (l.map f) = (window n k l).map f := by
  simp [window, List.map_take, List.map_drop]

@[simp] theorem window_zero : window n 0 l = l.take n := by
  simp [window]

theorem window_succ : window n (k + 1) l = window n k (l.drop n) := by
  unfold window
  rw [List.drop_drop, Nat.succ_mul, Nat.add_comm (k * n)]

/-- The full windows of a list are its first one and those of what follows. -/
theorem forall_full_windows {P : List α → Prop} (hn : n ≤ l.length) :
    (∀ k, (k + 1) * n ≤ l.length → P (window n k l)) ↔
      P (l.take n) ∧ ∀ k, (k + 1) * n ≤ (l.drop n).length → P (window n k (l.drop n)) := by
  have hlength : ∀ k, (k + 1) * n ≤ (l.drop n).length ↔ (k + 1 + 1) * n ≤ l.length := by
    intro k
    rw [List.length_drop, Nat.succ_mul (k + 1)]
    omega
  constructor
  · intro h
    refine ⟨window_zero ▸ h 0 (by rwa [Nat.zero_add, Nat.one_mul]), fun k hk => ?_⟩
    rw [← window_succ]
    exact h (k + 1) ((hlength k).1 hk)
  · rintro ⟨hfirst, hrest⟩ (- | k) hk
    · rwa [window_zero]
    · rw [window_succ]
      exact hrest k ((hlength k).2 hk)

theorem mem_window {x : α} : x ∈ window n k l ↔ ∃ i, ∃ h : i < l.length, k * n ≤ i ∧ i < k * n + n ∧
    l[i] = x := by
  unfold window
  constructor
  · intro hx
    obtain ⟨i, hi, rfl⟩ := List.mem_iff_getElem.1 hx
    simp only [List.length_take, List.length_drop] at hi
    refine ⟨k * n + i, by omega, by omega, by omega, ?_⟩
    simp
  · rintro ⟨i, hi, hlow, hhigh, rfl⟩
    refine List.mem_iff_getElem.2 ⟨i - k * n, ?_, ?_⟩
    · simp only [List.length_take, List.length_drop]
      omega
    · simp only [List.getElem_take, List.getElem_drop]
      congr 1
      omega

/-- An element is in the window that its position divided by the size tells. -/
theorem getElem_mem_window (hl : l.Nodup) (hn : 0 < n) (hi : i < l.length) :
    l[i] ∈ window n k l ↔ i / n = k := by
  rw [mem_window]
  constructor
  · rintro ⟨j, hj, hlow, hhigh, heq⟩
    obtain rfl := (hl.getElem_inj_iff).1 heq
    have hsucc : j < (k + 1) * n := by rw [Nat.succ_mul]; exact hhigh
    exact Nat.div_eq_of_lt_le hlow hsucc
  · rintro rfl
    refine ⟨i, hi, Nat.div_mul_le_self i n, ?_, rfl⟩
    have hmod := Nat.mod_lt i hn
    have hsplit := Nat.div_add_mod i n
    rw [Nat.mul_comm] at hsplit
    omega

theorem window_disjoint (hl : l.Nodup) (hn : 0 < n) (hjk : j ≠ k) {x : α} (hj : x ∈ window n j l) :
    x ∉ window n k l := by
  intro hk
  obtain ⟨i, hi, rfl⟩ := List.mem_iff_getElem.1 (window_subset hj)
  exact hjk (((getElem_mem_window hl hn hi).1 hj).symm.trans ((getElem_mem_window hl hn hi).1 hk))

/-- Among the first `m` windows, one has the element if its window is one of them. -/
theorem countP_windows (hl : l.Nodup) (hn : 0 < n) (hi : i < l.length) {p : Nat → Bool}
    (hp : ∀ k, p k = true ↔ l[i] ∈ window n k l) :
    (List.range m).countP p = if i < m * n then 1 else 0 := by
  have hcount : (List.range m).countP p = (List.range m).count (i / n) := by
    refine List.countP_congr fun k _ => ?_
    rw [hp, getElem_mem_window hl hn hi, beq_iff_eq, eq_comm]
  have hlt : i < m * n ↔ i / n < m := (Nat.div_lt_iff_lt_mul hn).symm
  rw [hcount]
  split
  next h => exact List.count_eq_one_of_mem List.nodup_range (List.mem_range.2 (hlt.1 h))
  next h => exact List.count_eq_zero_of_not_mem fun hmem => h (hlt.2 (List.mem_range.1 hmem))

/-- A property of just the first `m` positions has `m` elements. -/
theorem countP_of_index {p : α → Bool} (hp : ∀ i (hi : i < l.length), p l[i] = true ↔ i < m)
    (hm : m ≤ l.length) :
    l.countP p = m := by
  have hfirst : (l.take m).countP p = (l.take m).length := by
    refine List.countP_eq_length.2 fun x hx => ?_
    obtain ⟨i, hi, rfl⟩ := List.mem_iff_getElem.1 hx
    rw [List.length_take] at hi
    rw [List.getElem_take]
    exact (hp i (by omega)).2 (by omega)
  have hrest : (l.drop m).countP p = 0 := by
    refine List.countP_eq_zero.2 fun x hx hpx => ?_
    obtain ⟨i, hi, rfl⟩ := List.mem_iff_getElem.1 hx
    rw [List.length_drop] at hi
    rw [List.getElem_drop] at hpx
    have hlt := (hp (m + i) (by omega)).1 hpx
    omega
  rw [← List.take_append_drop m l, List.countP_append, hfirst, hrest, List.length_take]
  omega

/-- What is made of some elements, under the keys of these, is found among the keys of all. -/
theorem map_filterMap_sublist {β γ : Type*} {f : α → Option β} {g : β → γ} {key : α → γ}
    (hf : ∀ a b, f a = some b → g b = key a) (l : List α) :
    ((l.filterMap f).map g).Sublist (l.map key) := by
  induction l with
  | nil => exact .slnil
  | cons a l ih =>
    cases ha : f a with
    | none =>
      rw [List.filterMap_cons_none ha]
      exact ih.cons _
    | some b =>
      rw [List.filterMap_cons_some ha, List.map_cons, List.map_cons, hf a b ha]
      exact ih.cons_cons _

end Euvieouvi
