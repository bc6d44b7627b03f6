import Euvieouvi.Lib.Windows
import Mathlib.Data.List.Perm.Basic

/-!
# Batches

`batches size values` cuts a list into pieces of at most `size` elements, the last one perhaps
shorter. The pieces put together are the list (`flatten_batches`), so a query that is put batch by
batch reads the rows that the query of all the values reads (`flatMap_batches_perm`), each once
where the values are distinct.
-/

namespace Euvieouvi

variable {α β ρ : Type*} {size n : Nat} {values batch : List α}

/-- A batch for each offset of `range(0, len(values), size)`. -/
def batches (size : Nat) (values : List α) : List (List α) :=
  (List.range ((values.length + (size - 1)) / size)).map fun k => window size k values

theorem length_le_of_mem_batches (h : batch ∈ batches size values) : batch.length ≤ size := by
  obtain ⟨k, -, rfl⟩ := List.mem_map.1 h
  rw [length_window]
  exact Nat.min_le_left _ _

theorem flatten_windows (size : Nat) (values : List α) (n : Nat) :
    ((List.range n).map fun k => window size k values).flatten = values.take (n * size) := by
  induction n with
  | zero => simp
  | succ n ih =>
    rw [List.range_succ, List.map_append, List.flatten_append, ih, Nat.succ_mul, List.take_add]
    simp [window]

/-- No value is left out. -/
theorem flatten_batches (hsize : 0 < size) (values : List α) :
    (batches size values).flatten = values := by
  unfold batches
  rw [flatten_windows]
  refine List.take_of_length_le ?_
  have hdiv := Nat.div_add_mod (values.length + (size - 1)) size
  have hmod := Nat.mod_lt (values.length + (size - 1)) hsize
  rw [Nat.mul_comm] at hdiv
  omega

theorem mem_of_mem_batches {a : α} (h : batch ∈ batches size values) (ha : a ∈ batch) :
    a ∈ values := by
  obtain ⟨k, -, rfl⟩ := List.mem_map.1 h
  exact List.mem_of_mem_drop (List.mem_of_mem_take ha)

theorem exists_mem_batches {a : α} (hsize : 0 < size) (ha : a ∈ values) :
    ∃ batch ∈ batches size values, a ∈ batch := by
  rw [← flatten_batches hsize values] at ha
  exact List.mem_flatten.1 ha

section Queries
variable [DecidableEq α]

/-- The rows of a disjunction, for parts that exclude each other. -/
theorem filter_append_perm (p q : ρ → Bool) (rows : List ρ)
    (h : ∀ r ∈ rows, p r = true → q r = false) :
    (rows.filter p ++ rows.filter q).Perm (rows.filter fun r => p r || q r) := by
  induction rows with
  | nil => exact .nil
  | cons r rows ih =>
    have ih := ih fun r hr => h r (List.mem_cons_of_mem _ hr)
    cases hp : p r with
    | true =>
      have hq : q r = false := h r List.mem_cons_self hp
      simp only [List.filter_cons, hp, hq, if_true, Bool.false_eq_true, if_false, Bool.true_or,
        List.cons_append]
      exact ih.cons r
    | false =>
      cases hq : q r with
      | true =>
        simp only [List.filter_cons, hp, hq, if_true, Bool.false_eq_true, if_false, Bool.false_or]
        exact List.perm_middle.trans (ih.cons r)
      | false =>
        simp only [List.filter_cons, hp, hq, Bool.false_eq_true, if_false, Bool.false_or]
        exact ih

theorem flatMap_parts_perm (column : ρ → α) (rows : List ρ) (parts : List (List α))
    (h : parts.flatten.Nodup) :
    (parts.flatMap fun part => rows.filter fun r => part.contains (column r)).Perm
      (rows.filter fun r => parts.flatten.contains (column r)) := by
  induction parts with
  | nil => simp
  | cons part parts ih =>
    rw [List.flatten_cons] at h
    obtain ⟨-, hparts, hdisjoint⟩ := List.nodup_append'.1 h
    rw [List.flatMap_cons]
    refine ((ih hparts).append_left _).trans ?_
    refine (filter_append_perm _ _ rows fun r _ hr => ?_).trans (.of_eq ?_)
    · have hr : column r ∈ part := List.contains_iff_mem.1 hr
      simp only [List.contains_eq_mem, decide_eq_false_iff_not]
      exact fun hmem => hdisjoint hr hmem
    · refine List.filter_congr fun r _ => ?_
      rw [List.flatten_cons]
      simp

/-- The rows of a query of distinct values, read batch by batch. -/
theorem flatMap_batches_perm (column : ρ → α) (rows : List ρ) (hsize : 0 < size)
    (h : values.Nodup) :
    ((batches size values).flatMap fun batch => rows.filter fun r => batch.contains (column r)).Perm
      (rows.filter fun r => values.contains (column r)) := by
  have hparts :=
    flatMap_parts_perm column rows (batches size values) (by rwa [flatten_batches hsize])
  rwa [flatten_batches hsize] at hparts

end Queries

end Euvieouvi
