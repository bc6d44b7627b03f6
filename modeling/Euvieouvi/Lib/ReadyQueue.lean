import Mathlib.Data.List.MinMax
import Mathlib.Data.List.Sort

/-!
# Ready queues

The elements of a queue wait in an order of preference, and an element is held up by the waiting
elements of smaller rank that it depends on. `firstReady` takes the first one that may start and is
not held up. No dependency can hold up all of them: the waiting element of least rank is held up by
none (`exists_ready`).
-/

namespace Euvieouvi.ReadyQueue

variable {ρ : Type} (prefers : ρ → ρ → Prop) [DecidableRel prefers] (rank : ρ → Nat)
  (dependsOn : ρ → ρ → Bool)
  (mayStart : ρ → Bool) (waiting : List ρ)

/-- Some waiting element of smaller rank has to come first. -/
def heldUp (x : ρ) : Bool := waiting.any fun y => dependsOn x y && decide (rank y < rank x)

def firstReady : Option ρ :=
  ((waiting.filter mayStart).insertionSort prefers).find? fun x => !heldUp rank dependsOn waiting x

/-- The elements that may start. -/
def Ready (x : ρ) : Prop :=
  x ∈ waiting ∧ mayStart x = true ∧ heldUp rank dependsOn waiting x = false

variable {prefers rank dependsOn mayStart waiting} {x y : ρ}

theorem heldUp_eq_true : heldUp rank dependsOn waiting x = true ↔
    ∃ y ∈ waiting, dependsOn x y = true ∧ rank y < rank x := by
  simp [heldUp]

theorem mem_candidates : x ∈ (waiting.filter mayStart).insertionSort prefers ↔ x ∈ waiting ∧
    mayStart x = true := by
  rw [List.mem_insertionSort, List.mem_filter]

theorem ready_of_firstReady (h : firstReady prefers rank dependsOn mayStart waiting = some x) :
    Ready rank dependsOn mayStart waiting x := by
  obtain ⟨hw, hm⟩ := mem_candidates.1 (List.mem_of_find?_eq_some h)
  exact ⟨hw, hm, by simpa using List.find?_some h⟩

/-- No element that may start is preferred to the one that is taken. -/
theorem prefers_of_firstReady [Std.Total prefers] [IsTrans ρ prefers] (hrefl : ∀ x, prefers x x)
    (h : firstReady prefers rank dependsOn mayStart waiting = some x)
    (hy : Ready rank dependsOn mayStart waiting y) :
    prefers x y := by
  have hsorted := List.pairwise_insertionSort prefers (waiting.filter mayStart)
  obtain ⟨-, before, after, heq, hbefore⟩ := List.find?_eq_some_iff_append.1 h
  have hmem : y ∈ before ++ x :: after := heq ▸ mem_candidates.2 ⟨hy.1, hy.2.1⟩
  rw [heq] at hsorted
  rcases List.mem_append.1 hmem with hb | hb
  · exact absurd (hbefore y hb) (by simp [hy.2.2])
  rcases List.mem_cons.1 hb with rfl | ha
  · exact hrefl y
  · exact List.rel_of_pairwise_cons (List.pairwise_append.1 hsorted).2.1 ha

theorem firstReady_isSome : (firstReady prefers rank dependsOn mayStart waiting).isSome = true ↔
    ∃ x, Ready rank dependsOn mayStart waiting x := by
  refine ⟨fun h => ?_, fun ⟨x, hw, hm, hx⟩ => ?_⟩
  · obtain ⟨x, hx⟩ := Option.isSome_iff_exists.1 h
    exact ⟨x, ready_of_firstReady hx⟩
  · exact List.find?_isSome.2 ⟨x, mem_candidates.2 ⟨hw, hm⟩, by simp [hx]⟩

/-- If every waiting element may start, one is ready: the one of least rank. -/
theorem exists_ready (hx : x ∈ waiting) (hmay : ∀ y ∈ waiting, mayStart y = true) :
    ∃ y, Ready rank dependsOn mayStart waiting y := by
  obtain ⟨y, hleast⟩ := Option.ne_none_iff_exists'.1 fun hnone =>
    List.ne_nil_of_mem hx (List.argmin_eq_none (f := rank).1 hnone)
  have hy := List.argmin_mem hleast
  refine ⟨y, hy, hmay y hy, Bool.eq_false_iff.2 fun hheld => ?_⟩
  obtain ⟨z, hz, -, hlt⟩ := heldUp_eq_true.1 hheld
  exact absurd hlt (Nat.not_lt.2 (List.le_of_mem_argmin hz hleast))

end Euvieouvi.ReadyQueue
