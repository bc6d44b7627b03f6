import Mathlib.Data.List.Sort
import Mathlib.Data.List.Perm.Basic

/-!
# The first of an order

The first `k` elements of a sorted list are those that fewer than `k` others come before. `r a b`
says that `a` comes before `b` or is `b`; two elements of the list that come before each other are
one.
-/

namespace Euvieouvi

variable {α : Type*} {r : α → α → Prop} [DecidableRel r] {l : List α} {k : Nat} {x : α}

/-- How many elements come strictly before `x`. -/
def countBefore (r : α → α → Prop) [DecidableRel r] (l : List α) (x : α) : Nat :=
  l.countP fun y => ¬ r x y

theorem mem_take_of_sorted (hsorted : l.Pairwise r) (hrefl : ∀ a ∈ l, r a a) (hnodup : l.Nodup)
    (hanti : ∀ a ∈ l, ∀ b ∈ l, r a b → r b a → a = b) :
    x ∈ l.take k ↔ x ∈ l ∧ countBefore r l x < k := by
  unfold countBefore
  induction l generalizing k with
  | nil => simp
  | cons a l ih =>
    obtain ⟨hfirst, hrest⟩ := List.pairwise_cons.1 hsorted
    obtain ⟨hnew, hnodup⟩ := List.nodup_cons.1 hnodup
    have ih : ∀ {k}, x ∈ l.take k ↔ x ∈ l ∧ l.countP (fun y => ¬ r x y) < k :=
      ih hrest (fun b hb => hrefl b (List.mem_cons_of_mem _ hb)) hnodup
        fun b hb c hc => hanti b (List.mem_cons_of_mem _ hb) c (List.mem_cons_of_mem _ hc)
    cases k with
    | zero => simp
    | succ k =>
      rw [List.take_succ_cons, List.mem_cons, List.mem_cons, ih]
      by_cases hx : x = a
      · subst hx
        have hnone : (x :: l).countP (fun y => ¬ r x y) = 0 := by
          rw [List.countP_eq_zero]
          intro b hb hbefore
          rcases List.mem_cons.1 hb with rfl | hb
          · exact of_decide_eq_true hbefore (hrefl b List.mem_cons_self)
          · exact of_decide_eq_true hbefore (hfirst b hb)
        rw [hnone]
        simp
      · have hcount : x ∈ l →
            (a :: l).countP (fun y => ¬ r x y) = l.countP (fun y => ¬ r x y) + 1 := by
          intro hmem
          refine List.countP_cons_of_pos (decide_eq_true fun hback => hx ?_)
          exact hanti x (List.mem_cons_of_mem _ hmem) a List.mem_cons_self hback (hfirst x hmem)
        constructor
        · rintro (h | ⟨hmem, hlt⟩)
          · exact absurd h hx
          · exact ⟨.inr hmem, by rw [hcount hmem]; omega⟩
        · rintro ⟨h | hmem, hlt⟩
          · exact absurd h hx
          · rw [hcount hmem] at hlt
            exact .inr ⟨hmem, by omega⟩

theorem mem_take_insertionSort [Std.Total r] [IsTrans α r] (hnodup : l.Nodup)
    (hanti : ∀ a ∈ l, ∀ b ∈ l, r a b → r b a → a = b) :
    x ∈ (l.insertionSort r).take k ↔ x ∈ l ∧ countBefore r l x < k := by
  have hperm := List.perm_insertionSort r l
  have hmem : ∀ {a}, a ∈ l.insertionSort r ↔ a ∈ l := hperm.mem_iff
  rw [mem_take_of_sorted (List.pairwise_insertionSort r l)
    (fun a _ => (Std.Total.total a a).elim id id) (hperm.nodup_iff.2 hnodup)
    fun a ha b hb => hanti a (hmem.1 ha) b (hmem.1 hb), hmem]
  unfold countBefore
  rw [hperm.countP_eq]

end Euvieouvi
