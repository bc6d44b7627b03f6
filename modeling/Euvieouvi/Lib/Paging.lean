import Mathlib.Data.List.Basic

/-!
# Paging by offset

A reader pages through the elements of a list that satisfy `p`, in the order of the list and by
their position among them. `unvisited p n l` is what it has still to see after `n` of them. The list
changes between two pages: what was still to see stays so when elements are put in anywhere, when
others are changed without leaving the selection, and when others are taken out behind the reader's
back only after its position.
-/

namespace Euvieouvi

variable {α : Type*} {p q : α → Bool} {l l' : List α} {n k : Nat} {x : α}

def unvisited (p : α → Bool) (n : Nat) (l : List α) : List α := (l.filter p).drop n

theorem mem_unvisited_zero (hx : x ∈ l) (hp : p x) : x ∈ unvisited p 0 l :=
  List.mem_filter.2 ⟨hx, hp⟩

theorem mem_unvisited_of_sublist (h : l.Sublist l') (hx : x ∈ unvisited p n l) :
    x ∈ unvisited p n l' :=
  ((h.filter p).drop n).subset hx

/-- A wider selection has passed less. -/
theorem mem_unvisited_of_imp (h : ∀ z, p z → q z) (hx : x ∈ unvisited p n l) :
    x ∈ unvisited q n l :=
  ((List.monotone_filter_right l h).drop n).subset hx

theorem mem_unvisited_map {f : α → α} (hf : ∀ z, p z → p (f z)) (hfx : f x = x)
    (hx : x ∈ unvisited p n l) :
    x ∈ unvisited p n (l.map f) := by
  have hsub : (l.filter p).Sublist (l.filter (p ∘ f)) :=
    List.monotone_filter_right l fun z hz => hf z hz
  have hfx' : x ∈ ((l.filter p).map f).drop n := by
    rw [← List.map_drop]
    exact List.mem_map.2 ⟨x, hx, hfx⟩
  show x ∈ ((l.map f).filter p).drop n
  rw [List.filter_map]
  exact ((hsub.map f).drop n).subset hfx'

theorem mem_unvisited_filter (hq : ∀ y ∈ (l.filter p).take n, q y) (hqx : q x)
    (hx : x ∈ unvisited p n l) :
    x ∈ unvisited p n (l.filter q) := by
  have hcomm : (l.filter q).filter p = (l.filter p).filter q := by
    rw [List.filter_filter, List.filter_filter]
    exact List.filter_congr fun z _ => Bool.and_comm _ _
  have hsplit : (l.filter p).filter q = (l.filter p).take n ++ ((l.filter p).drop n).filter q := by
    conv_lhs => rw [← List.take_append_drop n (l.filter p), List.filter_append]
    rw [List.filter_eq_self.2 hq]
  show x ∈ ((l.filter q).filter p).drop n
  have hn : n < (l.filter p).length := by
    by_contra hle
    rw [unvisited, List.drop_eq_nil_of_le (by omega)] at hx
    cases hx
  have hlen : ((l.filter p).take n).length = n := by rw [List.length_take]; omega
  rw [hcomm, hsplit, List.drop_append_of_le_length (by omega), List.drop_eq_nil_of_le (by omega)]
  exact List.mem_filter.2 ⟨hx, hqx⟩

/-- A page takes what it brings from what is still to see, and nothing else. -/
theorem mem_page_or_unvisited (hx : x ∈ unvisited p n l) :
    x ∈ (unvisited p n l).take k ∨ x ∈ unvisited p (n + ((unvisited p n l).take k).length) l := by
  have hsplit : x ∈ (unvisited p n l).take k ++ (unvisited p n l).drop k := by
    rwa [List.take_append_drop]
  rcases List.mem_append.1 hsplit with h | h
  · exact .inl h
  · right
    have hk : k < (unvisited p n l).length := by
      by_contra hle
      rw [List.drop_eq_nil_of_le (by omega)] at h
      cases h
    rw [List.length_take, Nat.min_eq_left (by omega)]
    rwa [unvisited, List.drop_drop] at h

theorem unvisited_eq_nil (h : (l.filter p).length ≤ n) : unvisited p n l = [] :=
  List.drop_eq_nil_of_le h

end Euvieouvi
