import Mathlib.Data.List.Basic
import Mathlib.Order.MinMax

/-!
# The latest and the earliest of optional values

Columns that may be null are combined with `latest` (a maximum with `none` as neutral element) and
`earliest` (a minimum with `none` as neutral element). `latestOf` folds `latest` over a list; it
depends only on which values occur (`latestOf_congr`), so it does not matter in which order, or how
often, rows are read. `NotLater` is the order in which a column never moves back.
-/

namespace Euvieouvi

variable {α : Type*} [LinearOrder α]

def latest : Option α → Option α → Option α
  | none, b => b
  | some a, none => some a
  | some a, some b => if b ≤ a then some a else some b

def earliest : Option α → Option α → Option α
  | none, b => b
  | some a, none => some a
  | some a, some b => if a ≤ b then some a else some b

/-- `a` is null, or `b` holds a value that is at least as late. -/
def NotLater (a b : Option α) : Prop := ∀ x, a = some x → ∃ y, b = some y ∧ x ≤ y

@[simp] theorem latest_none_left (b : Option α) : latest none b = b := rfl

@[simp] theorem latest_none_right (a : Option α) : latest a none = a := by cases a <;> rfl

@[simp] theorem earliest_none_left (b : Option α) : earliest none b = b := rfl

@[simp] theorem earliest_none_right (a : Option α) : earliest a none = a := by cases a <;> rfl

theorem latest_some_some (a b : α) : latest (some a) (some b) = some (max a b) := by
  by_cases h : b ≤ a
  · rw [max_eq_left h]; exact if_pos h
  · rw [max_eq_right (le_of_not_ge h)]; exact if_neg h

theorem earliest_some_some (a b : α) : earliest (some a) (some b) = some (min a b) := by
  by_cases h : a ≤ b
  · rw [min_eq_left h]; exact if_pos h
  · rw [min_eq_right (le_of_not_ge h)]; exact if_neg h

theorem latest_comm (a b : Option α) : latest a b = latest b a := by
  cases a <;> cases b <;> simp [latest_some_some, max_comm]

theorem latest_assoc (a b c : Option α) : latest (latest a b) c = latest a (latest b c) := by
  cases a <;> cases b <;> cases c <;> simp [latest_some_some, max_assoc]

@[simp] theorem latest_self (a : Option α) : latest a a = a := by
  cases a <;> simp [latest_some_some]

theorem latest_eq_none {a b : Option α} : latest a b = none ↔ a = none ∧ b = none := by
  cases a <;> cases b <;> simp [latest_some_some]

namespace NotLater
variable {a b c : Option α}

theorem refl (a : Option α) : NotLater a a := fun x h => ⟨x, h, le_rfl⟩

theorem trans (hab : NotLater a b) (hbc : NotLater b c) : NotLater a c := by
  intro x hx
  obtain ⟨y, hy, hxy⟩ := hab x hx
  obtain ⟨z, hz, hyz⟩ := hbc y hy
  exact ⟨z, hz, hxy.trans hyz⟩

theorem latest_left (a b : Option α) : NotLater a (latest a b) := by
  rintro x rfl
  cases b with
  | none => exact ⟨x, rfl, le_rfl⟩
  | some y => exact ⟨max x y, latest_some_some x y, le_max_left x y⟩

theorem latest_right (a b : Option α) : NotLater b (latest a b) :=
  latest_comm a b ▸ latest_left b a

end NotLater

def latestOf (l : List (Option α)) : Option α := l.foldl latest none

theorem foldl_latest (a : Option α) (l : List (Option α)) :
    l.foldl latest a = latest a (latestOf l) := by
  unfold latestOf
  induction l generalizing a with
  | nil => simp
  | cons b l ih =>
    simp only [List.foldl_cons]
    rw [ih (latest a b), ih (latest none b), latest_none_left, latest_assoc]

@[simp] theorem latestOf_nil : latestOf ([] : List (Option α)) = none := rfl

theorem latestOf_cons (a : Option α) (l : List (Option α)) :
    latestOf (a :: l) = latest a (latestOf l) := by
  show (a :: l).foldl latest none = _
  rw [List.foldl_cons, latest_none_left, foldl_latest]

theorem latestOf_eq_none {l : List (Option α)} : latestOf l = none ↔ ∀ a ∈ l, a = none := by
  induction l with
  | nil => simp
  | cons b l ih => simp [latestOf_cons, latest_eq_none, ih]

theorem le_latestOf {l : List (Option α)} {a : Option α} (h : a ∈ l) : NotLater a (latestOf l) := by
  induction l with
  | nil => cases h
  | cons b l ih =>
    rw [latestOf_cons]
    rcases List.mem_cons.1 h with rfl | h
    · exact NotLater.latest_left _ _
    · exact (ih h).trans (NotLater.latest_right _ _)

theorem latestOf_mem {l : List (Option α)} {x : α} (h : latestOf l = some x) : some x ∈ l := by
  induction l with
  | nil => cases h
  | cons b l ih =>
    rw [latestOf_cons] at h
    cases b with
    | none => exact List.mem_cons_of_mem _ (ih (by simpa using h))
    | some b =>
      cases hl : latestOf l with
      | none => rw [hl, latest_none_right] at h; simp [h]
      | some y =>
        rw [hl, latest_some_some] at h
        rcases max_choice b y with hm | hm <;> rw [hm] at h
        · simp [h]
        · exact List.mem_cons_of_mem _ (ih (hl.trans h))

theorem latestOf_eq_some {l : List (Option α)} {x : α} :
    latestOf l = some x ↔ some x ∈ l ∧ ∀ y, some y ∈ l → y ≤ x := by
  constructor
  · intro h
    refine ⟨latestOf_mem h, fun y hy => ?_⟩
    obtain ⟨z, hz, hyz⟩ := le_latestOf hy y rfl
    rw [h] at hz; cases hz; exact hyz
  · rintro ⟨hx, hmax⟩
    obtain ⟨z, hz, hxz⟩ := le_latestOf hx x rfl
    rw [hz, le_antisymm (hmax z (latestOf_mem hz)) hxz]

theorem earliest_assoc (a b c : Option α) :
    earliest (earliest a b) c = earliest a (earliest b c) := by
  cases a <;> cases b <;> cases c <;> simp [earliest_some_some, min_assoc]

theorem earliest_comm (a b : Option α) : earliest a b = earliest b a := by
  cases a <;> cases b <;> simp [earliest_some_some, min_comm]

def earliestOf (l : List (Option α)) : Option α := l.foldl earliest none

theorem foldl_earliest (a : Option α) (l : List (Option α)) :
    l.foldl earliest a = earliest a (earliestOf l) := by
  unfold earliestOf
  induction l generalizing a with
  | nil => simp
  | cons b l ih =>
    simp only [List.foldl_cons]
    rw [ih (earliest a b), ih (earliest none b), earliest_none_left, earliest_assoc]

theorem earliestOf_append (l l' : List (Option α)) : earliestOf (l ++ l') = earliest (earliestOf l)
    (earliestOf l') := by
  rw [← foldl_earliest, earliestOf, List.foldl_append]; rfl

theorem earliestOf_perm {l l' : List (Option α)} (h : l.Perm l') :
    earliestOf l = earliestOf l' := by
  unfold earliestOf
  refine h.foldl_eq' (fun a _ b _ c => ?_) none
  rw [earliest_assoc, earliest_comm a b, ← earliest_assoc]

/-- Only the values that occur decide the latest one. -/
theorem latestOf_congr {l l' : List (Option α)} (h : ∀ x, some x ∈ l ↔ some x ∈ l') :
    latestOf l = latestOf l' := by
  cases hl : latestOf l with
  | none =>
    refine (latestOf_eq_none.2 fun a ha => ?_).symm
    cases a with
    | none => rfl
    | some x => exact absurd (latestOf_eq_none.1 hl _ ((h x).2 ha)) (by simp)
  | some x =>
    obtain ⟨hx, hmax⟩ := latestOf_eq_some.1 hl
    exact (latestOf_eq_some.2 ⟨(h x).1 hx, fun y hy => hmax y ((h y).2 hy)⟩).symm

end Euvieouvi
