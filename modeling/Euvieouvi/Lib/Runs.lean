import Mathlib.Data.List.Basic

/-!
# Runs of a step function

A system is a function `step : σ → ε → σ`; a run is the fold of `step` over a list of events.
`Along step ok s es` says that each event of the run is allowed in the state it meets. An invariant
that every allowed step keeps holds after every allowed run (`Along.invariant`), and a reflexive and
transitive relation that every allowed step respects relates the ends of the run (`Along.relation`).
`Inevitable step goal s` says that every sequence of events leads from `s` to the goal.
-/

namespace Euvieouvi

variable {σ ε : Type*} {step : σ → ε → σ} {ok : σ → ε → Prop}

def Along (step : σ → ε → σ) (ok : σ → ε → Prop) : σ → List ε → Prop
  | _, [] => True
  | s, e :: es => ok s e ∧ Along step ok (step s e) es

instance [∀ s e, Decidable (ok s e)] : ∀ (s : σ) (es : List ε), Decidable (Along step ok s es)
  | _, [] => inferInstanceAs (Decidable True)
  | s, e :: es =>
    have := instDecidableAlong (step s e) es
    inferInstanceAs (Decidable (ok s e ∧ Along step ok (step s e) es))

namespace Along
variable {s : σ} {es es' : List ε} {e : ε}

theorem append : Along step ok s (es ++ es') ↔ Along step ok s es ∧
    Along step ok (es.foldl step s) es' := by
  induction es generalizing s with
  | nil => simp [Along]
  | cons e es ih => simp [Along, ih, and_assoc]

theorem snoc : Along step ok s (es ++ [e]) ↔ Along step ok s es ∧ ok (es.foldl step s) e := by
  rw [append]; simp [Along]

theorem invariant {I : σ → Prop} (hstep : ∀ s e, I s → ok s e → I (step s e)) (hs : I s)
    (h : Along step ok s es) : I (es.foldl step s) := by
  induction es generalizing s with
  | nil => exact hs
  | cons e es ih => exact ih (hstep s e hs h.1) h.2

/-- Where a step keeps the invariant exactly when it is allowed, a run stays inside the invariant
exactly when all its steps are. -/
theorem iff_invariant {I : σ → Prop} (hstep : ∀ s e, I s → (I (step s e) ↔ ok s e)) (hs : I s) :
    (∀ pre, pre <+: es → I (pre.foldl step s)) ↔ Along step ok s es := by
  constructor
  · intro h
    induction es generalizing s with
    | nil => trivial
    | cons e es ih =>
      have he : I (step s e) := h [e] ⟨es, rfl⟩
      refine ⟨(hstep s e hs).1 he, ih he fun pre hpre => ?_⟩
      obtain ⟨suf, rfl⟩ := hpre
      exact h (e :: pre) ⟨suf, rfl⟩
  · rintro h pre ⟨suf, rfl⟩
    exact (append.1 h).1.invariant (fun s e hs hok => (hstep s e hs).2 hok) hs

/-- A property that the invariant gives holds in every state of an allowed run exactly when all its
steps meet the condition, if a step from the invariant that keeps the property meets it. -/
theorem iff_property {ok' : σ → ε → Prop} {I P : σ → Prop} (hI : ∀ s, I s → P s)
    (hkeep : ∀ s e, I s → ok s e → ok' s e → I (step s e))
    (hback : ∀ s e, I s → P (step s e) → ok' s e) (hs : I s)
    (h : Along step ok s es) : (∀ pre, pre <+: es → P (pre.foldl step s)) ↔
    Along step ok' s es := by
  induction es generalizing s with
  | nil =>
    refine ⟨fun _ => trivial, fun _ pre hpre => ?_⟩
    rw [List.prefix_nil.1 hpre]
    exact hI s hs
  | cons e es ih =>
    constructor
    · intro hP
      have hok : ok' s e := hback s e hs (hP [e] ⟨es, rfl⟩)
      refine ⟨hok, (ih (hkeep s e hs h.1 hok) h.2).1 fun pre hpre => ?_⟩
      obtain ⟨suf, rfl⟩ := hpre
      exact hP (e :: pre) ⟨suf, rfl⟩
    · rintro ⟨hok, hrest⟩ pre hpre
      rcases pre with - | ⟨e', pre⟩
      · exact hI s hs
      · obtain ⟨rfl, hsuf⟩ := List.cons_prefix_cons.1 hpre
        exact (ih (hkeep s e' hs h.1 hok) h.2).2 hrest pre hsuf

/-- A run is allowed exactly when each of its events is allowed where it happens. -/
theorem iff_forall_prefix :
    Along step ok s es ↔ ∀ pre e, pre ++ [e] <+: es → ok (pre.foldl step s) e := by
  constructor
  · rintro h pre e ⟨suf, rfl⟩
    exact (snoc.1 (append.1 h).1).2
  · intro h
    induction es generalizing s with
    | nil => trivial
    | cons e es ih =>
      refine ⟨h [] e ⟨es, rfl⟩, ih fun pre e' hpre => ?_⟩
      obtain ⟨suf, rfl⟩ := hpre
      exact h (e :: pre) e' ⟨suf, rfl⟩

theorem relation {I : σ → Prop} {R : σ → σ → Prop} (hrefl : ∀ s, R s s)
    (htrans : ∀ s t u, R s t → R t u → R s u) (hI : ∀ s e, I s → ok s e → I (step s e))
    (hR : ∀ s e, I s → ok s e → R s (step s e)) (hs : I s) (h : Along step ok s es) :
    R s (es.foldl step s) := by
  induction es generalizing s with
  | nil => exact hrefl s
  | cons e es ih => exact htrans _ _ _ (hR s e hs h.1) (ih (hI s e hs h.1) h.2)

end Along

inductive Inevitable (step : σ → ε → σ) (goal : σ → Prop) : σ → Prop
  | here {s : σ} : goal s → Inevitable step goal s
  | next {s : σ} : (∀ e, Inevitable step goal (step s e)) → Inevitable step goal s

theorem Inevitable.exists_run {goal : σ → Prop} {s : σ} (h : Inevitable step goal s)
    (es : Nat → ε) :
    ∃ m, goal (((List.range m).map es).foldl step s) := by
  induction h generalizing es with
  | here hgoal => exact ⟨0, hgoal⟩
  | next _ ih =>
    obtain ⟨m, hm⟩ := ih (es 0) fun i => es (i + 1)
    refine ⟨m + 1, ?_⟩
    rw [List.range_succ_eq_map, List.map_cons, List.foldl_cons, List.map_map]
    exact hm

end Euvieouvi
