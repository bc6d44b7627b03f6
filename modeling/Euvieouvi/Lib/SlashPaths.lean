import Euvieouvi.Lib.Keys

/-!
# Paths of names

A path is a text of names with separators before and between them. `pathNames` reads the names off a
text, and `below` writes names with a separator before each: `pathNames_append_below` is the
equation that everything else follows from. `render lead names` is the text with `lead` separators
in front.
-/

namespace Euvieouvi

variable {α : Type} {sep c : α} {n m : List α} {ns ms : List (List α)} {text rest : List α}
  {lead : Nat}

/-- A name is not empty and holds no separator. -/
def IsName (sep : α) (n : List α) : Prop := n ≠ [] ∧ sep ∉ n

/-- The names, a separator before each. -/
def below (sep : α) (ns : List (List α)) : List α := ns.flatMap (sep :: ·)

def render (sep : α) (lead : Nat) (ns : List (List α)) : List α :=
  List.replicate lead sep ++ [sep].intercalate ns

@[simp] theorem below_nil : below sep [] = [] := rfl

@[simp] theorem below_cons : below sep (n :: ns) = sep :: n ++ below sep ns := rfl

@[simp] theorem below_append : below sep (ns ++ ms) = below sep ns ++ below sep ms :=
  List.flatMap_append

theorem intercalate_cons (n : List α) (ns : List (List α)) :
    [sep].intercalate (n :: ns) = n ++ below sep ns := by
  induction ns generalizing n with
  | nil => simp
  | cons m ns ih => rw [List.intercalate_cons_cons, ih, below_cons]; simp

theorem render_nil : render sep lead [] = List.replicate lead sep := List.append_nil _

theorem render_cons : render sep lead (n :: ns) = List.replicate lead sep ++ n ++ below sep ns := by
  unfold render
  rw [intercalate_cons, List.append_assoc]

theorem render_append (hne : ns ≠ []) :
    render sep lead (ns ++ ms) = render sep lead ns ++ below sep ms := by
  obtain ⟨n, ns, rfl⟩ := List.exists_cons_of_ne_nil hne
  rw [List.cons_append, render_cons, render_cons, below_append, List.append_assoc,
    List.append_assoc, List.append_assoc]

theorem mem_render (h : c ∈ render sep lead ns) : c = sep ∨ ∃ n ∈ ns, c ∈ n := by
  rcases List.mem_append.1 h with h | h
  · exact .inl (List.eq_of_mem_replicate h)
  · cases ns with
    | nil => cases h
    | cons n ns =>
      rw [intercalate_cons, List.mem_append] at h
      rcases h with h | h
      · exact .inr ⟨n, List.mem_cons_self, h⟩
      · obtain ⟨m, hm, h⟩ := List.mem_flatMap.1 h
        rcases List.mem_cons.1 h with h | h
        exacts [.inl h, .inr ⟨m, List.mem_cons_of_mem _ hm, h⟩]

/-- The text of a path ends as its last name does. -/
theorem getLast?_render_concat (hn : n ≠ []) :
    (render sep lead (ns ++ [n])).getLast? = n.getLast? := by
  cases ns with
  | nil =>
    rw [List.nil_append, render_cons, below_nil, List.append_nil]
    exact List.getLast?_append_of_ne_nil _ hn
  | cons m ns =>
    rw [render_append (List.cons_ne_nil m ns), below_cons, below_nil, List.append_nil,
      List.getLast?_append_of_ne_nil _ (List.cons_ne_nil _ _)]
    exact List.getLast?_append_of_ne_nil [sep] hn

theorem getLast?_render (hns : ∀ n ∈ ns, IsName sep n) (hne : ns ≠ []) :
    (render sep lead ns).getLast? ≠ some sep := by
  obtain ⟨ns, n, rfl⟩ := List.eq_nil_or_concat' ns |>.resolve_left hne
  have hn := hns n (List.mem_append_right _ List.mem_cons_self)
  rw [getLast?_render_concat hn.1]
  exact fun h => hn.2 (List.mem_of_getLast? h)

variable [DecidableEq α]

def pathNames (sep : α) (text : List α) : List (List α) :=
  (text.splitOnP (· == sep)).filter (· ≠ [])

theorem not_mem_of_mem_splitOnP (h : n ∈ text.splitOnP (· == sep)) : sep ∉ n := by
  induction text generalizing n with
  | nil => rw [List.splitOnP_nil, List.mem_singleton] at h; exact h ▸ List.not_mem_nil
  | cons c text ih =>
    rw [List.splitOnP_cons_eq_if_modifyHead] at h
    split at h
    · rcases List.mem_cons.1 h with rfl | h
      exacts [List.not_mem_nil, ih h]
    next hc =>
      obtain ⟨first, others, hsplit⟩ :=
        List.exists_cons_of_ne_nil (List.splitOnP_ne_nil (· == sep) text)
      rw [hsplit, List.modifyHead_cons] at h
      rw [hsplit] at ih
      rcases List.mem_cons.1 h with rfl | h
      · rw [List.mem_cons, not_or]
        exact ⟨fun heq => hc (beq_iff_eq.2 heq.symm), ih List.mem_cons_self⟩
      · exact ih (List.mem_cons_of_mem _ h)

theorem isName_of_mem (h : n ∈ pathNames sep text) : IsName sep n := by
  obtain ⟨hmem, hne⟩ := List.mem_filter.1 h
  exact ⟨of_decide_eq_true hne, not_mem_of_mem_splitOnP hmem⟩

theorem mem_of_mem_pathNames (h : n ∈ pathNames sep text) (hc : c ∈ n) : c ∈ text :=
  mem_of_mem_splitOnP (List.mem_filter.1 h).1 hc

@[simp] theorem pathNames_nil : pathNames sep ([] : List α) = [] := by simp [pathNames]

theorem pathNames_of_isName (h : IsName sep n) : pathNames sep n = [n] := by
  have hsplit : n.splitOnP (· == sep) = [n] := List.splitOnP_eq_singleton fun c hc =>
    beq_eq_false_iff_ne.2 fun heq => h.2 (heq ▸ hc)
  unfold pathNames
  rw [hsplit]
  simp [h.1]

theorem pathNames_append_sep (text rest : List α) :
    pathNames sep (text ++ sep :: rest) = pathNames sep text ++ pathNames sep rest := by
  unfold pathNames
  rw [List.splitOnP_append_cons (p := (· == sep)) text rest (beq_self_eq_true sep),
    List.filter_append]

theorem pathNames_sep (rest : List α) : pathNames sep (sep :: rest) = pathNames sep rest := by
  simpa using @pathNames_append_sep _ sep _ [] rest

theorem pathNames_replicate (lead : Nat) (rest : List α) :
    pathNames sep (List.replicate lead sep ++ rest) = pathNames sep rest := by
  induction lead with
  | zero => rfl
  | succ lead ih => rw [List.replicate_succ, List.cons_append, pathNames_sep, ih]

theorem pathNames_append_below (text : List α) (h : ∀ n ∈ ns, IsName sep n) :
    pathNames sep (text ++ below sep ns) = pathNames sep text ++ ns := by
  induction ns generalizing text with
  | nil => simp
  | cons n ns ih =>
    have hn := h n List.mem_cons_self
    have hns : ∀ m ∈ ns, IsName sep m := fun m hm => h m (List.mem_cons_of_mem _ hm)
    rw [below_cons, List.cons_append, pathNames_append_sep, ih n hns, pathNames_of_isName hn]
    rfl

@[simp] theorem pathNames_render (h : ∀ n ∈ ns, IsName sep n) :
    pathNames sep (render sep lead ns) = ns := by
  cases ns with
  | nil =>
    rw [render_nil, ← List.append_nil (List.replicate lead sep), pathNames_replicate, pathNames_nil]
  | cons n ns =>
    rw [render_cons, pathNames_append_below _ fun m hm => h m (List.mem_cons_of_mem _ hm),
      pathNames_replicate,
      pathNames_of_isName (h n List.mem_cons_self)]
    rfl

/-- The names are the text without its separators. -/
theorem flatten_pathNames (text : List α) :
    (pathNames sep text).flatten = text.filter (· ≠ sep) := by
  unfold pathNames
  rw [List.flatten_filter_ne_nil]
  induction text with
  | nil => rfl
  | cons c text ih =>
    rw [List.splitOnP_cons_eq_if_modifyHead]
    split
    next hc => rw [List.filter_cons_of_neg (by simpa using hc), ← ih]; rfl
    next hc =>
      obtain ⟨first, others, hsplit⟩ :=
        List.exists_cons_of_ne_nil (List.splitOnP_ne_nil (· == sep) text)
      rw [List.filter_cons_of_pos (by simpa using hc), ← ih, hsplit]
      rfl

/-- No two separators follow anything else. -/
theorem render_ne_of_doubled (hns : ∀ n ∈ ns, IsName sep n) (hc : c ≠ sep) :
    render sep lead ns ≠ text ++ c :: sep :: sep :: rest := by
  intro h
  induction lead generalizing text with
  | zero =>
    cases ns with
    | nil => exact absurd h.symm (by simp [render])
    | cons n ns =>
      have hsplit : (render sep 0 (n :: ns)).splitOnP (· == sep) = n :: ns :=
        List.splitOn_intercalate sep (fun m hm => (hns m hm).2) (List.cons_ne_nil n ns)
      rw [h, show text ++ c :: sep :: sep :: rest = (text ++ [c]) ++ sep :: sep :: rest by simp,
        List.splitOnP_append_cons (p := (· == sep)) _ _ (beq_self_eq_true sep),
        show sep :: rest = [] ++ sep :: rest from rfl,
        List.splitOnP_append_cons (p := (· == sep)) _ _ (beq_self_eq_true sep)] at hsplit
      have hmem : ([] : List α) ∈ n :: ns := by rw [← hsplit]; simp
      exact (hns [] hmem).1 rfl
  | succ lead ih =>
    cases text with
    | nil => exact hc (List.cons.inj h).1.symm
    | cons c' text => exact ih (List.cons.inj h).2

end Euvieouvi
