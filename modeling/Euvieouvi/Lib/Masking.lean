import Mathlib.Data.List.Basic
import Mathlib.Data.List.TakeWhile
import Mathlib.Data.List.Infix

/-!
# Masking what follows a lead

A pattern of the form `(lead)(gap*)run+`, whose matches are replaced from left to right by their
lead and a fixed mark. A lead takes the whole gap behind it, and gives the end of it back only where
nothing else is left to match.

Masking keeps the text up to the values it masks (`Image`). Its result is clean: every match has the
mark for its value (`clean_sub`), so masking again changes nothing. Masking by another pattern keeps
a text clean where the values that it ends do not run on (`clean_sub_of_clean`).
-/

namespace Euvieouvi

variable {α : Type*}

theorem takeWhile_append_stop {f : α → Bool} {d r : List α} (hd : ∀ e ∈ d, f e = true)
    (hr : ∀ e ∈ r.head?, f e = false) :
    (d ++ r).takeWhile f = d ∧ (d ++ r).dropWhile f = r := by
  rw [List.takeWhile_append_of_pos hd, List.dropWhile_append_of_pos hd]
  cases r with
  | nil => simp
  | cons e r =>
    have he : ¬ f e = true := by rw [hr e rfl]; exact Bool.false_ne_true
    rw [List.takeWhile_cons_of_neg he, List.dropWhile_cons_of_neg he, List.append_nil]
    exact ⟨rfl, rfl⟩

theorem head_dropWhile (f : α → Bool) (x : List α) : ∀ e ∈ (x.dropWhile f).head?, f e = false := by
  intro e he
  have hne : x.dropWhile f ≠ [] := fun hnil => by rw [hnil] at he; cases he
  have hhead := List.head_dropWhile_not f hne
  rw [List.head?_eq_some_head hne] at he
  cases he
  simpa using hhead

structure Pattern (α : Type*) where
  /-- What a match keeps, with the text behind it. -/
  lead : List α → Option (List α × List α)
  /-- What a lead passes over at its end. -/
  gap : α → Bool
  /-- What a value is made of. -/
  run : α → Bool
  append_of_lead : ∀ {t k x}, lead t = some (k, x) → t = k ++ x
  solid_of_lead : ∀ {t k x}, lead t = some (k, x) → ∃ c k', k = c :: k' ∧ gap c = false
  lead_append : ∀ {k x}, lead (k ++ x) = some (k, x) →
    ∀ y, lead (k ++ y) = some (k ++ y.takeWhile gap, y.dropWhile gap)
  /-- Leads that overlap end together. -/
  overlap : ∀ {a b k₁ x₁ k x}, lead (a ++ b) = some (k₁, x₁) → lead b = some (k, x) →
    a.length < k₁.length → k₁ = a ++ k
  kind : (∀ c, gap c = false → run c = true) ∨ (∀ c, gap c = true → run c = false)

namespace Pattern

section Definitions
variable (p : Pattern α) (mark : List α)

/-- Nothing is behind the lead: the last element of its gap that can be a value is one. -/
def retreat (k x : List α) : Option (List α × List α × List α) :=
  match k.reverse.dropWhile fun c => p.gap c && !p.run c with
  | c :: k' =>
    if p.gap c && p.run c then some
      (k'.reverse, [c], (k.reverse.takeWhile fun c => p.gap c && !p.run c).reverse ++ x)
    else none
  | [] => none

/-- A match at the beginning of a text: the lead, the value and the rest. -/
def find (t : List α) : Option (List α × List α × List α) :=
  (p.lead t).bind fun (k, x) =>
    if x.takeWhile p.run = [] then p.retreat k x else some (k, x.takeWhile p.run, x.dropWhile p.run)

/-- Masking behind the first `n` elements. -/
def subFrom : Nat → List α → List α
  | _, [] => []
  | n + 1, _ :: t => subFrom n t
  | 0, c :: t =>
    match p.find (c :: t) with
    | some (k, d, _) => k ++ (mark ++ subFrom (k.length + d.length - 1) t)
    | none => c :: subFrom 0 t

def sub (t : List α) : List α := p.subFrom mark 0 t

end Definitions

/-! ### Matches -/

section Find
variable {p : Pattern α} {mark t k d r x y s : List α} {c : α}

theorem gap_of_lead (h : p.lead t = some (k, c :: x)) : p.gap c = false := by
  have ht := p.append_of_lead h
  have happend := p.lead_append (ht ▸ h) (c :: x)
  rw [← ht, h, Option.some_inj, Prod.mk.injEq] at happend
  by_contra hgap
  rw [Bool.not_eq_false] at hgap
  have hlength := congrArg List.length happend.2
  rw [List.dropWhile_cons_of_pos hgap] at hlength
  have hle := (List.dropWhile_sublist p.gap (l := x)).length_le
  rw [List.length_cons] at hlength
  omega

/-- What is behind a lead does not matter to it, but for a gap. -/
theorem lead_of_gap (h : p.lead (k ++ x) = some (k, x)) (hy : ∀ c ∈ y.head?, p.gap c = false) :
    p.lead (k ++ y) = some (k, y) := by
  rw [p.lead_append h]
  cases y with
  | nil => simp
  | cons c y =>
    have hc : ¬ p.gap c = true := by rw [hy c rfl]; exact Bool.false_ne_true
    rw [List.takeWhile_cons_of_neg hc, List.dropWhile_cons_of_neg hc, List.append_nil]

theorem retreat_eq_none (h : ∀ c, p.gap c = true → p.run c = false) (k x : List α) :
    p.retreat k x = none := by
  unfold retreat
  split
  next c k' _ =>
    refine if_neg fun hc => ?_
    obtain ⟨hgap, hrun⟩ := Bool.and_eq_true_iff.1 hc
    rw [h c hgap] at hrun
    cases hrun
  next => rfl

theorem retreat_some (h : p.retreat k x = some (s, d, r)) : ∃ c w, k = s ++ c :: w ∧ d = [c] ∧
    r = w ++ x ∧
    p.gap c = true ∧ p.run c = true ∧ ∀ e ∈ w, p.run e = false := by
  unfold retreat at h
  split at h
  next c k' hdrop =>
    split at h
    next hc =>
      obtain ⟨hgap, hrun⟩ := Bool.and_eq_true_iff.1 hc
      cases h
      refine ⟨c, _, ?_, rfl, rfl, hgap, hrun, fun e he => ?_⟩
      · have happend :=
          List.takeWhile_append_dropWhile (p := fun c => p.gap c && !p.run c) (l := k.reverse)
        rw [hdrop] at happend
        have hk := congrArg List.reverse happend
        rw [List.reverse_reverse, List.reverse_append, List.reverse_cons, List.append_assoc,
          List.singleton_append] at hk
        exact hk.symm
      · have := List.mem_takeWhile_imp (List.mem_reverse.1 he)
        simpa using (Bool.and_eq_true_iff.1 this).2
    next => cases h
  next => cases h

/-- Where an element of the gap at the end can be a value, the lead gives it back. -/
theorem retreat_ne_none {w : List α} (hw : ∀ e ∈ w, p.gap e = true) (hrun : ∃ e ∈ w, p.run e = true)
    (k x : List α) :
    p.retreat (k ++ w) x ≠ none := by
  obtain ⟨e, he, hrun⟩ := hrun
  have hnot : ¬ ∀ c ∈ w.reverse, (p.gap c && !p.run c) = true := by
    intro hall
    have := hall e (List.mem_reverse.2 he)
    rw [hrun] at this
    simp at this
  have hne : w.reverse.dropWhile (fun c => p.gap c && !p.run c) ≠ [] :=
    fun hnil => hnot (List.dropWhile_eq_nil_iff.1 hnil)
  obtain ⟨c, rest, hrest⟩ := List.exists_cons_of_ne_nil hne
  have hmem : c ∈ w := by
    have : c ∈ w.reverse.dropWhile fun c => p.gap c &&
        !p.run c := by rw [hrest]; exact List.mem_cons_self
    exact List.mem_reverse.1 ((List.dropWhile_sublist _).subset this)
  have hc : (p.gap c && !p.run c) = false := by
    have := List.head_dropWhile_not (fun c => p.gap c && !p.run c) hne
    simpa [hrest] using this
  have happend : (k ++ w).reverse.dropWhile (fun c => p.gap c && !p.run c) =
      c :: (rest ++ k.reverse) := by
    rw [List.reverse_append, List.dropWhile_append, hrest]
    rfl
  unfold retreat
  rw [happend]
  dsimp only
  rw [if_pos]
  · exact fun h => by cases h
  · rw [hw c hmem, Bool.true_and] at hc ⊢
    simpa using hc

theorem find_of_run (h : p.lead t = some (k, x)) (hx : x.takeWhile p.run ≠ []) :
    p.find t = some (k, x.takeWhile p.run, x.dropWhile p.run) := by
  unfold find
  rw [h]
  exact if_neg hx

theorem find_of_lead_none (h : p.lead t = none) : p.find t = none := by
  unfold find
  rw [h]
  rfl

/-- A match is its lead and the longest value behind it, or ends a text that has nothing else behind
the lead. -/
theorem find_some (h : p.find t = some (k, d, r)) :
    (p.lead t = some (k, d ++ r) ∧ d ≠ [] ∧ (d ++ r).takeWhile p.run = d ∧
      (d ++ r).dropWhile p.run = r) ∨
      ∃ c w x, p.lead t = some (k ++ c :: w, x) ∧ x.takeWhile p.run = [] ∧ d = [c] ∧ r = w ++ x ∧
      p.gap c = true ∧
        p.run c = true ∧ ∀ e ∈ w, p.run e = false := by
  unfold find at h
  obtain ⟨⟨K, x⟩, hlead, h⟩ := Option.bind_eq_some_iff.1 h
  dsimp only at h
  split at h
  next hx =>
    obtain ⟨c, w, rfl, hd, hr, hgap, hrun, hw⟩ := retreat_some h
    exact .inr ⟨c, w, x, hlead, hx, hd, hr, hgap, hrun, hw⟩
  next hx =>
    cases h
    rw [List.takeWhile_append_dropWhile]
    exact .inl ⟨hlead, hx, rfl, rfl⟩

theorem head_of_takeWhile_eq_nil (h : x.takeWhile p.run = []) : ∀ e ∈ x.head?, p.run e = false := by
  cases x with
  | nil => exact fun _ he => by cases he
  | cons c x =>
    rintro e ⟨⟩
    by_contra hrun
    rw [Bool.not_eq_false] at hrun
    rw [List.takeWhile_cons_of_pos hrun] at h
    cases h

/-- What a match is made of. -/
structure Match (p : Pattern α) (t k d r : List α) : Prop where
  append : t = k ++ (d ++ r)
  solid : ∃ c k', k = c :: k' ∧ p.gap c = false
  ne_nil : d ≠ []
  run : ∀ e ∈ d, p.run e = true
  stop : ∀ e ∈ r.head?, p.run e = false

theorem match_of_find (h : p.find t = some (k, d, r)) : Match p t k d r := by
  rcases find_some h with ⟨hlead, hne, htake, hdrop⟩ | ⟨c, w, x, hlead, hx, rfl, rfl,
    hgap, hrun, hw⟩
  · refine ⟨p.append_of_lead hlead, p.solid_of_lead hlead, hne, fun e he => ?_, ?_⟩
    · rw [← htake] at he
      exact List.mem_takeWhile_imp he
    · rw [← hdrop]
      exact head_dropWhile p.run _
  · refine ⟨?_, ?_, List.cons_ne_nil c [], fun e he => by
      rw [List.mem_singleton.1 he]; exact hrun, fun e he => ?_⟩
    · rw [p.append_of_lead hlead, List.append_assoc]
      rfl
    · obtain ⟨e, k', heq, he⟩ := p.solid_of_lead hlead
      cases k with
      | nil =>
        obtain ⟨rfl, -⟩ := List.cons.inj heq
        rw [he] at hgap
        cases hgap
      | cons e' k =>
        obtain ⟨rfl, -⟩ := List.cons.inj heq
        exact ⟨_, k, rfl, he⟩
    · cases w with
      | nil => exact head_of_takeWhile_eq_nil hx e he
      | cons e' w =>
        cases he
        exact hw _ List.mem_cons_self

/-- A lead that can have a value behind it has a match, whatever the value. -/
theorem find_ne_none (h : p.lead (k ++ y) = some (k, y)) (hc : p.run c = true) (x : List α) :
    p.find (k ++ c :: x) ≠ none := by
  have hlead := p.lead_append h (c :: x)
  cases hgap : p.gap c with
  | false =>
    rw [List.takeWhile_cons_of_neg (by rw [hgap]; exact Bool.false_ne_true), List.append_nil,
      List.dropWhile_cons_of_neg (by rw [hgap]; exact Bool.false_ne_true)] at hlead
    rw [find_of_run hlead (by rw [List.takeWhile_cons_of_pos hc]; exact List.cons_ne_nil _ _)]
    exact fun h => by cases h
  | true =>
    rcases p.kind with hkind | hkind
    · by_cases hrun : ((c :: x).dropWhile p.gap).takeWhile p.run = []
      · unfold find
        rw [hlead]
        dsimp only [Option.bind_some]
        rw [if_pos hrun]
        refine retreat_ne_none (fun e he => List.mem_takeWhile_imp he) ⟨c, ?_, hc⟩ k _
        rw [List.takeWhile_cons_of_pos hgap]
        exact List.mem_cons_self
      · rw [find_of_run hlead hrun]
        exact fun h => by cases h
    · rw [hkind c hgap] at hc
      cases hc

end Find

section Sub
variable {p : Pattern α} {mark t k d r x y s : List α} {c : α}

@[simp] theorem sub_nil : p.sub mark [] = [] := rfl

theorem subFrom_append (a b : List α) : p.subFrom mark a.length (a ++ b) = p.sub mark b := by
  induction a with
  | nil => rfl
  | cons c a ih => exact ih

theorem sub_plain (h : p.find (c :: t) = none) : p.sub mark (c :: t) = c :: p.sub mark t := by
  unfold sub
  rw [subFrom, h]

theorem sub_found (h : p.find t = some (k, d, r)) : p.sub mark t = k ++ (mark ++ p.sub mark r) := by
  have hmatch := match_of_find h
  obtain ⟨c, k', rfl, -⟩ := hmatch.solid
  obtain rfl := hmatch.append
  have hlength : (c :: k').length + d.length - 1 = (k' ++ d).length := by
    rw [List.length_cons, List.length_append]
    omega
  unfold sub
  rw [List.cons_append, subFrom, ← List.cons_append, h]
  dsimp only
  rw [hlength, ← List.append_assoc k' d r, subFrom_append]
  rfl

/-- A text by its matches from left to right. -/
theorem text_induction {P : List α → Prop} (nil : P [])
    (plain : ∀ c t, p.find (c :: t) = none → P t → P (c :: t))
    (found : ∀ t k d r, p.find t = some (k, d, r) → P r → P t) (t : List α) : P t := by
  induction hn : t.length using Nat.strongRecOn generalizing t with
  | ind n ih =>
    subst hn
    cases t with
    | nil => exact nil
    | cons c t =>
      cases h : p.find (c :: t) with
      | none => exact plain c t h (ih t.length (by simp) t rfl)
      | some found' =>
        obtain ⟨k, d, r⟩ := found'
        have hmatch := match_of_find h
        refine found _ k d r h (ih r.length ?_ r rfl)
        have hlength := congrArg List.length hmatch.append
        rw [List.length_append, List.length_append] at hlength
        have hd := List.length_pos_iff.2 hmatch.ne_nil
        omega

theorem head?_sub (p : Pattern α) (mark t : List α) : (p.sub mark t).head? = t.head? := by
  cases t with
  | nil => rfl
  | cons c t =>
    cases h : p.find (c :: t) with
    | none => rw [sub_plain h]; rfl
    | some found =>
      obtain ⟨k, d, r⟩ := found
      have hmatch := match_of_find h
      obtain ⟨e, k', rfl, -⟩ := hmatch.solid
      rw [sub_found h, hmatch.append]
      rfl

end Sub

/-- What a pattern needs of the mark: it can be a value, no gap reaches into it, and no lead holds
its first element or begins inside it. -/
structure Marks (p : Pattern α) (m : α) (mark : List α) : Prop where
  run : ∀ c ∈ m :: mark, p.run c = true
  gap : ∀ c ∈ m :: mark, p.gap c = false
  notMem : ∀ {t k x}, p.lead t = some (k, x) → m ∉ k
  inside : ∀ a b t, m :: mark = a ++ b → b ≠ [] → p.lead (b ++ t) = none

/-- What masking makes of a text `x` that follows something in the text `u`: the beginning of `x`
may belong to a match. -/
inductive Image (q : Pattern α) (mark u : List α) : List α → List α → Prop
  | scan {x} (hx : x <:+ u) : Image q mark u x (q.sub mark x)
  | kept (k₁) {k₂ d r} (hu : k₁ ++ (k₂ ++ (d ++ r)) <:+ u)
      (h : q.find (k₁ ++ (k₂ ++ (d ++ r))) = some (k₁ ++ k₂, d, r)) :
      Image q mark u (k₂ ++ (d ++ r)) (k₂ ++ (mark ++ q.sub mark r))

namespace Image
variable {q : Pattern α} {u x y k s : List α} {m c : α} {mark : List α}

theorem suffix (h : Image q mark u x y) : x <:+ u := by
  cases h with
  | scan hx => exact hx
  | kept _ hu => exact (List.suffix_append _ _).trans hu

/-- The first element is kept, or a value begins there. -/
theorem cons (h : Image q (m :: mark) u x (c :: y)) :
    (∃ x', x = c :: x' ∧ Image q (m :: mark) u x' y) ∨
    ∃ k d r, q.find (k ++ (d ++ r)) = some (k, d, r) ∧ k ++ (d ++ r) <:+ u ∧ x = d ++ r ∧
      c :: y = (m :: mark) ++ q.sub (m :: mark) r := by
  generalize hz : c :: y = z at h
  cases h with
  | scan hx =>
    cases x with
    | nil => cases hz
    | cons c' t =>
      cases hfind : q.find (c' :: t) with
      | none =>
        rw [sub_plain hfind] at hz
        obtain ⟨rfl, rfl⟩ := List.cons.inj hz
        exact .inl ⟨t, rfl, .scan ((List.suffix_cons _ _).trans hx)⟩
      | some found =>
        obtain ⟨k, d, r⟩ := found
        have hmatch := match_of_find hfind
        obtain ⟨e, k', rfl, -⟩ := hmatch.solid
        rw [sub_found hfind] at hz
        obtain ⟨rfl, rfl⟩ := List.cons.inj hz
        rw [hmatch.append] at hfind hx ⊢
        exact .inl ⟨_, rfl, .kept [c] hx hfind⟩
  | @kept k₁ k₂ d r hu hfind =>
    cases k₂ with
    | nil =>
      rw [List.append_nil] at hfind
      exact .inr ⟨k₁, d, r, hfind, hu, rfl, rfl⟩
    | cons e k₂ =>
      obtain ⟨rfl, rfl⟩ := List.cons.inj hz
      refine .inl ⟨_, rfl, .kept (k₁ ++ [c]) ?_ ?_⟩
      · rwa [List.append_assoc]
      · rw [List.append_assoc, List.append_assoc]
        exact hfind

/-- What the mark is not in is kept. -/
theorem append (h : Image q (m :: mark) u x (k ++ y)) (hk : m ∉ k) :
    ∃ x', x = k ++ x' ∧ Image q (m :: mark) u x' y := by
  induction k generalizing x with
  | nil => exact ⟨x, rfl, h⟩
  | cons c k ih =>
    rcases cons h with ⟨x', rfl, htail⟩ | ⟨k', d, r, -, -, -, heq⟩
    · obtain ⟨x'', rfl, hrest⟩ := ih htail fun hm => hk (List.mem_cons_of_mem c hm)
      exact ⟨x'', rfl, hrest⟩
    · obtain ⟨rfl, -⟩ := List.cons.inj heq
      exact absurd List.mem_cons_self hk

theorem eq_nil (h : Image q (m :: mark) u x y) (hy : y = []) : x = [] := by
  cases h with
  | scan hx =>
    have hhead := head?_sub q (m :: mark) x
    rw [hy] at hhead
    exact List.head?_eq_none_iff.1 hhead.symm
  | kept _ hu hfind => simp at hy

/-- A suffix of the image is the image of a suffix, or begins inside a mark. -/
theorem of_suffix (h : Image q (m :: mark) u x y) (hs : s <:+ y) :
    (∃ x', x' <:+ u ∧ Image q (m :: mark) u x' s) ∨
    ∃ a b t, m :: mark = a ++ b ∧ b ≠ [] ∧ s = b ++ t := by
  induction hn : y.length using Nat.strongRecOn generalizing x y with
  | ind n ih =>
    subst hn
    cases y with
    | nil =>
      obtain rfl := List.suffix_nil.1 hs
      exact .inl ⟨x, h.suffix, h⟩
    | cons c y =>
      rcases List.suffix_cons_iff.1 hs with rfl | hs
      · exact .inl ⟨x, h.suffix, h⟩
      rcases cons h with ⟨x', rfl, htail⟩ | ⟨k, d, r, hfind, hu, rfl, heq⟩
      · exact ih y.length (by simp) htail hs rfl
      · have hr : r <:+ u := (List.suffix_append _ _).trans ((List.suffix_append _ _).trans hu)
        obtain ⟨a, ha⟩ := hs.trans (List.suffix_cons c y)
        rw [heq] at ha
        rcases List.append_eq_append_iff.1 ha with ⟨b, hb, rfl⟩ | ⟨b, -, hb⟩
        · by_cases hnil : b = []
          · subst hnil
            exact .inl ⟨r, hr, .scan hr⟩
          · exact .inr ⟨a, b, _, hb, hnil, rfl⟩
        · refine ih (q.sub (m :: mark) r).length ?_ (.scan hr) ⟨b, hb.symm⟩ rfl
          rw [heq, List.length_append, List.length_cons]
          omega

end Image

/-! ### Clean texts -/

/-- Every match of the text, wherever it begins, has the mark for its value. -/
def Clean (p : Pattern α) (mark u : List α) : Prop :=
  ∀ s, s <:+ u → ∀ k d r, p.find s = some (k, d, r) → d = mark

section Clean
variable {p q : Pattern α} {u t x y s k d r : List α} {m c : α} {mark : List α}

theorem Clean.suffix (h : p.Clean mark u) (hs : s <:+ u) : p.Clean mark s :=
  fun _ hs' => h _ (hs'.trans hs)

theorem sub_eq_self (h : p.Clean mark u) : p.sub mark u = u := by
  induction u using p.text_induction with
  | nil => rfl
  | plain c t hfind ih => rw [sub_plain hfind, ih (h.suffix (List.suffix_cons c t))]
  | found t k d r hfind ih =>
    obtain rfl := h t List.suffix_rfl k d r hfind
    obtain rfl := (match_of_find hfind).append
    rw [sub_found hfind, ih (h.suffix ((List.suffix_append _ _).trans (List.suffix_append _ _)))]

theorem lead_of_find (h : p.find t ≠ none) : ∃ k x, p.lead t = some (k, x) ∧ t = k ++ x := by
  cases hlead : p.lead t with
  | none => exact absurd (find_of_lead_none hlead) h
  | some lead => exact ⟨lead.1, lead.2, rfl, p.append_of_lead hlead⟩

/-- Where the value is missing behind a lead, there is nothing at all behind it. -/
theorem eq_nil_of_find (hlead : p.lead t = some (k, x)) (h : p.find t ≠ none)
    (hx : x.takeWhile p.run = []) : x = [] := by
  rcases p.kind with hkind | hkind
  · cases x with
    | nil => rfl
    | cons c x =>
      rw [List.takeWhile_cons_of_pos (hkind c (gap_of_lead hlead))] at hx
      cases hx
  · refine absurd ?_ h
    unfold find
    rw [hlead]
    exact (if_pos hx).trans (retreat_eq_none hkind k x)

/-- The image of what has no match has none. -/
theorem Image.find_ne_none (hm : p.Marks m mark) (h : Image p (m :: mark) u x y)
    (hy : p.find y ≠ none) : p.find x ≠ none := by
  obtain ⟨k, y', hlead, rfl⟩ := lead_of_find hy
  obtain ⟨x', rfl, himage⟩ := h.append (hm.notMem hlead)
  by_cases hrun : y'.takeWhile p.run = []
  · obtain rfl := eq_nil_of_find hlead hy hrun
    obtain rfl := himage.eq_nil rfl
    exact hy
  · cases y' with
    | nil => exact absurd rfl hrun
    | cons c y' =>
      have hc : p.run c = true := by
        by_contra hc
        exact hrun (List.takeWhile_cons_of_neg hc)
      rcases himage.cons with ⟨x', rfl, -⟩ | ⟨k', d, r, hfind, -, rfl, -⟩
      · exact Pattern.find_ne_none hlead hc x'
      · have hmatch := match_of_find hfind
        obtain ⟨e, d', rfl⟩ := List.exists_cons_of_ne_nil hmatch.ne_nil
        exact Pattern.find_ne_none hlead (hmatch.run e List.mem_cons_self) (d' ++ r)

/-- A lead that begins inside the lead of a match ends where this one does. -/
theorem lead_within {a b : List α} (hm : p.Marks m mark) (hfind : p.find t = some (a ++ b, d, r))
    (hlead : p.lead (b ++ ((m :: mark) ++ y)) = some (k, x)) : k = b ∧ x = (m :: mark) ++ y := by
  obtain ⟨K, X, hK, -⟩ := lead_of_find (p := p) (t := t) (by rw [hfind]; exact fun h => by cases h)
  obtain ⟨w₀, hw₀⟩ : ∃ w₀, K = a ++ (b ++ w₀) := by
    rcases find_some hfind with ⟨hlead', -⟩ | ⟨c, w, x', hlead', -⟩
    · rw [hK] at hlead'
      cases hlead'
      exact ⟨[], by rw [List.append_nil]⟩
    · rw [hK] at hlead'
      cases hlead'
      exact ⟨c :: w, by rw [List.append_assoc]⟩
  have heq := p.append_of_lead hlead
  obtain ⟨w, rfl, rfl⟩ : ∃ w, b = k ++ w ∧ x = w ++ ((m :: mark) ++ y) := by
    rcases List.append_eq_append_iff.1 heq with ⟨w, rfl, hx⟩ | ⟨w, rfl, hx⟩
    · cases w with
      | nil => exact ⟨[], by simp, by simpa using hx.symm⟩
      | cons e w =>
        obtain ⟨rfl, -⟩ := List.cons.inj hx
        exact absurd (List.mem_append_right b List.mem_cons_self) (hm.notMem hlead)
    · exact ⟨w, rfl, hx⟩
  have hnil : w = [] := by
    have hrest := p.lead_append (p.append_of_lead hlead ▸ hlead) (w ++ (w₀ ++ X))
    have ht : t = a ++ (k ++ (w ++ (w₀ ++ X))) := by
      rw [p.append_of_lead hK, hw₀]
      simp
    rw [ht] at hK
    obtain ⟨c, k', rfl, -⟩ := p.solid_of_lead hlead
    have hoverlap := p.overlap hK hrest (by rw [hw₀]; simp)
    rw [hw₀] at hoverlap
    have htake := List.append_cancel_left hoverlap
    rw [List.append_assoc] at htake
    have htake := List.append_cancel_left htake
    cases w with
    | nil => rfl
    | cons e w =>
      have he : e ∈ ((e :: w) ++ (w₀ ++ X)).takeWhile p.gap := htake ▸ List.mem_cons_self
      have hgap := gap_of_lead hlead
      rw [List.mem_takeWhile_imp he] at hgap
      cases hgap
  subst hnil
  simp

/-- What has been masked is clean. -/
theorem clean_sub (hm : p.Marks m mark) (t : List α) :
    p.Clean (m :: mark) (p.sub (m :: mark) t) := by
  induction t using p.text_induction with
  | nil =>
    intro s hs k d r hfind
    obtain rfl := List.suffix_nil.1 hs
    exact absurd ((match_of_find hfind).append)
      (by obtain ⟨c, k', rfl, -⟩ := (match_of_find hfind).solid; simp)
  | plain c t hnone ih =>
    intro s hs k d r hfind
    rw [sub_plain hnone] at hs
    rcases List.suffix_cons_iff.1 hs with rfl | hs
    · have himage : Image p (m :: mark) (c :: t) (c :: t) (c :: p.sub (m :: mark) t) := by
        rw [← sub_plain hnone]
        exact .scan List.suffix_rfl
      exact absurd hnone (himage.find_ne_none hm (by rw [hfind]; exact fun h => by cases h))
    · exact ih s hs k d r hfind
  | found t k d r hfind ih =>
    intro s hs k' d' r' hfind'
    rw [sub_found hfind] at hs
    obtain ⟨k'', x, hlead, -⟩ :=
      lead_of_find (p := p) (t := s) (by rw [hfind']; exact fun h => by cases h)
    obtain ⟨a, ha⟩ := hs
    rcases List.append_eq_append_iff.1 ha with ⟨b, rfl, rfl⟩ | ⟨b, -, hb⟩
    · obtain ⟨rfl, rfl⟩ := lead_within hm hfind hlead
      have hstop : ∀ e ∈ (p.sub (m :: mark) r).head?, p.run e = false := by
        rw [head?_sub]
        exact (match_of_find hfind).stop
      have htake := (takeWhile_append_stop hm.run hstop).1
      rw [find_of_run hlead (by rw [htake]; exact List.cons_ne_nil m mark), htake] at hfind'
      cases hfind'
      rfl
    · rcases List.append_eq_append_iff.1 hb with ⟨b', -, hb'⟩ | ⟨b', hb', rfl⟩
      · exact ih s ⟨b', hb'.symm⟩ k' d' r' hfind'
      · by_cases hnil : b' = []
        · subst hnil
          exact ih _ List.suffix_rfl k' d' r' hfind'
        · rw [hm.inside _ _ _ hb' hnil] at hlead
          cases hlead

theorem sub_inside {a b : List α} (hm : p.Marks m mark) (hb : m :: mark = a ++ b) (x : List α) :
    p.sub (m :: mark) (b ++ x) = b ++ p.sub (m :: mark) x := by
  induction b generalizing a with
  | nil => rfl
  | cons c b ih =>
    have hnone := find_of_lead_none (hm.inside a (c :: b) x hb (List.cons_ne_nil c b))
    rw [List.cons_append] at hnone
    rw [List.cons_append, sub_plain hnone, ih (a := a ++ [c]) (by rw [hb]; simp)]
    rfl

/-- The values of `q` end where a value of `p` cannot go on, or go on wherever one of `p` can. -/
def EndsApart (p q : Pattern α) (u : List α) : Prop := (∀ c, q.run c = true → p.run c = true) ∨
  ∀ t k d r, t <:+ u → q.find t = some (k, d, r) → ∀ e ∈ r.head?, p.run e = false

/-- What begins with the mark keeps it. -/
theorem Image.of_mark (hq : q.Marks m mark) (hapart : EndsApart p q u)
    (hr : ∀ e ∈ r.head?, p.run e = false)
    (h : Image q (m :: mark) u ((m :: mark) ++ r) y) :
    ∃ r', y = (m :: mark) ++ r' ∧ ∀ e ∈ r'.head?, p.run e = false := by
  generalize hx : (m :: mark) ++ r = x at h
  cases h with
  | scan hu =>
    refine ⟨q.sub (m :: mark) r, ?_, by rwa [head?_sub]⟩
    rw [← hx]
    exact sub_inside (a := []) hq rfl r
  | @kept k₁ k₂ d r₂ hu hfind =>
    have hmatch := match_of_find hfind
    cases k₂ with
    | cons c k₂ =>
      obtain ⟨rfl, -⟩ := List.cons.inj hx
      obtain ⟨K, X, hK, hKX⟩ := lead_of_find (p := q) (by rw [hfind]; exact fun h => by cases h)
      refine absurd ?_ (hq.notMem hK)
      rcases find_some hfind with ⟨hlead, -⟩ | ⟨e, w, x', hlead, -⟩
      · rw [hK] at hlead
        cases hlead
        simp
      · rw [hK] at hlead
        cases hlead
        simp
    | nil =>
      rw [List.append_nil] at hfind
      rw [List.nil_append] at hx
      refine ⟨q.sub (m :: mark) r₂, rfl, ?_⟩
      rw [head?_sub]
      rcases hapart with hrun | hstop
      · -- The value is the mark: its next element is no value of either pattern.
        rcases List.append_eq_append_iff.1 hx with ⟨w, hd, hr₂⟩ | ⟨w, hd, hr₂⟩
        · cases w with
          | nil => rw [← show r = r₂ by simpa using hr₂]; exact hr
          | cons e w =>
            have he : q.run e = true := hmatch.run e (by rw [hd]; simp)
            have hstop := hr e (by rw [hr₂]; rfl)
            rw [hrun e he] at hstop
            cases hstop
        · cases w with
          | nil => rw [show r₂ = r by simpa using hr₂]; exact hr
          | cons e w =>
            have he := hmatch.stop e (by rw [hr₂]; rfl)
            rw [hq.run e (by rw [hd]; simp)] at he
            cases he
      · exact hstop _ _ _ _ hu hfind

/-- Masking by another pattern keeps a text clean. -/
theorem clean_sub_of_clean (hp : p.Marks m mark) (hq : q.Marks m mark)
    (hgap : ∀ c, q.run c = true → p.gap c = false)
    (hapart : EndsApart p q u) (hu : p.Clean (m :: mark) u) :
    p.Clean (m :: mark) (q.sub (m :: mark) u) := by
  intro s hs k d r hfind
  obtain ⟨k', y, hlead, rfl⟩ :=
    lead_of_find (p := p) (t := s) (by rw [hfind]; exact fun h => by cases h)
  have hscan : Image q (m :: mark) u u (q.sub (m :: mark) u) := .scan List.suffix_rfl
  rcases hscan.of_suffix hs with ⟨x', hx', hwhole⟩ | ⟨a, b, t, hb, hne, hs⟩
  · obtain ⟨x, rfl, himage⟩ := hwhole.append (hp.notMem hlead)
    by_cases hrun : y.takeWhile p.run = []
    · -- There is nothing behind the lead, and there was nothing before.
      obtain rfl := eq_nil_of_find hlead (by rw [hfind]; exact fun h => by cases h) hrun
      obtain rfl := himage.eq_nil rfl
      exact hu _ hx' k d r hfind
    · rw [find_of_run hlead hrun] at hfind
      cases hfind
      obtain ⟨c, y, rfl⟩ : ∃ c y', y = c :: y' :=
        List.exists_cons_of_ne_nil (by rintro rfl; exact hrun rfl)
      have hc : p.run c = true := by
        by_contra hc
        exact hrun (List.takeWhile_cons_of_neg hc)
      obtain ⟨e, x, rfl, hgap'⟩ : ∃ e x', x = e :: x' ∧ p.gap e = false := by
        rcases himage.cons with ⟨x', rfl, -⟩ | ⟨k₁, d, r, hfind, -, rfl, -⟩
        · exact ⟨c, x', rfl, gap_of_lead hlead⟩
        · obtain ⟨e, d', rfl⟩ := List.exists_cons_of_ne_nil (match_of_find hfind).ne_nil
          exact ⟨e, d' ++ r, rfl, hgap e ((match_of_find hfind).run e List.mem_cons_self)⟩
      have hlead' : p.lead (k ++ e :: x) = some (k, e :: x) :=
        lead_of_gap hlead fun e' he' => by cases he'; exact hgap'
      by_cases he : p.run e = true
      · have hmark := hu _ hx' _ _ _
          (find_of_run hlead' (by rw [List.takeWhile_cons_of_pos he]; exact List.cons_ne_nil _ _))
        have hsplit := List.takeWhile_append_dropWhile (p := p.run) (l := e :: x)
        rw [hmark] at hsplit
        rw [← hsplit] at himage
        obtain ⟨r', hr', hstop⟩ := himage.of_mark hq hapart (head_dropWhile p.run _)
        rw [hr']
        exact (takeWhile_append_stop hp.run hstop).1
      · -- A value of the other pattern has begun where none of this one could.
        rcases himage.cons with ⟨x', heq, -⟩ | ⟨k₁, d, r, hfind, hu', heq, hy⟩
        · obtain ⟨rfl, -⟩ := List.cons.inj heq
          exact absurd hc he
        · obtain ⟨e', d', rfl⟩ := List.exists_cons_of_ne_nil (match_of_find hfind).ne_nil
          obtain ⟨rfl, -⟩ := List.cons.inj heq
          rcases hapart with hrun' | hstop
          · exact absurd (hrun' e ((match_of_find hfind).run e List.mem_cons_self)) he
          · rw [hy]
            refine (takeWhile_append_stop hp.run ?_).1
            rw [head?_sub]
            exact hstop _ _ _ _ hu' hfind
  · rw [hs, hp.inside _ _ _ hb hne] at hlead
    cases hlead

end Clean

end Pattern

end Euvieouvi
