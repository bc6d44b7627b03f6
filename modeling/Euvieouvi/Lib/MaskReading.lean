import Euvieouvi.Lib.Masking
import Mathlib.Data.List.Count

/-!
# Reading a text that is masked

`pass` reads a text with a pattern up to its end. It tells whether a value is being read there, and
what masking makes of the text before. A value that is being read is masked with the text behind it,
whatever that is (`sub_of_open`); where none is, the text behind is read from its beginning
(`sub_of_closed`), and a lead at its beginning is found (`sub_of_closed_lead`).
-/

namespace Euvieouvi

namespace Pattern
variable {α : Type*}

section Definitions
variable (p : Pattern α) (mark : List α)

/-- Reading behind the first `n` elements. -/
def passFrom : Nat → List α → List α × Bool
  | _, [] => ([], false)
  | n + 1, _ :: t => passFrom n t
  | 0, c :: t =>
    match p.lead (c :: t) with
    | some (k, x) =>
      if x.dropWhile p.run = [] then (k, true)
      else if x.takeWhile p.run = [] then (passFrom 0 t).map (c :: ·) id
      else (passFrom (k.length + (x.takeWhile p.run).length - 1) t).map
        (fun left => k ++ (mark ++ left)) id
    | none => (passFrom 0 t).map (c :: ·) id

/-- What has become of the text, without the value that is being read at its end, if there is
one. -/
def pass (t : List α) : List α × Bool := p.passFrom mark 0 t

end Definitions

section Pass
variable {p : Pattern α} {mark t k d r x y s a b : List α} {c : α}

@[simp] theorem pass_nil : p.pass mark [] = ([], false) := rfl

theorem passFrom_append (a b : List α) : p.passFrom mark a.length (a ++ b) = p.pass mark b := by
  induction a with
  | nil => rfl
  | cons c a ih => exact ih

theorem pass_plain (h : p.lead (c :: t) = none ∨
      ∃ k x, p.lead (c :: t) = some (k, x) ∧ x.takeWhile p.run = [] ∧ x.dropWhile p.run ≠ []) :
    p.pass mark (c :: t) = (p.pass mark t).map (c :: ·) id := by
  unfold pass
  rw [passFrom]
  rcases h with h | ⟨k, x, h, htake, hdrop⟩
  · rw [h]
  · rw [h]
    dsimp only
    rw [if_neg hdrop, if_pos htake]

theorem pass_open (h : p.lead t = some (k, x)) (hx : x.dropWhile p.run = []) :
    p.pass mark t = (k, true) := by
  obtain ⟨c, k', hk, -⟩ := p.solid_of_lead h
  obtain ⟨t', rfl⟩ : ∃ t', t = c :: t' := ⟨k' ++ x, by rw [p.append_of_lead h, hk]; rfl⟩
  unfold pass
  rw [passFrom, h]
  exact if_pos hx

theorem pass_found (h : p.lead t = some (k, x)) (htake : x.takeWhile p.run ≠ [])
    (hdrop : x.dropWhile p.run ≠ []) :
    p.pass mark t = (p.pass mark (x.dropWhile p.run)).map (fun left => k ++ (mark ++ left)) id := by
  obtain ⟨c, k', rfl, -⟩ := p.solid_of_lead h
  have ht : t = c :: ((k' ++ x.takeWhile p.run) ++ x.dropWhile p.run) := by
    rw [p.append_of_lead h, List.append_assoc, List.takeWhile_append_dropWhile]
    rfl
  have hlength : (c :: k').length + (x.takeWhile p.run).length - 1 =
      (k' ++ x.takeWhile p.run).length := by
    rw [List.length_cons, List.length_append]
    omega
  unfold pass
  rw [ht, passFrom, ← ht, h]
  dsimp only
  rw [if_neg hdrop, if_neg htake, hlength, passFrom_append]
  rfl

/-- A text as `pass` goes through it. -/
theorem pass_induction {P : List α → Prop} (p : Pattern α) (nil : P [])
    (plain : ∀ c t, (p.lead (c :: t) = none ∨
      ∃ k x, p.lead (c :: t) = some (k, x) ∧ x.takeWhile p.run = [] ∧ x.dropWhile p.run ≠ []) →
        P t → P (c :: t))
    (last : ∀ t k x, p.lead t = some (k, x) → x.dropWhile p.run = [] → P t)
    (found : ∀ t k x, p.lead t = some (k, x) → x.takeWhile p.run ≠ [] → x.dropWhile p.run ≠ [] →
      P (x.dropWhile p.run) → P t)
    (t : List α) : P t := by
  induction hn : t.length using Nat.strongRecOn generalizing t with
  | ind n ih =>
    subst hn
    cases t with
    | nil => exact nil
    | cons c t =>
      cases h : p.lead (c :: t) with
      | none => exact plain c t (.inl h) (ih t.length (by simp) t rfl)
      | some lead =>
        obtain ⟨k, x⟩ := lead
        by_cases hdrop : x.dropWhile p.run = []
        · exact last _ k x h hdrop
        by_cases htake : x.takeWhile p.run = []
        · exact plain c t (.inr ⟨k, x, h, htake, hdrop⟩) (ih t.length (by simp) t rfl)
        · refine found _ k x h htake hdrop (ih (x.dropWhile p.run).length ?_ _ rfl)
          rw [p.append_of_lead h, ← List.takeWhile_append_dropWhile (p := p.run) (l := x),
            List.length_append, List.length_append]
          have := List.length_pos_iff.2 htake
          simp only [List.takeWhile_append_dropWhile]
          omega

/-- What the text behind has to be for a value to go on in it. -/
structure Continues (p : Pattern α) (y : List α) : Prop where
  head : ∃ c y', y = c :: y' ∧ p.gap c = false ∧ p.run c = true

theorem Continues.gap (h : Continues p y) : ∀ c ∈ y.head?, p.gap c = false := by
  obtain ⟨c, y', rfl, hgap, -⟩ := h.head
  rintro e ⟨⟩
  exact hgap

/-- A lead does not depend on what follows the text. -/
theorem lead_append_right (hy : ∀ c ∈ y.head?, p.gap c = false) (h : p.lead s = some (k, x)) :
    p.lead (s ++ y) = some (k, x ++ y) := by
  obtain rfl := p.append_of_lead h
  rw [List.append_assoc]
  refine lead_of_gap h fun c hc => ?_
  cases x with
  | nil => exact hy c hc
  | cons e x =>
    cases hc
    exact gap_of_lead h

theorem lead_of_append (h : p.lead (s ++ y) = some (k, x)) (hlength : k.length ≤ s.length) :
    ∃ x', p.lead s = some (k, x') ∧ x = x' ++ y := by
  rcases List.append_eq_append_iff.1 (p.append_of_lead h) with ⟨w, hk, hy⟩ | ⟨w, rfl, rfl⟩
  · obtain rfl : w = [] := by
      have := congrArg List.length hk
      rw [List.length_append] at this
      exact List.eq_nil_of_length_eq_zero (by omega)
    rw [List.append_nil] at hk
    rw [List.nil_append] at hy
    subst hk hy
    have hlead := lead_of_gap (y := []) h fun c hc => by cases hc
    rw [List.append_nil] at hlead
    exact ⟨[], hlead, rfl⟩
  · refine ⟨w, ?_, rfl⟩
    rw [List.append_assoc] at h
    refine lead_of_gap h fun c hc => ?_
    cases w with
    | nil => cases hc
    | cons e w =>
      cases hc
      exact gap_of_lead h

theorem find_append_open (hy : Continues p y) (h : p.lead s = some (k, x))
    (hx : x.dropWhile p.run = []) :
    p.find (s ++ y) = some (k, x ++ y.takeWhile p.run, y.dropWhile p.run) := by
  obtain ⟨c, y', rfl, hgap, hrun⟩ := hy.head
  have hall := List.dropWhile_eq_nil_iff.1 hx
  have hlead := lead_append_right (y := c :: y') (fun e he => by cases he; exact hgap) h
  have htake : (x ++ c :: y').takeWhile p.run = x ++ (c :: y').takeWhile p.run :=
    List.takeWhile_append_of_pos hall
  have hdrop : (x ++ c :: y').dropWhile p.run = (c :: y').dropWhile p.run :=
    List.dropWhile_append_of_pos hall
  have hne : (x ++ c :: y').takeWhile p.run ≠ [] := by
    rw [htake, List.takeWhile_cons_of_pos hrun]
    simp
  rw [find_of_run hlead hne, htake, hdrop]

theorem find_append_found (hy : ∀ c ∈ y.head?, p.gap c = false) (h : p.lead s = some (k, x))
    (htake : x.takeWhile p.run ≠ [])
    (hdrop : x.dropWhile p.run ≠ []) :
    p.find (s ++ y) = some (k, x.takeWhile p.run, x.dropWhile p.run ++ y) := by
  have hlead := lead_append_right hy h
  obtain ⟨c, r, hr⟩ := List.exists_cons_of_ne_nil hdrop
  have hstop : ∀ e ∈ (x.dropWhile p.run ++ y).head?, p.run e = false := by
    intro e he
    rw [hr] at he
    cases he
    exact head_dropWhile p.run x _ (by rw [hr]; rfl)
  have hsplit :=
    takeWhile_append_stop (f := p.run) (d := x.takeWhile p.run) (r := x.dropWhile p.run ++ y)
    (fun e he => List.mem_takeWhile_imp he) hstop
  rw [← List.append_assoc, List.takeWhile_append_dropWhile] at hsplit
  rw [find_of_run hlead (by rw [hsplit.1]; exact htake), hsplit.1, hsplit.2]

theorem find_append_plain (hy : ∀ c ∈ y.head?, p.gap c = false) (h : p.lead s = some (k, x))
    (htake : x.takeWhile p.run = []) (hdrop : x.dropWhile p.run ≠ []) : p.find (s ++ y) = none := by
  have hlead := lead_append_right hy h
  obtain ⟨c, x', rfl⟩ : ∃ c x', x = c :: x' :=
    List.exists_cons_of_ne_nil (by rintro rfl; exact hdrop rfl)
  have hc : p.run c = false := head_of_takeWhile_eq_nil htake c rfl
  rcases p.kind with hkind | hkind
  · rw [hkind c (gap_of_lead h)] at hc
    cases hc
  · unfold find
    rw [hlead]
    refine (if_pos ?_).trans (retreat_eq_none hkind k _)
    rw [List.cons_append, List.takeWhile_cons_of_neg (by rw [hc]; exact Bool.false_ne_true)]

/-- Where a value is being read, there is its lead. -/
theorem exists_lead_of_open (h : (p.pass mark t).2 = true) :
    ∃ a k x, t = a ++ (k ++ x) ∧ p.lead (k ++ x) = some (k, x) := by
  induction t using p.pass_induction with
  | nil => cases h
  | plain c t hplain ih =>
    rw [pass_plain hplain] at h
    obtain ⟨a, k, x, rfl, hlead⟩ := ih h
    exact ⟨c :: a, k, x, rfl, hlead⟩
  | last t k x hlead _ =>
    obtain rfl := p.append_of_lead hlead
    exact ⟨[], k, x, rfl, hlead⟩
  | found t k x hlead htake hdrop ih =>
    rw [pass_found hlead htake hdrop] at h
    obtain ⟨a, k', x', heq, hlead'⟩ := ih h
    refine ⟨k ++ (x.takeWhile p.run ++ a), k', x', ?_, hlead'⟩
    rw [p.append_of_lead hlead, List.append_assoc, List.append_assoc, ← heq,
      List.takeWhile_append_dropWhile]

/-- A value that is being read goes on behind the text. -/
theorem sub_of_open (hy : Continues p y) (h : (p.pass mark s).2 = true) :
    p.sub mark (s ++ y) = (p.pass mark s).1 ++ (mark ++ p.sub mark (y.dropWhile p.run)) := by
  have hgap := hy.gap
  induction s using p.pass_induction with
  | nil => cases h
  | plain c s hplain ih =>
    rw [pass_plain hplain] at h ⊢
    have hfind : p.find (c :: s ++ y) = none := by
      rcases hplain with hnone | ⟨k, x, hlead, htake, hdrop⟩
      · refine find_of_lead_none ?_
        cases hlead : p.lead (c :: s ++ y) with
        | none => rfl
        | some lead =>
          -- The lead would have to go beyond the one that is being read, which it overlaps.
          obtain ⟨k₁, x₁⟩ := lead
          by_cases hlength : k₁.length ≤ (c :: s).length
          · obtain ⟨x', hlead', -⟩ := lead_of_append hlead hlength
            rw [hnone] at hlead'
            cases hlead'
          · obtain ⟨a, k, x, rfl, hopen⟩ := exists_lead_of_open h
            have hopen' := lead_append_right hgap hopen
            rw [show c :: (a ++ (k ++ x)) ++ y = (c :: a) ++ (k ++ x ++ y) by simp] at hlead
            have hoverlap := p.overlap hlead hopen' (by simp at hlength ⊢; omega)
            rw [hoverlap] at hlength
            simp at hlength
      · exact find_append_plain hgap hlead htake hdrop
    rw [List.cons_append] at hfind ⊢
    rw [sub_plain hfind, ih h]
    rfl
  | last s k x hlead hdrop =>
    rw [sub_found (find_append_open hy hlead hdrop), pass_open hlead hdrop]
  | found s k x hlead htake hdrop ih =>
    rw [pass_found hlead htake hdrop] at h ⊢
    rw [sub_found (find_append_found hgap hlead htake hdrop), ih h]
    simp

/-- No lead that begins in the text goes beyond it. -/
def Apart (p : Pattern α) (s y : List α) : Prop :=
  ∀ s', s' <:+ s → s' ≠ [] → ∀ k x, p.lead (s' ++ y) = some (k, x) → k.length ≤ s'.length

/-- Where no value is being read, the text behind is read from its beginning. -/
theorem sub_of_closed (hy : ∀ c ∈ y.head?, p.gap c = false) (hapart : Apart p s y)
    (h : (p.pass mark s).2 = false) :
    p.sub mark (s ++ y) = (p.pass mark s).1 ++ p.sub mark y := by
  induction s using p.pass_induction with
  | nil => rfl
  | plain c s hplain ih =>
    rw [pass_plain hplain] at h ⊢
    have hfind : p.find (c :: s ++ y) = none := by
      rcases hplain with hnone | ⟨k, x, hlead, htake, hdrop⟩
      · refine find_of_lead_none ?_
        cases hlead : p.lead (c :: s ++ y) with
        | none => rfl
        | some lead =>
          obtain ⟨x', hlead', -⟩ :=
            lead_of_append hlead (hapart _ List.suffix_rfl (List.cons_ne_nil c s) _ _ hlead)
          rw [hnone] at hlead'
          cases hlead'
      · exact find_append_plain hy hlead htake hdrop
    rw [List.cons_append] at hfind ⊢
    rw [sub_plain hfind, ih (fun s' hs' => hapart s' (hs'.trans (List.suffix_cons c s))) h]
    rfl
  | last s k x hlead hdrop =>
    rw [pass_open hlead hdrop] at h
    cases h
  | found s k x hlead htake hdrop ih =>
    rw [pass_found hlead htake hdrop] at h ⊢
    have hs : x.dropWhile p.run <:+ s := by
      rw [p.append_of_lead hlead]
      exact (List.dropWhile_suffix _).trans (List.suffix_append _ _)
    rw [sub_found (find_append_found hy hlead htake hdrop),
      ih (fun s' hs' => hapart s' (hs'.trans hs)) h]
    simp

theorem apart_of_notMem (hc : ∀ {t k x}, p.lead t = some (k, x) → c ∉ k) (s y : List α) :
    Apart p s (c :: y) := by
  intro s' _ _ k x hlead
  by_contra hlength
  rcases List.append_eq_append_iff.1 (p.append_of_lead hlead) with ⟨w, rfl, hy⟩ | ⟨w, rfl, -⟩
  · cases w with
    | nil => simp at hlength
    | cons e w =>
      obtain ⟨rfl, -⟩ := List.cons.inj hy
      exact hc hlead (List.mem_append_right s' List.mem_cons_self)
  · simp at hlength

theorem pass_eq_self (h : ∀ s', s' <:+ s → s' ≠ [] → p.lead s' = none) :
    p.pass mark s = (s, false) := by
  induction s with
  | nil => rfl
  | cons c s ih =>
    rw [pass_plain (.inl (h _ List.suffix_rfl (List.cons_ne_nil c s))), ih fun s' hs' =>
      h s' (hs'.trans (List.suffix_cons c s))]
    rfl

theorem sub_eq_append (h : ∀ s', s' <:+ s → s' ≠ [] → p.find (s' ++ y) = none) :
    p.sub mark (s ++ y) = s ++ p.sub mark y := by
  induction s with
  | nil => rfl
  | cons c s ih =>
    have hfind := h _ List.suffix_rfl (List.cons_ne_nil c s)
    rw [List.cons_append] at hfind
    rw [List.cons_append, sub_plain hfind, ih fun s' hs' => h s' (hs'.trans (List.suffix_cons c s))]
    rfl

/-- Where no value is being read, a lead is found, perhaps as the end of a longer one. -/
theorem sub_of_closed_lead (hlead : p.lead (k ++ y) = some (k, y)) (hy : Continues p y)
    (h : (p.pass mark s).2 = false) :
    p.sub mark (s ++ (k ++ y)) =
      (p.pass mark s).1 ++ (k ++ (mark ++ p.sub mark (y.dropWhile p.run))) := by
  have hrun : y.takeWhile p.run ≠ [] := by
    obtain ⟨c, y', rfl, -, hc⟩ := hy.head
    rw [List.takeWhile_cons_of_pos hc]
    exact List.cons_ne_nil c _
  have hgap : ∀ c ∈ (k ++ y).head?, p.gap c = false := by
    obtain ⟨c, k', rfl, hc⟩ := p.solid_of_lead hlead
    rintro e ⟨⟩
    exact hc
  induction s using p.pass_induction with
  | nil => exact sub_found (find_of_run hlead hrun)
  | plain c s hplain ih =>
    cases hwhole : p.lead (c :: s ++ (k ++ y)) with
    | none =>
      have hfind := find_of_lead_none hwhole
      rw [pass_plain hplain] at h ⊢
      rw [List.cons_append] at hfind ⊢
      rw [sub_plain hfind, ih h]
      rfl
    | some lead =>
      obtain ⟨k₁, x₁⟩ := lead
      by_cases hlength : k₁.length ≤ (c :: s).length
      · obtain ⟨x, hlead', rfl⟩ := lead_of_append hwhole hlength
        rcases hplain with hnone | ⟨k₂, x₂, hlead₂, htake, hdrop⟩
        · rw [hnone] at hlead'
          cases hlead'
        · have hfind := find_append_plain hgap hlead₂ htake hdrop
          rw [pass_plain (.inr ⟨k₂, x₂, hlead₂, htake, hdrop⟩)] at h ⊢
          rw [List.cons_append] at hfind ⊢
          rw [sub_plain hfind, ih h]
          rfl
      · -- The lead is the end of one that begins here, and no lead has ended in between.
        have hbeyond : (c :: s).length < k₁.length := Nat.lt_of_not_le hlength
        have hk₁ := p.overlap hwhole hlead hbeyond
        obtain rfl : x₁ = y := by
          have happend := p.append_of_lead hwhole
          rw [hk₁, List.append_assoc] at happend
          exact (List.append_cancel_left (List.append_cancel_left happend)).symm
        have hpass : p.pass mark (c :: s) = (c :: s, false) := by
          refine pass_eq_self fun s' hs' hne => ?_
          cases hinner : p.lead s' with
          | none => rfl
          | some lead =>
            obtain ⟨k₃, x₃⟩ := lead
            obtain ⟨a, ha⟩ := hs'
            have hinner' := lead_append_right hgap hinner
            rw [← ha, List.append_assoc] at hwhole
            have hlt : a.length < k₁.length := by
              have := congrArg List.length ha
              have hpos := List.length_pos_iff.2 hne
              rw [List.length_append] at this
              omega
            have hk₁' := congrArg List.length (p.overlap hwhole hinner' hlt)
            have hs' := congrArg List.length (p.append_of_lead hinner)
            have ha := congrArg List.length ha
            rw [List.length_append] at hk₁' hs' ha
            omega
        rw [hpass, sub_found (find_of_run hwhole hrun), hk₁]
        simp
  | last s k' x hopen hdrop =>
    rw [pass_open hopen hdrop] at h
    cases h
  | found s k' x hopen htake hdrop ih =>
    rw [pass_found hopen htake hdrop] at h ⊢
    rw [sub_found (find_append_found hgap hopen htake hdrop), ih h]
    simp

/-- An element that is no value and belongs to no lead keeps two texts apart. -/
theorem sub_append_of_stop (mark : List α) (hkind : ∀ c, p.gap c = true → p.run c = false)
    (hc : p.run c = false)
    (hapart : Apart p s (c :: y)) :
    p.sub mark (s ++ c :: y) = p.sub mark s ++ p.sub mark (c :: y) := by
  have hretreat : ∀ {t k x}, p.lead t = some (k, x) → x.takeWhile p.run = [] → p.find t = none := by
    intro t k x hlead hx
    unfold find
    rw [hlead]
    exact (if_pos hx).trans (retreat_eq_none hkind k x)
  induction s using p.text_induction with
  | nil => rfl
  | plain e s hfind ih =>
    have hwhole : p.find (e :: s ++ c :: y) = none := by
      cases hlead : p.lead (e :: s ++ c :: y) with
      | none => exact find_of_lead_none hlead
      | some lead =>
        obtain ⟨k, x⟩ := lead
        obtain ⟨x', hlead', rfl⟩ :=
          lead_of_append hlead (hapart _ List.suffix_rfl (List.cons_ne_nil e s) _ _ hlead)
        have hx' : x'.takeWhile p.run = [] := by
          by_contra hne
          rw [find_of_run hlead' hne] at hfind
          cases hfind
        refine hretreat hlead ?_
        cases x' with
        | nil => exact List.takeWhile_cons_of_neg (by rw [hc]; exact Bool.false_ne_true)
        | cons e' x' =>
          have he' := head_of_takeWhile_eq_nil hx' e' rfl
          exact List.takeWhile_cons_of_neg (by rw [he']; exact Bool.false_ne_true)
    rw [List.cons_append] at hwhole ⊢
    rw [sub_plain hwhole, sub_plain hfind, ih fun s' hs' =>
      hapart s' (hs'.trans (List.suffix_cons e s))]
    rfl
  | found s k d r hfind ih =>
    have hmatch := match_of_find hfind
    obtain ⟨k', x, hlead, -⟩ :=
      lead_of_find (p := p) (t := s) (by rw [hfind]; exact fun h => by cases h)
    have hx : x.takeWhile p.run ≠ [] := by
      intro hnil
      rw [hretreat hlead hnil] at hfind
      cases hfind
    rw [find_of_run hlead hx] at hfind
    obtain ⟨rfl, rfl, rfl⟩ : k' = k ∧ x.takeWhile p.run = d ∧
      x.dropWhile p.run = r := by simpa using hfind
    have hwhole : p.lead (s ++ c :: y) = some (k', x ++ c :: y) := by
      obtain rfl := p.append_of_lead hlead
      rw [List.append_assoc]
      refine lead_of_gap hlead fun e he => ?_
      cases x with
      | nil => exact absurd rfl hx
      | cons e' x =>
        cases he
        exact gap_of_lead hlead
    have hstop : ∀ e ∈ (x.dropWhile p.run ++ c :: y).head?, p.run e = false := by
      intro e he
      cases hr : x.dropWhile p.run with
      | nil =>
        rw [hr] at he
        cases he
        exact hc
      | cons e' r' =>
        rw [hr] at he
        cases he
        exact head_dropWhile p.run x _ (by rw [hr]; rfl)
    have hsplit :=
      takeWhile_append_stop (f := p.run) (d := x.takeWhile p.run) (r := x.dropWhile p.run ++ c :: y)
      (fun e he => List.mem_takeWhile_imp he) hstop
    rw [← List.append_assoc, List.takeWhile_append_dropWhile] at hsplit
    have hs : x.dropWhile p.run <:+ s := by
      rw [p.append_of_lead hlead]
      exact (List.dropWhile_suffix _).trans (List.suffix_append _ _)
    rw [sub_found (find_of_run hwhole (by rw [hsplit.1]; exact hx)), hsplit.2,
      sub_found (find_of_run hlead hx),
      ih fun s' hs' => hapart s' (hs'.trans hs)]
    simp

/-- An element that is not in the first part is behind it. -/
theorem exists_of_append_cons_eq {z : List α} (hc : c ∉ a) (h : a ++ z = x ++ c :: y) :
    ∃ w, x = a ++ w ∧ z = w ++ c :: y := by
  rcases List.append_eq_append_iff.1 h with ⟨w, rfl, hz⟩ | ⟨w, hw, hz⟩
  · exact ⟨w, rfl, hz⟩
  · cases w with
    | nil => exact ⟨[], by simpa using hw.symm, hz.symm⟩
    | cons e w =>
      obtain ⟨rfl, -⟩ := List.cons.inj hz
      exact absurd (hw ▸ List.mem_append_right x List.mem_cons_self) hc

/-- Where nothing is masked in the whole text, nothing is read in front of an element that a value
may begin with. -/
theorem pass_of_find_none {e : α} (hc : p.run c = true) (hgap : p.gap c = false)
    (hfind : p.find (e :: (s ++ c :: r)) = none) :
    p.pass mark (e :: s) = (p.pass mark s).map (e :: ·) id := by
  refine pass_plain ?_
  cases hs : p.lead (e :: s) with
  | none => exact .inl rfl
  | some lead =>
    obtain ⟨k, x⟩ := lead
    have hwhole := lead_append_right (y := c :: r) (fun e he => by cases he; exact hgap) hs
    have htake : (x ++ c :: r).takeWhile p.run = [] := by
      by_contra hne
      rw [List.cons_append] at hwhole
      rw [find_of_run hwhole hne] at hfind
      cases hfind
    cases x with
    | nil =>
      rw [List.nil_append, List.takeWhile_cons_of_pos hc] at htake
      cases htake
    | cons e' x =>
      have he' : ¬ p.run e' = true := by
        rw [head_of_takeWhile_eq_nil htake e' rfl]
        exact Bool.false_ne_true
      refine .inr ⟨k, e' :: x, rfl, List.takeWhile_cons_of_neg he', ?_⟩
      rw [List.dropWhile_cons_of_neg he']
      exact List.cons_ne_nil e' x

/-- A value between its lead and what stops it. -/
theorem pass_append_found (hlead : p.lead (k ++ (d ++ x)) = some (k, d ++ x)) (hne : d ≠ [])
    (hrun : ∀ e ∈ d, p.run e = true) (hs : s ≠ []) (hstop : ∀ e ∈ s.head?, p.run e = false) :
    p.pass mark (k ++ (d ++ s)) = (p.pass mark s).map (fun left => k ++ (mark ++ left)) id := by
  have hsplit := takeWhile_append_stop hrun hstop
  have hlead' : p.lead (k ++ (d ++ s)) = some (k, d ++ s) := by
    refine lead_of_gap hlead fun e he => ?_
    obtain ⟨e', d', rfl⟩ := List.exists_cons_of_ne_nil hne
    cases he
    exact gap_of_lead hlead
  rw [pass_found hlead' (by rw [hsplit.1]; exact hne) (by rw [hsplit.2]; exact hs), hsplit.2]

/-- What stands before an element that no pattern keeps or puts there has been read when it is
reached. -/
theorem exists_of_sub_eq (hc : p.run c = true) (hgap : p.gap c = false) (hmark : c ∉ mark)
    (hlead : ∀ {t k x}, p.lead t = some (k, x) → c ∉ k) (h : p.sub mark t = x ++ c :: y) :
    ∃ s r, t = s ++ c :: r ∧ p.pass mark s = (x, false) ∧ p.sub mark r = y := by
  induction t using p.text_induction generalizing x with
  | nil => simp at h
  | plain e t hfind ih =>
    rw [sub_plain hfind] at h
    cases x with
    | nil =>
      obtain ⟨rfl, rfl⟩ := List.cons.inj h
      exact ⟨[], t, rfl, rfl, rfl⟩
    | cons e' x =>
      obtain ⟨rfl, htail⟩ := List.cons.inj h
      obtain ⟨s, r, rfl, hpass, hr⟩ := ih htail
      refine ⟨e :: s, r, rfl, ?_, hr⟩
      rw [pass_of_find_none hc hgap hfind, hpass]
      rfl
  | found t k d r hfind ih =>
    have hmatch := match_of_find hfind
    rw [sub_found hfind, ← List.append_assoc] at h
    rcases find_some hfind with ⟨hK, -⟩ | ⟨e, w, X, hK, hX, -, rfl, -⟩
    · have hk : c ∉ k ++ mark := fun hmem => (List.mem_append.1 hmem).elim (hlead hK) hmark
      obtain ⟨left, rfl, hr⟩ := exists_of_append_cons_eq hk h
      obtain ⟨s, r', rfl, hpass, hy⟩ := ih hr
      refine ⟨k ++ (d ++ s), r', by rw [hmatch.append]; simp, ?_, hy⟩
      have hs : s ≠ [] := by
        rintro rfl
        have hstop := hmatch.stop c rfl
        rw [hc] at hstop
        cases hstop
      have hstop : ∀ e ∈ s.head?, p.run e = false := by
        obtain ⟨e', s, rfl⟩ := List.exists_cons_of_ne_nil hs
        intro e he
        cases he
        exact hmatch.stop _ rfl
      rw [p.append_of_lead hK] at hK
      rw [pass_append_found hK hmatch.ne_nil hmatch.run hs hstop, hpass]
      simp
    · -- Behind the lead there is nothing, and the element is not in the lead.
      have hk : c ∉ k ++ mark := by
        intro hmem
        rcases List.mem_append.1 hmem with hmem | hmem
        exacts [hlead hK (List.mem_append_left _ hmem), hmark hmem]
      obtain ⟨left, rfl, hr⟩ := exists_of_append_cons_eq hk h
      obtain ⟨s, r', hr', -, -⟩ := ih hr
      obtain rfl := eq_nil_of_find hK (by rw [hfind]; exact fun h => by cases h) hX
      rw [List.append_nil] at hr'
      have hmem : c ∈ w := hr' ▸ List.mem_append_right s List.mem_cons_self
      exact absurd (List.mem_append_right k (List.mem_cons_of_mem e hmem)) (hlead hK)

theorem exists_of_append_eq {b : List α} (h : a ++ x = b ++ y) (hlength : b.length ≤ a.length) :
    ∃ w, y = w ++ x := by
  rcases List.append_eq_append_iff.1 h with ⟨w, rfl, hx⟩ | ⟨w, -, hy⟩
  · rw [List.length_append] at hlength
    obtain rfl : w = [] := List.eq_nil_of_length_eq_zero (by omega)
    exact ⟨[], hx.symm⟩
  · exact ⟨w, hy⟩

/-- The value behind a lead ends where the text does, if no element of it and of the lead ends
one. -/
theorem eq_nil_of_value {D R K : List α} (hwhole : p.lead (a ++ (k ++ d)) = some (K, D ++ R))
    (hR : ∀ e ∈ R.head?, p.run e = false) (hlead : p.lead (k ++ d) = some (k, d))
    (hk : ∀ e ∈ k.tail, p.run e = true)
    (hd : ∀ e ∈ d, p.run e = true) (hlength : a.length < (K ++ D).length) : R = [] := by
  have heq := p.append_of_lead hwhole
  by_contra hne
  obtain ⟨e, R', rfl⟩ := List.exists_cons_of_ne_nil hne
  have hstop := hR e rfl
  by_cases hK : a.length < K.length
  · obtain rfl := p.overlap hwhole hlead hK
    rw [List.append_assoc] at heq
    have hrest := List.append_cancel_left (List.append_cancel_left heq)
    rw [hd e (by rw [hrest]; simp)] at hstop
    cases hstop
  · have hmem : e ∈ (k ++ d).tail := by
      have heq' : a ++ (k ++ d) = (K ++ D) ++ e :: R' := by rw [heq, List.append_assoc]
      rcases List.append_eq_append_iff.1 heq' with ⟨w, hw, hkd⟩ | ⟨w, hw, -⟩
      · cases w with
        | nil =>
          rw [List.append_nil] at hw
          rw [hw] at hlength
          omega
        | cons c w =>
          rw [hkd]
          simp
      · rw [hw] at hlength
        simp only [List.length_append] at hlength
        omega
    obtain ⟨c, k', rfl, -⟩ := p.solid_of_lead hlead
    rcases List.mem_append.1 hmem with hmem | hmem
    · rw [hk e hmem] at hstop
      cases hstop
    · rw [hd e hmem] at hstop
      cases hstop

/-- Behind a lead and a value a value is being read, this one or one that the lead belongs to. -/
theorem pass_of_lead (mark : List α) (hlead : p.lead (k ++ d) = some (k, d))
    (hk : ∀ e ∈ k.tail, p.run e = true) (hd : ∀ e ∈ d, p.run e = true)
    (a : List α) : (p.pass mark (a ++ (k ++ d))).2 = true := by
  generalize ht : a ++ (k ++ d) = t
  induction t using p.pass_induction generalizing a with
  | nil =>
    obtain ⟨c, k', rfl, -⟩ := p.solid_of_lead hlead
    simp at ht
  | plain c t hplain ih =>
    rw [pass_plain hplain]
    cases a with
    | nil =>
      rw [List.nil_append] at ht
      rcases hplain with hnone | ⟨k', x, hlead', -, hdrop⟩
      · rw [← ht, hlead] at hnone
        cases hnone
      · rw [← ht, hlead] at hlead'
        cases hlead'
        exact absurd (List.dropWhile_eq_nil_iff.2 hd) hdrop
    | cons e a =>
      obtain ⟨-, rfl⟩ := List.cons.inj ht
      exact ih a rfl
  | last t k' x hlead' hdrop => rw [pass_open hlead' hdrop]
  | found t k' x hlead' htake hdrop ih =>
    rw [pass_found hlead' htake hdrop]
    have hx := List.takeWhile_append_dropWhile (p := p.run) (l := x)
    by_cases hlength : a.length < (k' ++ x.takeWhile p.run).length
    · rw [← ht, ← hx] at hlead'
      exact absurd (eq_nil_of_value hlead' (head_dropWhile p.run x) hlead hk hd hlength) hdrop
    · have heq : a ++ (k ++ d) = (k' ++ x.takeWhile p.run) ++ x.dropWhile p.run := by
        rw [ht, List.append_assoc, hx]
        exact p.append_of_lead hlead'
      obtain ⟨w, hw⟩ := exists_of_append_eq heq (Nat.le_of_not_lt hlength)
      exact ih w hw.symm

/-- A text that ends with a lead and a value ends, once masked, with a lead and the mark. -/
theorem sub_of_value (mark : List α) (hgap : ∀ c, p.gap c = false)
    (hlead : p.lead (k ++ d) = some (k, d))
    (hk : ∀ e ∈ k.tail, p.run e = true) (hd : ∀ e ∈ d, p.run e = true) (hne : d ≠ []) (a : List α) :
    ∃ b k', p.sub mark (a ++ (k ++ d)) = b ++ (k' ++ mark) ∧ p.lead k' = some (k', []) := by
  generalize ht : a ++ (k ++ d) = t
  have hkind : ∀ c, p.gap c = true → p.run c = false := fun c hc => by rw [hgap c] at hc; cases hc
  induction t using p.text_induction generalizing a with
  | nil => simp [hne] at ht
  | plain c t hfind ih =>
    cases a with
    | nil =>
      rw [List.nil_append] at ht
      have htake := (takeWhile_append_stop (r := []) hd fun e he => by cases he).1
      rw [List.append_nil] at htake
      rw [← ht, find_of_run hlead (by rw [htake]; exact hne)] at hfind
      cases hfind
    | cons e a =>
      obtain ⟨rfl, htail⟩ := List.cons.inj ht
      obtain ⟨b, k', hsub, hk'⟩ := ih a htail
      exact ⟨e :: b, k', by rw [sub_plain hfind, hsub]; rfl, hk'⟩
  | found t k₁ d₁ r₁ hfind ih =>
    have hmatch := match_of_find hfind
    rw [sub_found hfind]
    by_cases hlength : a.length < (k₁ ++ d₁).length
    · rcases find_some hfind with ⟨hlead', -⟩ | ⟨c, w, x, -, -, -, -, hc, -⟩
      · rw [← ht] at hlead'
        obtain rfl := eq_nil_of_value hlead' hmatch.stop hlead hk hd hlength
        rw [ht, hmatch.append] at hlead'
        have hk₁ := lead_of_gap (y := []) hlead' fun e he => by cases he
        rw [List.append_nil] at hk₁
        exact ⟨[], k₁, by simp, hk₁⟩
      · rw [hgap c] at hc
        cases hc
    · have heq : a ++ (k ++ d) = (k₁ ++ d₁) ++ r₁ := by
        rw [ht, List.append_assoc]; exact hmatch.append
      obtain ⟨w, hw⟩ := exists_of_append_eq heq (Nat.le_of_not_lt hlength)
      obtain ⟨b, k', hsub, hk'⟩ := ih w hw.symm
      exact ⟨k₁ ++ (mark ++ b), k', by rw [hsub]; simp, hk'⟩

end Pass

/-! ### How often an element is kept -/

section Count
variable [DecidableEq α] {p : Pattern α} {mark t : List α} {c : α}

theorem count_sub_le (hc : c ∉ mark) (t : List α) : (p.sub mark t).count c ≤ t.count c := by
  induction t using p.text_induction with
  | nil => exact le_refl _
  | plain e t hfind ih =>
    rw [sub_plain hfind, List.count_cons, List.count_cons]
    omega
  | found t k d r hfind ih =>
    rw [sub_found hfind, (match_of_find hfind).append]
    simp only [List.count_append, List.count_eq_zero_of_not_mem hc]
    omega

theorem count_pass_le (hc : c ∉ mark) (t : List α) : (p.pass mark t).1.count c ≤ t.count c := by
  induction t using p.pass_induction with
  | nil => exact le_refl _
  | plain e t hplain ih =>
    rw [pass_plain hplain]
    simp only [Prod.map_fst, List.count_cons]
    omega
  | last t k x hlead hdrop =>
    rw [pass_open hlead hdrop, p.append_of_lead hlead, List.count_append]
    exact Nat.le_add_right _ _
  | found t k x hlead htake hdrop ih =>
    rw [pass_found hlead htake hdrop, p.append_of_lead hlead]
    have hsplit := congrArg (List.count c) (List.takeWhile_append_dropWhile (p := p.run) (l := x))
    simp only [Prod.map_fst, List.count_append, List.count_eq_zero_of_not_mem hc] at hsplit ⊢
    omega

/-- What a value that is being read begins with is lost. -/
theorem count_sub_lt {mark s y : List α} (hc : c ∉ mark) (hgap : p.gap c = false)
    (hrun : p.run c = true)
    (h : (p.pass mark s).2 = true) :
    (p.sub mark (s ++ c :: y)).count c < (s ++ c :: y).count c := by
  rw [sub_of_open ⟨c, y, rfl, hgap, hrun⟩ h, List.dropWhile_cons_of_pos hrun]
  have hs := count_pass_le (p := p) hc s
  have hrest := count_sub_le (p := p) hc (y.dropWhile p.run)
  have hy := (List.dropWhile_sublist p.run (l := y)).count_le c
  simp only [List.count_append, List.count_eq_zero_of_not_mem hc, List.count_cons_self]
  omega

end Count

end Pattern

end Euvieouvi
