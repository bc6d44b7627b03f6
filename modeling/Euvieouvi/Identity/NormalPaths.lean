import Euvieouvi.Identity.Paths
import Euvieouvi.Lib.SlashPaths
import Mathlib.Data.List.Flatten
import Mathlib.Data.List.Induction
import Mathlib.Data.List.TakeWhile

/-!
# Normalized paths

`normalize_path` of `sync/physical_identity.py` and the `posixpath.normpath` below it, read on the
names of a path. `posixpath.normpath` is written for paths that begin with a slash: a drive letter
is a name like any other to it, and `..` takes it away. `wellFormed_iff_anchored` says which paths
come out well formed, and `normalizePath_idempotent_iff` which results stay as they are when they
are normalized again.
-/

namespace Euvieouvi

/-- A name that means no other directory. -/
def Proper (n : List Char) : Prop := IsName '/' n ∧ n ≠ ['.'] ∧ n ≠ ['.', '.']

/-! ### `posixpath.normpath` -/

section Normpath
variable {above : Bool} {done comps : List (List Char)} {n : List Char}

theorem normComponents_nil : normComponents above done [] = done.reverse := rfl

theorem normComponents_cons {comp : List Char} :
    normComponents above done (comp :: comps) =
      if comp = [] ∨ comp = ['.'] then normComponents above done comps
      else if comp ≠ ['.', '.'] ∨ (above ∧ done = []) ∨ done.head? = some ['.', '.'] then
        normComponents above (comp :: done) comps
      else normComponents above done.tail comps := rfl

theorem normComponents_filter :
    normComponents above done (comps.filter (· ≠ [])) = normComponents above done comps := by
  induction comps generalizing done with
  | nil => rfl
  | cons comp comps ih =>
    by_cases hempty : comp = []
    · rw [List.filter_cons_of_neg (by simp [hempty]), ih, normComponents_cons, if_pos (.inl hempty)]
    · rw [List.filter_cons_of_pos (by simp [hempty]), normComponents_cons, normComponents_cons]
      simp only [ih]

theorem normComponents_proper (h : ∀ n ∈ comps, Proper n) :
    normComponents above done comps = done.reverse ++ comps := by
  induction comps generalizing done with
  | nil => exact (List.append_nil _).symm
  | cons comp comps ih =>
    obtain ⟨⟨hne, -⟩, hdot, hdots⟩ := h comp List.mem_cons_self
    rw [normComponents_cons, if_neg (not_or.2 ⟨hne, hdot⟩), if_pos (.inl hdots), ih fun n hn =>
      h n (List.mem_cons_of_mem _ hn)]
    simp

theorem normComponents_append {more : List (List Char)} :
    normComponents above done (comps ++ more) =
      normComponents above (normComponents above done comps).reverse more := by
  induction comps generalizing done with
  | nil => rw [normComponents_nil, List.reverse_reverse]; rfl
  | cons comp comps ih =>
    rw [List.cons_append, normComponents_cons, normComponents_cons]
    split
    · exact ih
    · split
      · exact ih
      · exact ih

theorem normComponents_sublist :
    (normComponents above done comps).Sublist (done.reverse ++ comps) := by
  induction comps generalizing done with
  | nil => rw [normComponents_nil, List.append_nil]
  | cons comp comps ih =>
    rw [normComponents_cons]
    split
    · exact ih.trans (List.Sublist.append_left (List.sublist_cons_self _ _) _)
    · split
      · have h := @ih (comp :: done)
        rwa [List.reverse_cons, List.append_assoc] at h
      · exact ih.trans
          (List.Sublist.append (List.tail_sublist done).reverse (List.sublist_cons_self _ _))

theorem mem_normComponents (h : n ∈ normComponents above [] comps) : n ∈ comps :=
  normComponents_sublist.subset h

theorem ne_dot_of_mem (hdone : ['.'] ∉ done) : ['.'] ∉ normComponents above done comps := by
  induction comps generalizing done with
  | nil => exact fun h => hdone (List.mem_reverse.1 h)
  | cons comp comps ih =>
    rw [normComponents_cons]
    split
    · exact ih hdone
    next hskip =>
      split
      · refine ih fun h => ?_
        rcases List.mem_cons.1 h with h | h
        exacts [hskip (.inr h.symm), hdone h]
      · exact ih fun h => hdone (List.mem_of_mem_tail h)

/-- Below slashes, no `..` stays. -/
theorem normComponents_rooted (hcomps : ∀ n ∈ comps, IsName '/' n) (hdone : ∀ n ∈ done, Proper n)
    (h : n ∈ normComponents false done comps) : Proper n := by
  induction comps generalizing done with
  | nil => exact hdone n (List.mem_reverse.1 h)
  | cons comp comps ih =>
    have hrest : ∀ n ∈ comps, IsName '/' n := fun n hn => hcomps n (List.mem_cons_of_mem _ hn)
    rw [normComponents_cons] at h
    split at h
    · exact ih hrest hdone h
    next hnot =>
      split at h
      next hkept =>
        refine ih hrest (fun m hm => ?_) h
        rcases List.mem_cons.1 hm with rfl | hm
        · refine ⟨hcomps _ List.mem_cons_self, (not_or.1 hnot).2, ?_⟩
          rcases hkept with hdots | ⟨habove, -⟩ | hhead
          · exact hdots
          · cases habove
          · exact absurd rfl (hdone _ (List.mem_of_mem_head? hhead)).2.2
        · exact hdone m hm
      · exact ih hrest (fun m hm => hdone m (List.mem_of_mem_tail hm)) h

/-- How deep the components lead below where they start, if they never lead above it. -/
def climb : Nat → List (List Char) → Option Nat
  | depth, [] => some depth
  | depth, comp :: comps =>
    if comp = [] ∨ comp = ['.'] then climb depth comps
    else if comp ≠ ['.', '.'] then climb (depth + 1) comps
    else if depth = 0 then none else climb (depth - 1) comps

theorem climb_append {depth : Nat} {more : List (List Char)} :
    climb depth (comps ++ more) = (climb depth comps).bind (climb · more) := by
  induction comps generalizing depth with
  | nil => rfl
  | cons comp comps ih =>
    rw [List.cons_append, climb, climb]
    split
    · exact ih
    · split
      · exact ih
      · split
        · rfl
        · exact ih

/-- Components that stay below a base leave the base alone. -/
theorem normComponents_climb {names base : List (List Char)} {depth : Nat}
    (hcomps : ∀ n ∈ comps, IsName '/' n)
    (hnames : ∀ n ∈ names, Proper n) (h : climb names.length comps = some depth) :
    ∃ names', (∀ n ∈ names', Proper n) ∧ names'.length = depth ∧
      normComponents above (names ++ base) comps = base.reverse ++ names' := by
  induction comps generalizing names with
  | nil =>
    refine ⟨names.reverse, fun n hn => hnames n (List.mem_reverse.1 hn), ?_, List.reverse_append⟩
    rw [List.length_reverse]
    exact Option.some.inj h
  | cons comp comps ih =>
    have hrest : ∀ n ∈ comps, IsName '/' n := fun n hn => hcomps n (List.mem_cons_of_mem _ hn)
    rw [climb] at h
    rw [normComponents_cons]
    split at h
    next hskip =>
      rw [if_pos hskip]
      exact ih hrest hnames h
    next hskip =>
      rw [if_neg hskip]
      split at h
      next hname =>
        rw [if_pos (.inl hname)]
        refine @ih (comp :: names) hrest (fun n hn => ?_) h
        rcases List.mem_cons.1 hn with rfl | hn
        exacts [⟨hcomps _ List.mem_cons_self, (not_or.1 hskip).2, hname⟩, hnames n hn]
      next hdots =>
        cases names with
        | nil => cases h
        | cons first names =>
          have hfirst := hnames first List.mem_cons_self
          rw [if_neg]
          · exact ih hrest (fun n hn => hnames n (List.mem_cons_of_mem _ hn)) h
          · rintro (hname | ⟨-, hnone⟩ | hhead)
            · exact hdots hname
            · cases hnone
            · exact hfirst.2.2 (Option.some.inj hhead)

/-- A name stays where what follows it does not lead up to it. -/
theorem normComponents_after {front back : List (List Char)} {depth : Nat}
    (hcomps : ∀ m ∈ front ++ n :: back, IsName '/' m)
    (hn : Proper n) (hback : climb 0 back = some depth) :
    ∃ names, names.length = depth ∧ normComponents above []
    (front ++ n :: back) = normComponents above [] front ++ n :: names := by
  obtain ⟨names, -, hlength, hnames⟩ :=
    @normComponents_climb above back [] (n :: (normComponents above [] front).reverse) depth
    (fun m hm => hcomps m (List.mem_append_right _ (List.mem_cons_of_mem _ hm)))
      (fun _ hm => absurd hm List.not_mem_nil) hback
  refine ⟨names, hlength, ?_⟩
  rw [List.nil_append, List.reverse_cons, List.reverse_reverse, List.append_assoc] at hnames
  rw [normComponents_append, normComponents_cons, if_neg (not_or.2 ⟨hn.1.1, hn.2.1⟩),
    if_pos (.inl hn.2.2), hnames]
  rfl

/-- The component a kept name comes from: what follows it leads down to the names after it. -/
theorem split_normComponents {first rest : List (List Char)} (hcomps : ∀ n ∈ comps, IsName '/' n)
    (hproper : ∀ m ∈ n :: rest, Proper m) (h : normComponents above [] comps = first ++ n :: rest) :
    ∃ front back, comps = front ++ n :: back ∧ normComponents above [] front = first ∧
    climb 0 back = some rest.length := by
  induction comps using List.reverseRecOn generalizing rest with
  | nil => cases first <;> cases h
  | append_singleton comps comp ih =>
    have hbefore : ∀ n ∈ comps, IsName '/' n := fun n hn => hcomps n (List.mem_append_left _ hn)
    rw [normComponents_append, normComponents_cons] at h
    split at h
    next hskip =>
      rw [normComponents_nil, List.reverse_reverse] at h
      obtain ⟨front, back, rfl, hfront, hback⟩ := ih hbefore hproper h
      refine ⟨front, back ++ [comp], by simp, hfront, ?_⟩
      rw [climb_append, hback]
      exact if_pos hskip
    next hskip =>
      split at h
      next hkept =>
        rw [normComponents_nil, List.reverse_cons, List.reverse_reverse] at h
        obtain rfl | ⟨rest, last, rfl⟩ := List.eq_nil_or_concat' rest
        · obtain ⟨rfl, hlast⟩ := List.append_inj' h rfl
          obtain rfl := List.head_eq_of_cons_eq hlast
          exact ⟨comps, [], rfl, rfl, rfl⟩
        · rw [← List.cons_append, ← List.append_assoc] at h
          obtain ⟨hkeep, hlast⟩ := List.append_inj' h rfl
          obtain rfl := List.head_eq_of_cons_eq hlast
          obtain ⟨front, back, rfl, hfront, hback⟩ := ih hbefore
            (fun m hm => hproper m (List.mem_append_left [comp] hm)) hkeep
          refine ⟨front, back ++ [comp], by simp, hfront, ?_⟩
          have hcomp := hproper comp (by simp)
          rw [climb_append, hback, List.length_append]
          exact (if_neg hskip).trans (if_pos hcomp.2.2)
      next hpopped =>
        rw [normComponents_nil] at h
        obtain hnone | ⟨keep, last, hkeep⟩ := List.eq_nil_or_concat' (normComponents above [] comps)
        · rw [hnone] at h
          cases first <;> cases h
        · rw [hkeep] at h hpopped
          rw [List.reverse_append, List.reverse_singleton, List.singleton_append, List.tail_cons,
            List.reverse_reverse] at h
          have hmem : last ∈ normComponents above [] comps := by rw [hkeep]; simp
          have hlast : Proper last := by
            refine ⟨hbefore last (mem_normComponents hmem), fun hdot => ?_, fun hdots => ?_⟩
            · exact ne_dot_of_mem List.not_mem_nil (hdot ▸ hmem)
            · exact hpopped (.inr (.inr (by simp [hdots])))
          rw [h, List.append_assoc, List.cons_append] at hkeep
          obtain ⟨front, back, rfl, hfront, hback⟩ := ih hbefore (fun m hm => by
            rcases List.mem_append.1 (List.cons_append ▸ hm : m ∈ (n :: rest) ++ [last])
              with hm | hm
            · exact hproper m hm
            · exact List.mem_singleton.1 hm ▸ hlast) hkeep
          refine ⟨front, back ++ [comp], by simp, hfront, ?_⟩
          have hdots : ¬ comp ≠ ['.', '.'] := fun hname => hpopped (.inl hname)
          rw [climb_append, hback, List.length_append]
          exact (if_neg hskip).trans ((if_neg hdots).trans (if_neg (Nat.succ_ne_zero _)))

theorem dots_stay (h : ['.', '.'] ∈ done) : ['.', '.'] ∈ normComponents above done comps := by
  induction comps generalizing done with
  | nil => exact List.mem_reverse.2 h
  | cons comp comps ih =>
    rw [normComponents_cons]
    split
    · exact ih h
    · split
      · exact ih (List.mem_cons_of_mem _ h)
      next hpopped =>
        refine ih ?_
        cases done with
        | nil => exact absurd h List.not_mem_nil
        | cons first done =>
          rcases List.mem_cons.1 h with rfl | h
          · exact absurd (.inr (.inr rfl)) hpopped
          · exact h

/-- A `..` that is kept is kept in front. -/
theorem proper_of_head (hcomps : ∀ n ∈ comps, IsName '/' n)
    (hdone : done.getLast? ≠ some ['.', '.'] → ∀ n ∈ done, Proper n)
    (h : (normComponents above done comps).head? ≠ some ['.', '.']) :
    ∀ n ∈ normComponents above done comps, Proper n := by
  induction comps generalizing done with
  | nil =>
    rw [normComponents_nil] at h ⊢
    rw [List.head?_reverse] at h
    exact fun n hn => hdone h n (List.mem_reverse.1 hn)
  | cons comp comps ih =>
    have hrest : ∀ n ∈ comps, IsName '/' n := fun n hn => hcomps n (List.mem_cons_of_mem _ hn)
    rw [normComponents_cons] at h ⊢
    split at h
    next hskip =>
      rw [if_pos hskip]
      exact ih hrest hdone h
    next hskip =>
      rw [if_neg hskip]
      split at h
      next hkept =>
        rw [if_pos hkept]
        refine ih hrest (fun hlast n hn => ?_) h
        have hcomp : comp ≠ ['.', '.'] → Proper comp :=
          fun hdots => ⟨hcomps _ List.mem_cons_self, (not_or.1 hskip).2, hdots⟩
        obtain rfl | ⟨first, before, rfl⟩ : done = [] ∨
          ∃ first before, done = first :: before := by cases done <;> simp
        · rw [List.mem_singleton.1 hn]
          exact hcomp fun hdots => hlast (by rw [hdots]; rfl)
        · have hproper := hdone (by rwa [List.getLast?_cons_cons] at hlast)
          rcases List.mem_cons.1 hn with rfl | hn
          · rcases hkept with hname | ⟨-, hnil⟩ | hhead
            · exact hcomp hname
            · cases hnil
            · exact absurd (Option.some.inj hhead) (hproper first List.mem_cons_self).2.2
          · exact hproper n hn
      next hpopped =>
        rw [if_neg hpopped]
        refine ih hrest (fun hlast n hn => ?_) h
        obtain rfl | ⟨first, before, rfl⟩ : done = [] ∨
          ∃ first before, done = first :: before := by cases done <;> simp
        · cases hn
        · obtain ⟨second, before, rfl⟩ := List.exists_cons_of_ne_nil (List.ne_nil_of_mem hn)
          rw [List.tail_cons] at hlast hn
          exact hdone (by rwa [List.getLast?_cons_cons]) n (List.mem_cons_of_mem _ hn)

/-- Components of which none leads above their start. -/
theorem climb_of_normComponents (h : ['.', '.'] ∉ normComponents true done comps) :
    climb done.length comps = some (normComponents true done comps).length := by
  induction comps generalizing done with
  | nil => rw [normComponents_nil, List.length_reverse]; rfl
  | cons comp comps ih =>
    rw [normComponents_cons] at h ⊢
    rw [climb]
    split at h
    next hskip =>
      rw [if_pos hskip, if_pos hskip]
      exact ih h
    next hskip =>
      rw [if_neg hskip, if_neg hskip]
      split at h
      next hkept =>
        have hname : comp ≠ ['.', '.'] := fun hdots => h (dots_stay (hdots ▸ List.mem_cons_self))
        rw [if_pos hkept, if_pos hname]
        exact ih h
      next hpopped =>
        have hdots : ¬ comp ≠ ['.', '.'] := fun hname => hpopped (.inl hname)
        rw [if_neg hpopped, if_neg hdots]
        cases done with
        | nil => exact absurd (.inr (.inl ⟨rfl, rfl⟩)) hpopped
        | cons first done => exact ih h

/-- The slashes that `posixpath.normpath` keeps. -/
def leadSlashes (chars : List Char) : Nat :=
  if ['/', '/'].isPrefixOf chars && !(['/', '/', '/'].isPrefixOf chars) then 2
  else if ['/'].isPrefixOf chars then 1 else 0

theorem posixNormpath_eq (path : String) : posixNormpath path =
    (let text := String.ofList (render '/' (leadSlashes path.toList)
      (normComponents (leadSlashes path.toList = 0) [] (pathNames '/' path.toList)))
    if text = "" then "." else text) := by
  unfold pathNames
  rw [normComponents_filter]
  rfl

theorem leadSlashes_name {lead : Nat} {rest : List Char} (hn : IsName '/' n) (hlead : lead ≤ 2) :
    leadSlashes (List.replicate lead '/' ++ n ++ rest) = lead := by
  obtain ⟨c, n, rfl⟩ := List.exists_cons_of_ne_nil hn.1
  have hc : ¬ '/' = c := fun heq => hn.2 (heq ▸ List.mem_cons_self)
  unfold leadSlashes
  match lead, hlead with
  | 0, _ => simp [hc]
  | 1, _ => simp [hc]
  | 2, _ => simp [List.replicate, hc]

theorem leadSlashes_render {lead : Nat} {ns : List (List Char)} (hns : ∀ n ∈ ns, IsName '/' n)
    (hlead : lead ≤ 2) :
    leadSlashes (render '/' lead ns) = lead := by
  cases ns with
  | nil =>
    rw [render_nil]
    match lead, hlead with
    | 0, _ => rfl
    | 1, _ => rfl
    | 2, _ => rfl
  | cons n ns =>
    rw [render_cons]
    exact leadSlashes_name (hns n List.mem_cons_self) hlead

theorem leadSlashes_le (chars : List Char) : leadSlashes chars ≤ 2 := by
  unfold leadSlashes
  split
  · exact Nat.le_refl 2
  · split
    · exact Nat.le_succ 1
    · exact Nat.zero_le 2

theorem render_ne_nil {lead : Nat} {ns : List (List Char)} (hns : ∀ n ∈ ns, IsName '/' n)
    (h : lead ≠ 0 ∨ ns ≠ []) :
    render '/' lead ns ≠ [] := by
  intro hnil
  obtain ⟨hlead, hjoined⟩ := List.append_eq_nil_iff.1 hnil
  rcases h with h | h
  · exact h ((List.replicate_eq_nil_iff _).1 hlead)
  · obtain ⟨n, ns, rfl⟩ := List.exists_cons_of_ne_nil h
    rw [intercalate_cons] at hjoined
    exact (hns n List.mem_cons_self).1 (List.append_eq_nil_iff.1 hjoined).1

theorem ofList_ne_empty {chars : List Char} (h : chars ≠ []) : String.ofList chars ≠ "" := by
  intro heq
  refine h ?_
  have htext := congrArg String.toList heq
  rwa [String.toList_ofList] at htext

/-- The text that is left, if any is. -/
theorem toList_posixNormpath {chars : List Char} {ns : List (List Char)}
    (h : normComponents (leadSlashes chars = 0) [] (pathNames '/' chars) = ns)
    (hne : leadSlashes chars ≠ 0 ∨ ns ≠ []) :
    (posixNormpath (String.ofList chars)).toList = render '/' (leadSlashes chars) ns := by
  have hns : ∀ n ∈ ns, IsName '/' n := fun n hn => isName_of_mem (mem_normComponents (h ▸ hn))
  rw [posixNormpath_eq, String.toList_ofList, h]
  dsimp only
  rw [if_neg (ofList_ne_empty (render_ne_nil hns hne)), String.toList_ofList]

/-- Nothing is left to do for names that mean no other directory. -/
theorem toList_posixNormpath_proper {chars : List Char} (h : ∀ n ∈ pathNames '/' chars, Proper n)
    (hne : leadSlashes chars ≠ 0 ∨ pathNames '/' chars ≠ []) :
    (posixNormpath (String.ofList chars)).toList = render '/' (leadSlashes chars)
    (pathNames '/' chars) :=
  toList_posixNormpath (normComponents_proper h) hne

/-- No character is new. -/
theorem mem_posixNormpath {path : String} {c : Char} (h : c ∈ (posixNormpath path).toList) :
    c = '/' ∨ c = '.' ∨ c ∈ path.toList := by
  rw [posixNormpath_eq] at h
  dsimp only at h
  split at h
  · exact .inr (.inl (List.mem_singleton.1 h))
  · rw [String.toList_ofList] at h
    rcases mem_render h with rfl | ⟨n, hn, hc⟩
    · exact .inl rfl
    · exact .inr (.inr (mem_of_mem_pathNames (mem_normComponents hn) hc))

def IsDrive (n : List Char) : Prop :=
  ∃ letter, n = [letter, ':'] ∧ hasDriveLetter [letter, ':', '/'] = true

theorem proper_of_isDrive (h : IsDrive n) : Proper n := by
  obtain ⟨letter, rfl, hletter⟩ := h
  refine ⟨⟨List.cons_ne_nil _ _, fun hmem => ?_⟩, by simp, by simp⟩
  rcases List.mem_cons.1 hmem with rfl | hmem
  · exact absurd hletter (by decide)
  · exact absurd (List.mem_singleton.1 hmem) (by decide)

theorem hasDriveLetter_append (h : IsDrive n) (rest : List Char) :
    hasDriveLetter (n ++ '/' :: rest) = true := by
  obtain ⟨letter, rfl, hletter⟩ := h
  exact hletter

theorem exists_drive {chars : List Char} (h : hasDriveLetter chars = true) :
    ∃ drive rest, IsDrive drive ∧ chars = drive ++ '/' :: rest := by
  unfold hasDriveLetter at h
  split at h
  next letter rest => exact ⟨[letter, ':'], rest, ⟨letter, rfl, h⟩, rfl⟩
  next => cases h

theorem leadSlashes_drive {chars : List Char} (h : hasDriveLetter chars = true) :
    leadSlashes chars = 0 := by
  obtain ⟨drive, rest, hdrive, rfl⟩ := exists_drive h
  exact leadSlashes_name (proper_of_isDrive hdrive).1 (Nat.zero_le 2)

theorem leadSlashes_slash {chars : List Char} (h : ['/'].isPrefixOf chars = true) :
    leadSlashes chars = 1 ∨ leadSlashes chars = 2 := by
  unfold leadSlashes
  rw [if_pos h]
  split
  · exact .inr rfl
  · exact .inl rfl

/-! ### Normalized texts -/

/-- A lead of at most two slashes and names; below slashes or a drive letter, no name means another
directory. -/
structure NormalForm (chars : List Char) (lead : Nat) (ns : List (List Char)) : Prop where
  text : chars = render '/' lead ns
  names : ∀ n ∈ ns, IsName '/' n
  lead_le : lead ≤ 2
  named : lead = 0 → ns ≠ []
  proper : (lead = 0 → ∃ drive, ns.head? = some drive ∧ IsDrive drive) → ∀ n ∈ ns, Proper n

theorem normalForm_posixNormpath (path : String) :
    ∃ lead ns, NormalForm (posixNormpath path).toList lead ns := by
  rw [posixNormpath_eq]
  dsimp only
  split
  · have hdot : ∀ n ∈ [['.']], IsName '/' n := fun n hn => by
      obtain rfl := List.mem_singleton.1 hn
      exact ⟨List.cons_ne_nil _ _, by decide⟩
    refine ⟨0, [['.']], by decide, hdot, Nat.zero_le 2, fun _ => List.cons_ne_nil _ _, fun h => ?_⟩
    obtain ⟨drive, hhead, letter, rfl, -⟩ := h rfl
    cases hhead
  next htext =>
    have hnames : ∀ n ∈ pathNames '/' path.toList, IsName '/' n := fun n hn => isName_of_mem hn
    refine ⟨_, _, String.toList_ofList, fun n hn => hnames n (mem_normComponents hn),
      leadSlashes_le _, fun hlead hnil => ?_,
      fun h => ?_⟩
    · rw [hlead] at hnil
      rw [hlead, hnil] at htext
      exact htext rfl
    · by_cases hlead : leadSlashes path.toList = 0
      · obtain ⟨drive, hhead, hdrive⟩ := h hlead
        refine proper_of_head hnames (fun _ _ hn => absurd hn List.not_mem_nil) ?_
        rw [hhead]
        exact fun hdots => (proper_of_isDrive hdrive).2.2 (Option.some.inj hdots)
      · rw [decide_eq_false hlead]
        exact fun n hn => normComponents_rooted hnames (fun _ hm => absurd hm List.not_mem_nil) hn

/-- An absolute path without empty names, `.` and `..`; two slashes in front are kept as they
are. -/
def WellFormedPath (chars : List Char) : Prop :=
  ∃ lead ns, (∀ n ∈ ns, Proper n) ∧ chars = render '/' lead ns ∧
    (lead = 1 ∨ lead = 2 ∨ lead = 0 ∧ hasDriveLetter chars = true)

/-- The text begins with a slash, or with a drive letter and a slash. -/
def Rooted (chars : List Char) : Prop := ['/'].isPrefixOf chars = true ∨ hasDriveLetter chars = true

theorem rooted_of_wellFormed {chars : List Char} (h : WellFormedPath chars) : Rooted chars := by
  obtain ⟨lead, ns, hns, hchars, rfl | rfl | ⟨rfl, hdrive⟩⟩ := h
  · exact .inl (by rw [hchars]; rfl)
  · exact .inl (by rw [hchars]; rfl)
  · exact .inr hdrive

theorem lead_of_slash {lead : Nat} {ns : List (List Char)} (hns : ∀ n ∈ ns, IsName '/' n)
    (h : ['/'].isPrefixOf (render '/' lead ns) = true) : lead ≠ 0 := by
  rintro rfl
  cases ns with
  | nil => cases h
  | cons n ns =>
    obtain ⟨c, rest, rfl⟩ := List.exists_cons_of_ne_nil (hns n List.mem_cons_self).1
    rw [render_cons] at h
    have hslash : '/' = c := by simpa using h
    exact (hns _ List.mem_cons_self).2 (hslash ▸ List.mem_cons_self)

theorem NormalForm.head_of_drive {chars : List Char} {lead : Nat} {ns : List (List Char)}
    (h : NormalForm chars lead ns) (hdrive : hasDriveLetter chars = true) :
    lead = 0 ∧ ∃ drive rest, IsDrive drive ∧ ns = drive :: rest ∧ rest ≠ [] := by
  have hlead : leadSlashes chars = lead := h.text ▸ leadSlashes_render h.names h.lead_le
  have hzero : lead = 0 := hlead.symm.trans (leadSlashes_drive hdrive)
  obtain ⟨drive, rest, hisDrive, hchars⟩ := exists_drive hdrive
  have hnames := congrArg (pathNames '/') (h.text.symm.trans hchars)
  rw [pathNames_render h.names, pathNames_append_sep,
    pathNames_of_isName (proper_of_isDrive hisDrive).1] at hnames
  refine ⟨hzero, drive, pathNames '/' rest, hisDrive, hnames, fun hnil => ?_⟩
  have htext := h.text.symm.trans hchars
  rw [hnames, hnil, hzero] at htext
  have hlength := congrArg List.length htext
  simp [render] at hlength

theorem NormalForm.wellFormed {chars : List Char} {lead : Nat} {ns : List (List Char)}
    (h : NormalForm chars lead ns) (hrooted : Rooted chars) : WellFormedPath chars := by
  rcases hrooted with hslash | hdrive
  · have hlead := lead_of_slash h.names (h.text ▸ hslash)
    refine ⟨lead, ns, h.proper fun hzero => absurd hzero hlead, h.text, ?_⟩
    have hle := h.lead_le
    omega
  · obtain ⟨rfl, drive, rest, hisDrive, rfl, -⟩ := h.head_of_drive hdrive
    exact ⟨0, _, h.proper fun _ => ⟨drive, rfl, hisDrive⟩, h.text, .inr (.inr ⟨rfl, hdrive⟩)⟩

end Normpath

/-! ### `normalize_path` -/

/-- The text that is normalized. -/
def slashed (py : PyLib) (path : String) : List Char :=
  (py.strip path).toList.map fun c => if c = '\\' then '/' else c

/-- The path begins with a slash, or what its `..` leave begins with a drive letter and leads below
it. -/
def Anchored (py : PyLib) (path : String) : Prop :=
  ['/'].isPrefixOf (slashed py path) = true ∨
    ∃ front drive back depth, pathNames '/' (slashed py path) = front ++ drive :: back ∧
      climb 0 front = some 0 ∧
      IsDrive drive ∧ climb 0 back = some (depth + 1)

section Normalize
variable {py : PyLib} {path normalized : String}

theorem normalizePath_slashed : normalizePath py path =
    if slashed py path = [] ∨ (slashed py path).contains '\x00' = true ∨
    containsScheme (slashed py path) = true then none
    else if (!(['/'].isPrefixOf (slashed py path))) = true ∧
    (!hasDriveLetter (slashed py path)) = true then none
    else some (posixNormpath (String.ofList (slashed py path))) := rfl

theorem normalizePath_eq_some (h : normalizePath py path = some normalized) :
    '\x00' ∉ slashed py path ∧ containsScheme (slashed py path) = false ∧
      (['/'].isPrefixOf (slashed py path) = true ∨ hasDriveLetter (slashed py path) = true) ∧
      posixNormpath (String.ofList (slashed py path)) = normalized := by
  rw [normalizePath_slashed] at h
  split at h
  · cases h
  next hok =>
    split at h
    · cases h
    next hrooted =>
      rw [not_or, not_or] at hok
      refine ⟨fun hzero => hok.2.1 (List.contains_iff_mem.2 hzero), eq_false_of_ne_true hok.2.2, ?_,
        Option.some.inj h⟩
      cases hslash : ['/'].isPrefixOf (slashed py path) with
      | true => exact .inl rfl
      | false =>
        cases hdrive : hasDriveLetter (slashed py path) with
        | true => exact .inr rfl
        | false => exact absurd ⟨by rw [hslash]; rfl, by rw [hdrive]; rfl⟩ hrooted

theorem normalizePath_of_slashed (hzero : '\x00' ∉ slashed py path)
    (hscheme : containsScheme (slashed py path) = false)
    (hrooted : ['/'].isPrefixOf (slashed py path) = true ∨
      hasDriveLetter (slashed py path) = true) :
    normalizePath py path = some (posixNormpath (String.ofList (slashed py path))) := by
  rw [normalizePath_slashed, if_neg, if_neg]
  · rintro ⟨hslash, hdrive⟩
    rcases hrooted with h | h
    · rw [h] at hslash; cases hslash
    · rw [h] at hdrive; cases hdrive
  · rintro (hnil | hcontains | hcontains)
    · rw [hnil] at hrooted
      exact hrooted.elim Bool.false_ne_true Bool.false_ne_true
    · exact hzero (List.contains_iff_mem.1 hcontains)
    · rw [hscheme] at hcontains
      cases hcontains

theorem toList_of_wellFormed (hn : normalizePath py path = some normalized)
    (hwell : WellFormedPath normalized.toList) :
    normalized.toList = render '/' (leadSlashes (slashed py path))
      (normComponents (leadSlashes (slashed py path) = 0) []
        (pathNames '/' (slashed py path))) := by
  obtain ⟨-, -, -, rfl⟩ := normalizePath_eq_some hn
  rw [posixNormpath_eq, String.toList_ofList] at hwell ⊢
  dsimp only at hwell ⊢
  split
  next hnil =>
    rw [if_pos hnil] at hwell
    exact absurd (rooted_of_wellFormed hwell) (not_or.2 ⟨by decide, by decide⟩)
  next => exact String.toList_ofList

/-- Which paths are normalized to well-formed ones. -/
theorem wellFormed_iff_anchored (hn : normalizePath py path = some normalized) :
    WellFormedPath normalized.toList ↔ Anchored py path := by
  obtain ⟨-, -, hrooted, rfl⟩ := normalizePath_eq_some hn
  have hnames : ∀ n ∈ pathNames '/' (slashed py path), IsName '/' n := fun n hn => isName_of_mem hn
  obtain ⟨lead, ns, hform⟩ := normalForm_posixNormpath (String.ofList (slashed py path))
  rcases hrooted with hslash | hdrive
  · have hlead := leadSlashes_slash hslash
    have hne : leadSlashes (slashed py path) ≠ 0 := by rcases hlead with h | h <;> rw [h] <;> decide
    refine iff_of_true (hform.wellFormed (.inl ?_)) (.inl hslash)
    rw [toList_posixNormpath rfl (.inl hne)]
    rcases hlead with h | h <;> rw [h] <;> rfl
  · have hlead := leadSlashes_drive hdrive
    have htext : normComponents true [] (pathNames '/' (slashed py path)) ≠ [] →
        (posixNormpath (String.ofList (slashed py path))).toList =
          render '/' 0 (normComponents true [] (pathNames '/' (slashed py path))) := fun hne => by
      have htrue : decide (leadSlashes (slashed py path) = 0) = true := decide_eq_true hlead
      have h := @toList_posixNormpath (slashed py path) _ rfl (.inr (by rw [htrue]; exact hne))
      rwa [htrue, hlead] at h
    refine ⟨fun hwell => .inr ?_, ?_⟩
    · have hresult := toList_of_wellFormed hn hwell
      rw [hlead, decide_eq_true rfl] at hresult
      have hkept : ∀ n ∈ normComponents true [] (pathNames '/' (slashed py path)),
          IsName '/' n := fun n hn =>
        hnames n (mem_normComponents hn)
      have hsame := congrArg (pathNames '/') (hform.text.symm.trans hresult)
      rw [pathNames_render hform.names, pathNames_render hkept] at hsame
      rcases rooted_of_wellFormed hwell with hslash | hdrive
      · rw [hresult] at hslash
        exact absurd rfl (lead_of_slash hkept hslash)
      · obtain ⟨-, drive, rest, hisDrive, hns, hrest⟩ := hform.head_of_drive hdrive
        have hproper := hform.proper fun _ => ⟨drive, by rw [hns]; rfl, hisDrive⟩
        obtain ⟨front, back, hsplit, hfront, hback⟩ :=
          @split_normComponents true _ drive [] rest hnames (hns ▸ hproper)
          (hsame.symm.trans hns)
        obtain ⟨depth, hdepth⟩ :=
          Nat.exists_eq_succ_of_ne_zero fun hzero => hrest (List.eq_nil_of_length_eq_zero hzero)
        refine ⟨front, drive, back, depth, hsplit, ?_, hisDrive, by rw [hback, hdepth]⟩
        have hclimb := @climb_of_normComponents [] front (by rw [hfront]; exact List.not_mem_nil)
        rwa [hfront] at hclimb
    · rintro (hslash | ⟨front, drive, back, depth, hsplit, hfront, hisDrive, hback⟩)
      · rcases leadSlashes_slash hslash with h | h <;> rw [hlead] at h <;> cases h
      · have hproper := proper_of_isDrive hisDrive
        rw [hsplit] at hnames htext
        obtain ⟨kept, -, hlength, hkept⟩ := @normComponents_climb true front [] [] 0
          (fun n hn => hnames n (List.mem_append_left _ hn))
            (fun _ hn => absurd hn List.not_mem_nil) hfront
        obtain rfl := List.eq_nil_of_length_eq_zero hlength
        obtain ⟨names, hlength, hresult⟩ :=
          @normComponents_after true drive front back (depth + 1) hnames hproper hback
        rw [show normComponents true [] front = [] from hkept, List.nil_append] at hresult
        rw [hresult] at htext
        obtain ⟨first, names, rfl⟩ : ∃ first rest, names = first :: rest := by
          refine List.exists_cons_of_ne_nil fun hnil => ?_
          rw [hnil] at hlength
          cases hlength
        refine hform.wellFormed (.inr ?_)
        rw [htext (List.cons_ne_nil _ _), render_cons, below_cons]
        exact hasDriveLetter_append hisDrive _

theorem exists_of_containsScheme {chars : List Char} (h : containsScheme chars = true) :
    ∃ front back, chars = front ++ ':' :: '/' :: '/' :: back := by
  induction chars with
  | nil => cases h
  | cons c chars ih =>
    rw [containsScheme, Bool.or_eq_true] at h
    rcases h with h | h
    · obtain ⟨back, hback⟩ := List.isPrefixOf_iff_prefix.1 h
      exact ⟨[], back, hback.symm⟩
    · obtain ⟨front, back, rfl⟩ := ih h
      exact ⟨c :: front, back, rfl⟩

/-- The text ends in a character that `strip` takes away. -/
def EndsInSpace (py : PyLib) (text : String) : Prop :=
  ∃ c, text.toList.getLast? = some c ∧ py.isSpace c = true

theorem strip_parts (py : PyLib) (text : String) :
    ∃ front back, text.toList = front ++ (py.strip text).toList ++ back ∧
    (∀ c ∈ front, py.isSpace c = true) ∧ ∀ c ∈ back, py.isSpace c = true := by
  refine ⟨text.toList.takeWhile py.isSpace,
    ((text.toList.dropWhile py.isSpace).reverse.takeWhile py.isSpace).reverse, ?_,
    fun c hc => List.mem_takeWhile_imp hc, fun c hc =>
      List.mem_takeWhile_imp (List.mem_reverse.1 hc)⟩
  unfold PyLib.strip
  rw [String.toList_ofList, List.append_assoc, ← List.reverse_append,
    List.takeWhile_append_dropWhile, List.reverse_reverse,
    List.takeWhile_append_dropWhile]

theorem not_endsInSpace_strip : ¬ EndsInSpace py (py.strip path) := by
  rintro ⟨c, hlast, hspace⟩
  unfold PyLib.strip at hlast
  rw [String.toList_ofList, List.getLast?_reverse] at hlast
  have hnot := List.head?_dropWhile_not py.isSpace (path.toList.dropWhile py.isSpace).reverse
  rw [hlast] at hnot
  exact absurd (hspace.symm.trans hnot) Bool.noConfusion

theorem strip_of_ends {text : String}
    (hhead : ∀ c, text.toList.head? = some c → py.isSpace c = false)
    (hlast : ¬ EndsInSpace py text) : py.strip text = text := by
  obtain ⟨front, back, htext, hfront, hback⟩ := strip_parts py text
  have hnone : front = [] := by
    cases front with
    | nil => rfl
    | cons c front =>
      rw [htext] at hhead
      exact absurd ((hhead c rfl).symm.trans (hfront c List.mem_cons_self)) Bool.false_ne_true
  obtain rfl | ⟨back, c, rfl⟩ := List.eq_nil_or_concat' back
  · rw [hnone, List.nil_append, List.append_nil] at htext
    exact (String.toList_injective htext).symm
  · refine absurd ⟨c, ?_, hback c (by simp)⟩ hlast
    rw [htext, ← List.append_assoc]
    exact List.getLast?_concat

/-- Neither a slash nor a letter is white space. -/
def SpacesApart (py : PyLib) : Prop := ∀ c, c = '/' ∨ ('A' ≤ c ∧ c ≤ 'Z') ∨ ('a' ≤ c ∧ c ≤ 'z') →
    py.isSpace c = false

theorem head_of_wellFormed (hspaces : SpacesApart py) {chars : List Char}
    (h : WellFormedPath chars) {c : Char} (hc : chars.head? = some c) : py.isSpace c = false := by
  obtain ⟨lead, ns, hns, hchars, hlead⟩ := h
  refine hspaces c ?_
  rcases hlead with rfl | rfl | ⟨rfl, hdrive⟩
  · rw [hchars] at hc
    exact .inl (Option.some.inj hc).symm
  · rw [hchars] at hc
    exact .inl (Option.some.inj hc).symm
  · obtain ⟨_, rest, ⟨letter, rfl, hletter⟩, rfl⟩ := exists_drive hdrive
    obtain rfl := Option.some.inj hc
    exact .inr (by simpa [hasDriveLetter] using hletter)

theorem posixNormpath_of_wellFormed {chars : List Char} (h : WellFormedPath chars) :
    posixNormpath (String.ofList chars) = String.ofList chars := by
  have hrooted := rooted_of_wellFormed h
  obtain ⟨lead, ns, hns, hchars, hlead⟩ := h
  have hisName : ∀ n ∈ ns, IsName '/' n := fun n hn => (hns n hn).1
  have hslashes : leadSlashes chars = lead := by
    rw [hchars]
    exact leadSlashes_render hisName (by rcases hlead with rfl | rfl | ⟨rfl, -⟩ <;> decide)
  have hnames : pathNames '/' chars = ns := by rw [hchars, pathNames_render hisName]
  have hne : leadSlashes chars ≠ 0 ∨ pathNames '/' chars ≠ [] := by
    rw [hslashes, hnames]
    rcases hlead with rfl | rfl | ⟨rfl, hdrive⟩
    · exact .inl (by decide)
    · exact .inl (by decide)
    · refine .inr fun hnil => ?_
      rw [hchars, hnil] at hdrive
      cases hdrive
  have hresult := toList_posixNormpath_proper (fun n hn => hns n (hnames ▸ hn)) hne
  rw [hslashes, hnames, ← hchars] at hresult
  have htext := congrArg String.ofList hresult
  rwa [String.ofList_toList] at htext

/-- The last name that the `..` of the path leave ends in white space. -/
def Spaced (py : PyLib) (path : String) : Prop :=
  ∃ front last back c, pathNames '/' (slashed py path) = front ++ last :: back ∧
    climb 0 back = some 0 ∧ Proper last ∧
    last.getLast? = some c ∧ py.isSpace c = true

theorem endsInSpace_iff_spaced (hspaces : SpacesApart py)
    (hn : normalizePath py path = some normalized)
    (hwell : WellFormedPath normalized.toList) : EndsInSpace py normalized ↔ Spaced py path := by
  have hnames : ∀ n ∈ pathNames '/' (slashed py path), IsName '/' n := fun n hn => isName_of_mem hn
  have htext := toList_of_wellFormed hn hwell
  generalize decide (leadSlashes (slashed py path) = 0) = above at htext
  have hproper : ∀ n ∈ normComponents above [] (pathNames '/' (slashed py path)), Proper n := by
    obtain ⟨lead, ns, hns, hrender, -⟩ := hwell
    have hsame := congrArg (pathNames '/') (hrender.symm.trans htext)
    rw [pathNames_render fun n hn => (hns n hn).1, pathNames_render fun n hn =>
      hnames n (mem_normComponents hn)] at hsame
    exact hsame ▸ hns
  constructor
  · rintro ⟨c, hlast, hspace⟩
    rw [htext] at hlast
    obtain hnil | ⟨first, last, hkept⟩ :=
      List.eq_nil_or_concat' (normComponents above [] (pathNames '/' (slashed py path)))
    · rw [hnil, render_nil] at hlast
      have hslash := List.eq_of_mem_replicate (List.mem_of_getLast? hlast)
      exact absurd ((hspaces c (.inl hslash)).symm.trans hspace) Bool.false_ne_true
    · have hname := hproper last (by rw [hkept]; simp)
      obtain ⟨front, back, hsplit, -, hback⟩ := @split_normComponents above _ last first [] hnames
        (fun m hm => List.mem_singleton.1 hm ▸ hname) hkept
      rw [hkept, getLast?_render_concat hname.1.1] at hlast
      exact ⟨front, last, back, c, hsplit, hback, hname, hlast, hspace⟩
  · rintro ⟨front, last, back, c, hsplit, hback, hname, hlast, hspace⟩
    refine ⟨c, ?_, hspace⟩
    rw [hsplit] at hnames
    obtain ⟨names, hlength, hkept⟩ :=
      @normComponents_after above last front back 0 hnames hname hback
    obtain rfl := List.eq_nil_of_length_eq_zero hlength
    rw [htext, hsplit, hkept, getLast?_render_concat hname.1.1]
    exact hlast

/-- A result holds no backslash, and what is stripped of it is all that changes. -/
theorem slashed_normalized (hn : normalizePath py path = some normalized) :
    slashed py normalized = (py.strip normalized).toList := by
  obtain ⟨-, -, -, rfl⟩ := normalizePath_eq_some hn
  obtain ⟨front, back, htext, -⟩ := strip_parts py (posixNormpath (String.ofList (slashed py path)))
  refine (List.map_congr_left fun c hc => if_neg ?_).trans (List.map_id _)
  rintro rfl
  have hmem : '\\' ∈ (posixNormpath (String.ofList (slashed py path))).toList := by
    rw [htext]
    exact List.mem_append_left _ (List.mem_append_right _ hc)
  rcases mem_posixNormpath hmem with h | h | h
  · cases h
  · cases h
  · rw [String.toList_ofList] at h
    obtain ⟨c, -, heq⟩ := List.mem_map.1 h
    split at heq
    · cases heq
    next hne => exact hne heq

/-- Following `.` and `..` adds nothing between the slashes. -/
theorem length_posixNormpath {chars : List Char} (h : Rooted chars) :
    ((posixNormpath (String.ofList chars)).toList.filter (· ≠ '/')).length ≤
      (chars.filter (· ≠ '/')).length := by
  have hkept : ∀ above : Bool, ∀ n ∈ normComponents above [] (pathNames '/' chars), IsName '/' n :=
      fun _ n hn =>
    isName_of_mem (mem_normComponents hn)
  rw [posixNormpath_eq, String.toList_ofList]
  dsimp only
  split
  next hnil =>
    rcases h with hslash | hdrive
    · refine absurd hnil (ofList_ne_empty (render_ne_nil (hkept _) (.inl ?_)))
      rcases leadSlashes_slash hslash with h | h <;> rw [h] <;> decide
    · obtain ⟨_, rest, ⟨letter, rfl, -⟩, rfl⟩ := exists_drive hdrive
      exact List.length_pos_of_mem (List.mem_filter.2 ⟨(by simp : ':' ∈ _), by decide⟩)
  next =>
    rw [String.toList_ofList, ← flatten_pathNames, ← flatten_pathNames, pathNames_render (hkept _)]
    exact (List.Sublist.flatten normComponents_sublist).length_le

/-- The results that `normalize_path` leaves as they are. -/
theorem normalizePath_idempotent_iff (hspaces : SpacesApart py)
    (hn : normalizePath py path = some normalized) :
    normalizePath py normalized = some normalized ↔ WellFormedPath normalized.toList ∧
    ¬ EndsInSpace py normalized := by
  have hslashed := slashed_normalized hn
  obtain ⟨hzero, -, -, hnormalized⟩ := normalizePath_eq_some hn
  constructor
  · intro hagain
    obtain ⟨-, -, hrooted, hresult⟩ := normalizePath_eq_some hagain
    have hlength := length_posixNormpath hrooted
    rw [hresult, hslashed] at hlength
    have hstrip : py.strip normalized = normalized := by
      obtain ⟨front, back, htext, hfront, hback⟩ := strip_parts py normalized
      have hkept : ∀ part : List Char, (∀ c ∈ part, py.isSpace c = true) →
          part.filter (· ≠ '/') = part := fun part hpart =>
        List.filter_eq_self.2 fun c hc => decide_eq_true fun hslash =>
          absurd ((hspaces c (.inl hslash)).symm.trans (hpart c hc)) Bool.false_ne_true
      rw [htext, List.filter_append, List.filter_append, hkept front hfront, hkept back hback,
        List.length_append,
        List.length_append] at hlength
      obtain rfl := List.eq_nil_of_length_eq_zero (show front.length = 0 by omega)
      obtain rfl := List.eq_nil_of_length_eq_zero (show back.length = 0 by omega)
      rw [List.nil_append, List.append_nil] at htext
      exact (String.toList_injective htext).symm
    obtain ⟨lead, ns, hform⟩ := normalForm_posixNormpath (String.ofList (slashed py path))
    rw [hnormalized] at hform
    rw [hslashed, hstrip] at hrooted
    exact ⟨hform.wellFormed hrooted, hstrip ▸ not_endsInSpace_strip⟩
  · rintro ⟨hwell, hlast⟩
    have hstrip := strip_of_ends (fun c hc => head_of_wellFormed hspaces hwell hc) hlast
    have hnormal := @normalizePath_of_slashed py normalized
    rw [hslashed, hstrip, posixNormpath_of_wellFormed hwell, String.ofList_toList] at hnormal
    refine hnormal (fun hmem => ?_) ?_ (rooted_of_wellFormed hwell)
    · rw [← hnormalized] at hmem
      rcases mem_posixNormpath hmem with h | h | h
      · cases h
      · cases h
      · rw [String.toList_ofList] at h
        exact hzero h
    · refine eq_false_of_ne_true fun hscheme => ?_
      obtain ⟨front, back, heq⟩ := exists_of_containsScheme hscheme
      obtain ⟨lead, ns, hns, hrender, -⟩ := hwell
      exact render_ne_of_doubled (fun n hn => (hns n hn).1) (by decide) (hrender.symm.trans heq)

end Normalize

end Euvieouvi
