import Mathlib.Data.List.Basic

/-!
# Paging by cursor

A reader pages through a list: each request brings the first rows after a cursor, and the cursor of
the next request is the key of the last row of the page. `after c k` says that the key `k` comes
after the cursor `c`; the list may be in another order. Following the cursors ends
(`follow_terminates`), and it returns the list exactly when every cut between two pages separates
the rows before it from those after it in the order of the cursor (`follow_eq_iff`).
-/

namespace Euvieouvi

section Cursors
variable {α ι : Type*} (key : α → ι) (after : ι → ι → Bool) (size : Nat)

/-- The rows after a cursor. -/
def afterCursor (cursor : Option ι) (l : List α) : List α :=
  match cursor with
  | none => l
  | some c => l.filter fun x => after c (key x)

/-- A page of a list, and the cursor of the next one if one more row was found. -/
def cursorPage (l : List α) : List α × Option ι :=
  let rows := l.take (size + 1)
  (rows.take size, if size < rows.length then (rows.take size).getLast?.map key else none)

/-- The rows of all pages from a cursor on, with fuel for the requests. -/
def follow (l : List α) : Nat → Option ι → Option (List α)
  | 0, _ => none
  | fuel + 1, cursor =>
    let page := cursorPage key size (afterCursor key after cursor l)
    match page.2 with
    | none => some page.1
    | some next => (follow l fuel (some next)).map (page.1 ++ ·)

/-- At each cut, no row before it comes after its cursor, and every row after it does. -/
def CleanCuts (l : List α) : Prop :=
  ∀ pre x post, l = pre ++ x :: post → post ≠ [] → size ∣ pre.length + 1 →
    (∀ y ∈ pre ++ [x], after (key x) (key y) = false) ∧ ∀ y ∈ post, after (key x) (key y) = true

variable {key after size} {l : List α}

theorem cursorPage_of_short (h : l.length ≤ size) : cursorPage key size l = (l, none) := by
  have htake : l.take (size + 1) = l := List.take_of_length_le (by omega)
  unfold cursorPage
  dsimp only
  rw [htake, List.take_of_length_le h, if_neg (by omega)]

theorem cursorPage_of_split {pre post : List α} {x : α} (hpre : pre.length + 1 = size)
    (hpost : post ≠ []) :
    cursorPage key size (pre ++ x :: post) = (pre ++ [x], some (key x)) := by
  have hlen : 0 < post.length := List.length_pos_iff.2 hpost
  have htake : ((pre ++ x :: post).take (size + 1)).take size = pre ++ [x] := by
    rw [List.take_take, Nat.min_eq_left (Nat.le_succ size), ← hpre, List.append_cons,
      List.take_append_of_le_length (by simp), List.take_of_length_le (by simp)]
  unfold cursorPage
  dsimp only
  rw [htake, if_pos (by rw [List.length_take]; simp; omega)]
  simp

/-- A list is short, or it is cut after its first page. -/
theorem short_or_split (hsize : 0 < size) (l : List α) :
    l.length ≤ size ∨ ∃ pre x post, l = pre ++ x :: post ∧ pre.length + 1 = size ∧ post ≠ [] := by
  rcases Nat.lt_or_ge size l.length with hlong | hshort
  · refine .inr ⟨l.take (size - 1), l[size - 1], l.drop size, ?_, ?_, ?_⟩
    · have hdrop : l.drop (size - 1) = l[size - 1] :: l.drop size := by
        rw [List.drop_eq_getElem_cons (by omega), Nat.sub_add_cancel hsize]
      rw [← hdrop, List.take_append_drop]
    · rw [List.length_take]; omega
    · rw [Ne, List.drop_eq_nil_iff]; omega
  · exact .inl hshort

section Order
variable (hirrefl : ∀ c, after c c = false) (htrans : ∀ c d e, after c d = true → after d e = true →
  after c e = true)
include htrans

theorem filter_filter_after {c d : ι} (h : after c d = true) (l : List α) :
    (l.filter fun x => after c (key x)).filter (fun x => after d (key x)) = l.filter fun x =>
      after d (key x) := by
  rw [List.filter_filter]
  refine List.filter_congr fun x _ => ?_
  cases hd : after d (key x)
  · rfl
  · rw [htrans c d (key x) h hd]; rfl

/-- The rest of the pages is what following the rows after the cursor brings. -/
theorem follow_some (fuel : Nat) (c : ι) (l : List α) :
    follow key after size l fuel (some c) =
      follow key after size (l.filter fun x => after c (key x)) fuel none := by
  induction fuel generalizing c l with
  | zero => rfl
  | succ fuel ih =>
    unfold follow
    dsimp only [afterCursor]
    generalize hpage : cursorPage key size (l.filter fun x => after c (key x)) = page
    obtain ⟨rows, _ | next⟩ := page
    · rfl
    · have hnext : after c next = true := by
        have hsecond := congrArg Prod.snd hpage
        unfold cursorPage at hsecond
        dsimp only at hsecond
        split at hsecond
        · obtain ⟨x, hx, rfl⟩ := Option.map_eq_some_iff.1 hsecond
          have hmem := List.mem_of_mem_take (List.mem_of_mem_take (List.mem_of_getLast? hx))
          exact (List.mem_filter.1 hmem).2
        · cases hsecond
      dsimp only
      rw [ih next l, ih next, filter_filter_after htrans hnext]

theorem follow_split {pre post : List α} {x : α} (hpre : pre.length + 1 = size) (hpost : post ≠ [])
    (fuel : Nat) :
    follow key after size (pre ++ x :: post) (fuel + 1) none =
      (follow key after size ((pre ++ x :: post).filter fun y => after (key x) (key y)) fuel
        none).map (pre ++ [x] ++ ·) := by
  rw [← follow_some htrans]
  conv_lhs => unfold follow
  dsimp only [afterCursor]
  rw [cursorPage_of_split hpre hpost]

omit htrans in
theorem follow_short (h : l.length ≤ size) (fuel : Nat) :
    follow key after size l (fuel + 1) none = some l := by
  unfold follow
  dsimp only [afterCursor]
  rw [cursorPage_of_short h]

include hirrefl

/-- Each request leaves fewer rows to bring. -/
theorem follow_terminates (hsize : 0 < size) (l : List α) :
    ∃ fuel rows, follow key after size l fuel none = some rows := by
  induction hn : l.length using Nat.strongRecOn generalizing l with
  | ind n ih =>
    rcases short_or_split hsize l with hshort | ⟨pre, x, post, rfl, hpre, hpost⟩
    · exact ⟨1, l, follow_short hshort 0⟩
    · have hlt : ((pre ++ x :: post).filter fun y => after (key x) (key y)).length < n := by
        rw [← hn, List.length_filter_lt_length_iff_exists]
        exact ⟨x, by simp, by simp [hirrefl]⟩
      obtain ⟨fuel, rows, hrows⟩ := ih _ hlt _ rfl
      exact ⟨fuel + 1, _, by rw [follow_split htrans hpre hpost, hrows]; rfl⟩

end Order

/-! ### Clean cuts -/

theorem cleanCuts_of_short (h : l.length ≤ size) : CleanCuts key after size l := by
  rintro pre x post rfl hpost hdvd
  have hle := Nat.le_of_dvd (Nat.succ_pos _) hdvd
  have hlen : 0 < post.length := List.length_pos_iff.2 hpost
  simp only [List.length_append, List.length_cons] at h
  omega

/-- A list in the order of the cursors is cut cleanly. -/
theorem cleanCuts_of_pairwise (hirrefl : ∀ c, after c c = false)
    (hasymm : ∀ c d, after c d = true → after d c = false)
    (h : l.Pairwise fun x y => after (key x) (key y) = true) : CleanCuts key after size l := by
  rintro pre x post rfl - -
  have hparts := List.pairwise_append.1 h
  refine ⟨fun y hy => ?_, (List.pairwise_cons.1 hparts.2.1).1⟩
  rcases List.mem_append.1 hy with hy | hy
  · exact hasymm _ _ (hparts.2.2 y hy x List.mem_cons_self)
  · rw [List.mem_singleton.1 hy]
    exact hirrefl _

section Order
variable (htrans : ∀ c d e, after c d = true → after d e = true → after c e = true)
include htrans

theorem cleanCuts_split {pre post : List α} {x : α} (hpre : pre.length + 1 = size)
    (hpost : post ≠ []) :
    CleanCuts key after size (pre ++ x :: post) ↔
      ((∀ y ∈ pre ++ [x], after (key x) (key y) = false) ∧
        ∀ y ∈ post, after (key x) (key y) = true) ∧
        CleanCuts key after size post := by
  constructor
  · intro h
    refine ⟨h pre x post rfl hpost (hpre ▸ Nat.dvd_refl size), ?_⟩
    rintro pre' x' post' rfl hpost' hdvd
    have hcut := h (pre ++ x :: pre') x' post' (by simp) hpost' (by
      rw [List.length_append, List.length_cons]
      have heq : pre.length + (pre'.length + 1) + 1 = size + (pre'.length + 1) := by omega
      rw [heq]
      exact (Nat.dvd_add_right (Nat.dvd_refl size)).2 hdvd)
    refine ⟨fun y hy => hcut.1 y ?_, hcut.2⟩
    rcases List.mem_append.1 hy with hy | hy
    · exact List.mem_append_left _ (List.mem_append_right _ (List.mem_cons_of_mem _ hy))
    · exact List.mem_append_right _ hy
  · rintro ⟨⟨hbefore, hafter⟩, hrest⟩ pre' x' post' heq hpost' hdvd
    have hle := Nat.le_of_dvd (Nat.succ_pos _) hdvd
    rcases List.append_eq_append_iff.1 heq with ⟨mid, rfl, hmid⟩ | ⟨mid, rfl, hmid⟩
    · rcases mid with _ | ⟨z, mid⟩
      · obtain ⟨rfl, rfl⟩ := List.cons.inj hmid
        rw [List.append_nil]
        exact ⟨hbefore, hafter⟩
      · obtain ⟨rfl, rfl⟩ := List.cons.inj hmid
        have hdvd' : size ∣ mid.length + 1 := by
          have hsum : (pre ++ x :: mid).length + 1 = size + (mid.length + 1) := by
            rw [List.length_append, List.length_cons]
            omega
          rw [hsum] at hdvd
          exact (Nat.dvd_add_right (Nat.dvd_refl size)).1 hdvd
        obtain ⟨hbefore', hafter'⟩ := hrest mid x' post' rfl hpost' hdvd'
        refine ⟨fun y hy => ?_, hafter'⟩
        have hx' : after (key x) (key x') = true := hafter x' (by simp)
        rw [List.append_assoc, List.cons_append, List.append_cons] at hy
        rcases List.mem_append.1 hy with hy | hy
        · refine Bool.eq_false_iff.2 fun hy' => ?_
          have hfalse := hbefore y hy
          rw [htrans _ _ _ hx' hy'] at hfalse
          cases hfalse
        · exact hbefore' y hy
    · rcases mid with _ | ⟨z, mid⟩
      · obtain ⟨rfl, rfl⟩ := List.cons.inj hmid
        rw [List.append_nil] at hbefore
        exact ⟨hbefore, hafter⟩
      · rw [List.length_append, List.length_cons] at hpre
        omega

/-- What following brings begins as the list does, and is in it. -/
theorem follow_begins (hsize : 0 < size) {fuel : Nat} {rows : List α}
    (h : follow key after size l fuel none = some rows) :
    rows.head? = l.head? ∧ ∀ x ∈ rows, x ∈ l := by
  induction fuel generalizing l rows with
  | zero => cases h
  | succ fuel ih =>
    rcases short_or_split hsize l with hshort | ⟨pre, x, post, rfl, hpre, hpost⟩
    · rw [follow_short hshort, Option.some_inj] at h
      rw [h]
      exact ⟨rfl, fun _ hx => hx⟩
    · rw [follow_split htrans hpre hpost] at h
      obtain ⟨rest, hrest, rfl⟩ := Option.map_eq_some_iff.1 h
      constructor
      · cases pre <;> rfl
      · intro y hy
        rcases List.mem_append.1 hy with hy | hy
        · rw [List.append_cons]
          exact List.mem_append_left _ hy
        · exact (List.mem_filter.1 ((ih hrest).2 y hy)).1

/-- Following the cursors returns the list exactly when its cuts are clean. -/
theorem follow_eq_iff (hsize : 0 < size) (hnodup : l.Nodup) :
    (∃ fuel, follow key after size l fuel none = some l) ↔ CleanCuts key after size l := by
  constructor
  · rintro ⟨fuel, h⟩
    induction fuel generalizing l with
    | zero => cases h
    | succ fuel ih =>
      rcases short_or_split hsize l with hshort | ⟨pre, x, post, rfl, hpre, hpost⟩
      · exact cleanCuts_of_short hshort
      · rw [follow_split htrans hpre hpost] at h
        obtain ⟨rest, hrest, heq⟩ := Option.map_eq_some_iff.1 h
        obtain rfl : rest = post :=
          List.append_cancel_left (heq.trans (List.append_cons pre x post))
        obtain ⟨hhead, hmem⟩ := follow_begins htrans hsize hrest
        have hafter : ∀ y ∈ rest, after (key x) (key y) = true :=
          fun y hy => (List.mem_filter.1 (hmem y hy)).2
        have hdisjoint := (List.nodup_append.1 (List.append_cons pre x rest ▸ hnodup)).2.2
        -- a row of the page that comes after its cursor would be brought again, before the others
        have hbefore : (pre ++ [x]).filter (fun y => after (key x) (key y)) = [] := by
          rw [List.append_cons, List.filter_append] at hhead
          rcases hfilter : (pre ++ [x]).filter (fun y => after (key x) (key y)) with _ | ⟨y, ys⟩
          · rfl
          · rw [hfilter] at hhead
            have hy : y ∈ pre ++ [x] := (List.mem_filter.1 (hfilter ▸ List.mem_cons_self)).1
            exact absurd rfl (hdisjoint y hy y (List.mem_of_head? hhead))
        have hrows : (pre ++ x :: rest).filter (fun y => after (key x) (key y)) = rest := by
          rw [List.append_cons, List.filter_append, hbefore, List.nil_append]
          exact List.filter_eq_self.2 hafter
        rw [hrows] at hrest
        refine (cleanCuts_split htrans hpre hpost).2 ⟨⟨fun y hy => ?_, hafter⟩, ?_⟩
        · exact Bool.eq_false_iff.2 (List.filter_eq_nil_iff.1 hbefore y hy)
        · exact ih (List.nodup_append.1 (List.append_cons pre x rest ▸ hnodup)).2.1 hrest
  · induction hn : l.length using Nat.strongRecOn generalizing l with
    | ind n ih =>
      intro h
      rcases short_or_split hsize l with hshort | ⟨pre, x, post, rfl, hpre, hpost⟩
      · exact ⟨1, follow_short hshort 0⟩
      · obtain ⟨⟨hbefore, hafter⟩, hrest⟩ := (cleanCuts_split htrans hpre hpost).1 h
        have hrows : (pre ++ x :: post).filter (fun y => after (key x) (key y)) = post := by
          rw [List.append_cons, List.filter_append, List.filter_eq_nil_iff.2 fun y hy => by
            rw [hbefore y hy]; simp,
            List.nil_append]
          exact List.filter_eq_self.2 hafter
        obtain ⟨fuel, hfuel⟩ := ih post.length (by rw [← hn]; simp; omega)
          (List.nodup_append.1 (List.append_cons pre x post ▸ hnodup)).2.1 rfl hrest
        refine ⟨fuel + 1, ?_⟩
        rw [follow_split htrans hpre hpost, hrows, hfuel, Option.map_some, ← List.append_cons]

end Order

end Cursors

end Euvieouvi
