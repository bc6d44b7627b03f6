import Mathlib.Data.List.Basic
import Mathlib.Data.List.Nodup
import Mathlib.Order.Lattice

/-!
# Tables with a unique key

A table is the list of its rows in storage order together with the proof that no two rows have the
same key, so a state that a unique constraint excludes cannot be built. Statements act on the rows
that satisfy a condition and keep their keys; `insert` refuses a key that is taken and `rekey?`
refuses a change of keys that would make two of them equal.
-/

namespace Euvieouvi

structure Table {ρ κ : Type} (key : ρ → κ) where
  rows : List ρ
  nodup : (rows.map key).Nodup

/-- The `SET` clause of a statement that does not assign the key. -/
structure Assignment {ρ κ : Type} (key : ρ → κ) where
  apply : ρ → ρ
  key_apply : ∀ r, key (apply r) = key r := by intro _; rfl

instance {ρ κ : Type} {key : ρ → κ} : CoeFun (Assignment key) fun _ => ρ → ρ := ⟨Assignment.apply⟩

namespace Table

variable {ρ κ : Type} {key : ρ → κ}

theorem ext_rows {t t' : Table key} (h : t.rows = t'.rows) : t = t' := by
  cases t; cases t'; cases h; rfl

def empty : Table key := ⟨[], by simp⟩

@[simp] theorem rows_empty : (empty : Table key).rows = [] := rfl

theorem eq_of_key_eq (t : Table key) {r r' : ρ} (hr : r ∈ t.rows) (hr' : r' ∈ t.rows)
    (h : key r = key r') : r = r' :=
  List.inj_on_of_nodup_map t.nodup hr hr' h

theorem map_key_assign (l : List ρ) (p : ρ → Bool) (f : Assignment key) :
    (l.map fun r => if p r then f r else r).map key = l.map key := by
  rw [List.map_map]
  refine List.map_congr_left fun r _ => ?_
  simp only [Function.comp]
  split
  · exact f.key_apply r
  · rfl

/-- `UPDATE` of the rows that satisfy `p`. -/
def update (t : Table key) (p : ρ → Bool) (f : Assignment key) : Table key where
  rows := t.rows.map fun r => if p r then f r else r
  nodup := by rw [map_key_assign]; exact t.nodup

def delete (t : Table key) (p : ρ → Bool) : Table key where
  rows := t.rows.filter fun r => !p r
  nodup := (List.filter_sublist.map key).nodup t.nodup

@[simp] theorem rows_update (t : Table key) (p : ρ → Bool) (f : Assignment key) :
    (t.update p f).rows = t.rows.map fun r => if p r then f r else r := rfl

@[simp] theorem rows_delete (t : Table key) (p : ρ → Bool) :
    (t.delete p).rows = t.rows.filter fun r => !p r := rfl

theorem mem_update {t : Table key} {p : ρ → Bool} {f : Assignment key} {r : ρ} :
    r ∈ (t.update p f).rows ↔ ∃ r₀ ∈ t.rows, (if p r₀ then f r₀ else r₀) = r := by
  simp

/-- What the assignment gives its rows and a row had before is still found. -/
theorem exists_update {t : Table key} {p : ρ → Bool} {f : Assignment key} {P : ρ → Prop}
    (hf : ∀ r, P (f r)) {r : ρ}
    (hr : r ∈ t.rows) (h : P r ∨ p r = true) : ∃ r' ∈ (t.update p f).rows, P r' := by
  refine ⟨_, mem_update.2 ⟨r, hr, rfl⟩, ?_⟩
  split
  next => exact hf r
  next hp => exact h.resolve_right hp

/-- What every row has and the assignment keeps, every row still has. -/
theorem forall_update {t : Table key} {p : ρ → Bool} {f : Assignment key} {P : ρ → Prop}
    (h : ∀ r ∈ t.rows, P r) (hf : ∀ r, P r → P (f r)) : ∀ r ∈ (t.update p f).rows, P r := by
  intro r hr
  obtain ⟨r₀, hr₀, rfl⟩ := mem_update.1 hr
  split
  exacts [hf r₀ (h r₀ hr₀), h r₀ hr₀]

theorem mem_delete {t : Table key} {p : ρ → Bool} {r : ρ} :
    r ∈ (t.delete p).rows ↔ r ∈ t.rows ∧ p r = false := by
  simp

/-- After an update that takes every selected row away from `k`, and selects all rows at `k`, no row
is at `k`. -/
theorem update_away {β : Type} {t : Table key} {p : ρ → Bool} {f : Assignment key}
    {column : ρ → β} {k : β} (h : ∀ r ∈ t.rows, if p r then column (f r) ≠ k else column r ≠ k) :
    ∀ r ∈ (t.update p f).rows, column r ≠ k := by
  intro r hr
  obtain ⟨r₀, hr₀, rfl⟩ := mem_update.1 hr
  have := h r₀ hr₀
  split at this
  next hp => rwa [if_pos hp]
  next hp => rwa [if_neg hp]

variable [DecidableEq κ]

def get? (t : Table key) (k : κ) : Option ρ := t.rows.find? fun r => key r = k

def contains (t : Table key) (k : κ) : Bool := (t.get? k).isSome

/-- `INSERT` of one row; a taken key is refused and leaves the table as it is. -/
def insert (t : Table key) (r : ρ) : Table key :=
  if h : key r ∈ t.rows.map key then t
  else ⟨t.rows ++ [r], by
    rw [List.map_append, List.nodup_append]
    refine ⟨t.nodup, by simp, fun a ha b hb => ?_⟩
    rw [List.map_cons, List.map_nil, List.mem_singleton] at hb
    rintro rfl; exact h (hb ▸ ha)⟩

/-- `UPDATE` of the key column of the rows that satisfy `p`; a conflict refuses the statement. -/
def rekey? (t : Table key) (p : ρ → Bool) (f : ρ → ρ) : Option (Table key) :=
  if h : ((t.rows.map fun r => if p r then f r else r).map key).Nodup then some ⟨_, h⟩ else none

theorem get?_eq_some {t : Table key} {k : κ} {r : ρ} :
    t.get? k = some r ↔ r ∈ t.rows ∧ key r = k := by
  constructor
  · intro h
    exact ⟨List.mem_of_find?_eq_some h, by simpa using List.find?_some h⟩
  · rintro ⟨hr, rfl⟩
    cases hg : t.get? (key r) with
    | none => exact absurd (List.find?_eq_none.1 hg r hr) (by simp)
    | some r' =>
      have hk : key r' = key r := by simpa using List.find?_some hg
      rw [t.eq_of_key_eq (List.mem_of_find?_eq_some hg) hr hk]

theorem get?_eq_none {t : Table key} {k : κ} : t.get? k = none ↔ ∀ r ∈ t.rows, key r ≠ k := by
  simp [get?]

theorem get?_of_mem {t : Table key} {r : ρ} (h : r ∈ t.rows) : t.get? (key r) = some r :=
  get?_eq_some.2 ⟨h, rfl⟩

/-- Looking a row up does not depend on the storage order. -/
theorem get?_of_perm {t t' : Table key} (h : t.rows.Perm t'.rows) (k : κ) :
    t.get? k = t'.get? k := by
  cases hg : t'.get? k with
  | none => exact get?_eq_none.2 fun r hr => get?_eq_none.1 hg r (h.mem_iff.1 hr)
  | some r =>
    obtain ⟨hr, hk⟩ := get?_eq_some.1 hg
    exact get?_eq_some.2 ⟨h.mem_iff.2 hr, hk⟩

theorem mem_of_get? {t : Table key} {k : κ} {r : ρ} (h : t.get? k = some r) : r ∈ t.rows :=
  (get?_eq_some.1 h).1

theorem key_of_get? {t : Table key} {k : κ} {r : ρ} (h : t.get? k = some r) : key r = k :=
  (get?_eq_some.1 h).2

@[simp] theorem get?_empty (k : κ) : (empty : Table key).get? k = none := rfl

theorem get?_update (t : Table key) (p : ρ → Bool) (f : Assignment key) (k : κ) :
    (t.update p f).get? k = (t.get? k).map fun r => if p r then f r else r := by
  have hk : ∀ r, key (if p r then f r else r) = key r := by intro r; split <;> simp [f.key_apply]
  cases hg : t.get? k with
  | none =>
    rw [Option.map_none, get?_eq_none]
    rintro r hr rfl
    obtain ⟨r₀, hr₀, rfl⟩ := mem_update.1 hr
    exact get?_eq_none.1 hg r₀ hr₀ (hk r₀).symm
  | some r =>
    rw [Option.map_some, get?_eq_some]
    obtain ⟨hr, rfl⟩ := get?_eq_some.1 hg
    exact ⟨mem_update.2 ⟨r, hr, rfl⟩, hk r⟩

theorem get?_update_eq_none {t : Table key} {p : ρ → Bool} {f : Assignment key} {k : κ} :
    (t.update p f).get? k = none ↔ t.get? k = none := by
  rw [get?_update, Option.map_eq_none_iff]

theorem get?_delete (t : Table key) (p : ρ → Bool) (k : κ) :
    (t.delete p).get? k = (t.get? k).filter fun r => !p r := by
  cases hg : t.get? k with
  | none =>
    rw [Option.filter_none, get?_eq_none]
    exact fun r hr => get?_eq_none.1 hg r (mem_delete.1 hr).1
  | some r =>
    obtain ⟨hr, rfl⟩ := get?_eq_some.1 hg
    cases hp : p r with
    | false =>
      rw [Option.filter_some_pos (by simp [hp])]
      exact get?_eq_some.2 ⟨mem_delete.2 ⟨hr, hp⟩, rfl⟩
    | true =>
      rw [Option.filter_some_neg (by simp [hp]), get?_eq_none]
      intro r' hr' hk
      obtain ⟨hm, hp'⟩ := mem_delete.1 hr'
      rw [t.eq_of_key_eq hm hr hk, hp] at hp'; cases hp'

/-- `DELETE` of one key. -/
theorem get?_delete_key {t : Table key} {p : ρ → Bool} {k : κ}
    (hp : ∀ r, p r = true ↔ key r = k) (k' : κ) :
    (t.delete p).get? k' = if k' = k then none else t.get? k' := by
  rw [get?_delete]
  cases hg : t.get? k' with
  | none => simp
  | some r =>
    have hk : key r = k' := key_of_get? hg
    by_cases h : k' = k
    · rw [if_pos h, Option.filter_some_neg]
      simpa using (hp r).2 (hk.trans h)
    · rw [if_neg h, Option.filter_some_pos]
      cases hpr : p r with
      | false => rfl
      | true => exact absurd (hk.symm.trans ((hp r).1 hpr)) h

theorem rows_insert_of_get?_none {t : Table key} {r : ρ} (h : t.get? (key r) = none) :
    (t.insert r).rows = t.rows ++ [r] := by
  unfold insert
  rw [dif_neg]
  intro hm
  obtain ⟨r', hr', hk⟩ := List.mem_map.1 hm
  exact get?_eq_none.1 h r' hr' hk

theorem insert_of_get?_some {t : Table key} {r r' : ρ} (h : t.get? (key r) = some r') :
    t.insert r = t := by
  unfold insert
  rw [dif_pos]
  obtain ⟨hm, hk⟩ := get?_eq_some.1 h
  exact List.mem_map.2 ⟨r', hm, hk⟩

theorem mem_insert_of_mem {t : Table key} {r r' : ρ} (h : r' ∈ t.rows) :
    r' ∈ (t.insert r).rows := by
  unfold insert; split
  · exact h
  · exact List.mem_append_left _ h

theorem mem_insert {t : Table key} {r r' : ρ} (h : r' ∈ (t.insert r).rows) :
    r' ∈ t.rows ∨ r' = r := by
  unfold insert at h; split at h
  · exact .inl h
  · simpa using h

theorem forall_insert {t : Table key} {r : ρ} {P : ρ → Prop} (h : ∀ r ∈ t.rows, P r) (hr : P r) :
    ∀ r' ∈ (t.insert r).rows, P r' := by
  intro r' hr'
  rcases mem_insert hr' with hr' | rfl
  exacts [h r' hr', hr]

theorem get?_insert_self {t : Table key} {r : ρ} (h : t.get? (key r) = none) :
    (t.insert r).get? (key r) = some r :=
  get?_eq_some.2 ⟨by rw [rows_insert_of_get?_none h]; simp, rfl⟩

theorem get?_insert_ne {t : Table key} {r : ρ} {k : κ} (h : key r ≠ k) :
    (t.insert r).get? k = t.get? k := by
  cases hg : t.get? k with
  | none =>
    rw [get?_eq_none]
    intro r' hr'
    rcases mem_insert hr' with hr' | rfl
    · exact get?_eq_none.1 hg r' hr'
    · exact h
  | some r' =>
    obtain ⟨hr', hk⟩ := get?_eq_some.1 hg
    exact get?_eq_some.2 ⟨mem_insert_of_mem hr', hk⟩

/-- Rows with different keys are all inserted, in their order. -/
theorem rows_foldl_insert {l : List ρ} {t : Table key} (h : ((t.rows ++ l).map key).Nodup) :
    (l.foldl insert t).rows = t.rows ++ l := by
  induction l generalizing t with
  | nil => rw [List.append_nil]; rfl
  | cons r l ih =>
    have hr : key r ∉ t.rows.map key := by
      rw [List.map_append, List.nodup_append] at h
      exact fun hmem => h.2.2 _ hmem _ (List.mem_map_of_mem List.mem_cons_self) rfl
    have hrows : (t.insert r).rows = t.rows ++ [r] := by
      unfold insert; rw [dif_neg hr]
    rw [List.foldl_cons, ih (by rwa [hrows, List.append_assoc, List.singleton_append]), hrows,
      List.append_assoc,
      List.singleton_append]

/-- Inserting rows one after the other: the first row of a key stays. -/
theorem get?_foldl_insert (l : List ρ) (t : Table key) (k : κ) :
    (l.foldl insert t).get? k = (t.get? k).or (l.find? fun r => key r = k) := by
  induction l generalizing t with
  | nil => simp
  | cons r l ih =>
    rw [List.foldl_cons, ih, List.find?_cons]
    by_cases hk : key r = k
    · subst hk
      cases hg : t.get? (key r) with
      | none => rw [get?_insert_self hg]; simp
      | some r' => rw [insert_of_get?_some hg, hg]; simp
    · rw [get?_insert_ne hk]; simp [hk]

theorem rows_rekey? {t t' : Table key} {p : ρ → Bool} {f : ρ → ρ} (h : t.rekey? p f = some t') :
    t'.rows = t.rows.map fun r => if p r then f r else r := by
  unfold rekey? at h
  split at h
  · cases h; rfl
  · cases h

omit [DecidableEq κ] in
theorem update_of_none {t : Table key} {p : ρ → Bool} {f : Assignment key}
    (h : t.rows.any p = false) :
    t.update p f = t := by
  refine ext_rows ?_
  rw [rows_update]
  refine (List.map_congr_left fun r hr => ?_).trans (List.map_id t.rows)
  have hp : p r = false := by simpa using List.any_eq_false.1 h r hr
  rw [hp]; rfl

omit [DecidableEq κ] in
theorem delete_of_none {t : Table key} {p : ρ → Bool} (h : t.rows.any p = false) :
    t.delete p = t := by
  refine ext_rows (List.filter_eq_self.2 fun r hr => ?_)
  have hp : p r = false := by simpa using List.any_eq_false.1 h r hr
  simp [hp]

theorem insert_of_contains {t : Table key} {r : ρ} (h : t.contains (key r) = true) :
    t.insert r = t := by
  obtain ⟨r', hr'⟩ := Option.isSome_iff_exists.1 h
  exact insert_of_get?_some hr'

theorem mem_rekey? {t t' : Table key} {p : ρ → Bool} {f : ρ → ρ} {r : ρ}
    (h : t.rekey? p f = some t') :
    r ∈ t'.rows ↔ ∃ r₀ ∈ t.rows, (if p r₀ then f r₀ else r₀) = r := by
  rw [rows_rekey? h]; simp

/-- A change of keys that keeps the rows apart is not refused. -/
theorem rekey?_of_injOn {t : Table key} {p : ρ → Bool} {f : ρ → ρ}
    (h : ∀ r ∈ t.rows, ∀ r' ∈ t.rows,
      key (if p r then f r else r) = key (if p r' then f r' else r') → r = r') :
    ∃ t', t.rekey? p f = some t' := by
  have hnodup : ((t.rows.map fun r => if p r then f r else r).map key).Nodup := by
    rw [List.map_map]
    exact t.nodup.of_map.map_on fun r hr r' hr' hk => h r hr r' hr' hk
  exact ⟨_, dif_pos hnodup⟩

/-! ### Rows a statement does not select -/

section Keep
variable {t t' : Table key} {p keep : ρ → Bool} {r : ρ}

omit [DecidableEq κ] in
theorem filter_map_ite {f : ρ → ρ} {rows : List ρ}
    (h : ∀ r ∈ rows, p r = true → keep r = false ∧ keep (f r) = false) :
    (rows.map fun r => if p r then f r else r).filter keep = rows.filter keep := by
  rw [List.filter_map]
  have hkeep : ∀ r ∈ rows, (keep ∘ fun r => if p r then f r else r) r = keep r := by
    intro r hr
    show keep (if p r then f r else r) = keep r
    split
    next hp => rw [(h r hr hp).1, (h r hr hp).2]
    · rfl
  rw [List.filter_congr hkeep]
  refine (List.map_congr_left fun r hr => ?_).trans (List.map_id _)
  obtain ⟨hr, hk⟩ := List.mem_filter.1 hr
  have hp : ¬ p r = true := fun hp => by rw [(h r hr hp).1] at hk; cases hk
  rw [if_neg hp]; rfl

omit [DecidableEq κ] in
theorem filter_update {f : Assignment key}
    (h : ∀ r ∈ t.rows, p r = true → keep r = false ∧ keep (f r) = false) :
    (t.update p f).rows.filter keep = t.rows.filter keep := filter_map_ite h

theorem filter_rekey? {f : ρ → ρ} (ht : t.rekey? p f = some t')
    (h : ∀ r ∈ t.rows, p r = true → keep r = false ∧ keep (f r) = false) :
    t'.rows.filter keep = t.rows.filter keep := by
  rw [rows_rekey? ht]; exact filter_map_ite h

omit [DecidableEq κ] in
theorem filter_delete (h : ∀ r ∈ t.rows, p r = true → keep r = false) :
    (t.delete p).rows.filter keep = t.rows.filter keep := by
  rw [rows_delete, List.filter_filter]
  refine List.filter_congr fun r hr => ?_
  cases hp : p r with
  | true => rw [h r hr hp]; rfl
  | false => simp

theorem filter_insert (h : keep r = false) :
    (t.insert r).rows.filter keep = t.rows.filter keep := by
  cases hg : t.get? (key r) with
  | none => rw [rows_insert_of_get?_none hg, List.filter_append]; simp [h]
  | some r' => rw [insert_of_get?_some hg]

end Keep

theorem contains_insert {t : Table key} {r : ρ} {k : κ} :
    (t.insert r).contains k = true ↔ t.contains k = true ∨ key r = k := by
  unfold contains
  by_cases hk : key r = k
  · subst hk
    cases hg : t.get? (key r) with
    | none => simp [get?_insert_self hg]
    | some r' => simp [insert_of_get?_some hg, hg]
  · simp [get?_insert_ne hk, hk]

theorem contains_foldl_insert {l : List ρ} {t : Table key} {k : κ} :
    (l.foldl insert t).contains k = true ↔ t.contains k = true ∨ ∃ r ∈ l, key r = k := by
  induction l generalizing t with
  | nil => simp
  | cons r l ih => rw [List.foldl_cons, ih, contains_insert]; simp [or_assoc]

end Table

section NextId
variable {ρ : Type} {key : ρ → Nat}

/-- The id the next row gets: one more than the largest id in use. -/
def Table.nextId (t : Table key) : Nat := (t.rows.map key).foldr max 0 + 1

theorem le_foldr_max {l : List Nat} {n : Nat} (h : n ∈ l) : n ≤ l.foldr max 0 := by
  induction l with
  | nil => cases h
  | cons m l ih =>
    rcases List.mem_cons.1 h with rfl | h
    · exact Nat.le_max_left _ _
    · exact (ih h).trans (Nat.le_max_right _ _)

theorem Table.key_lt_nextId {t : Table key} {r : ρ} (h : r ∈ t.rows) : key r < t.nextId :=
  Nat.lt_succ_of_le (le_foldr_max (List.mem_map_of_mem h))

theorem foldr_max_le {l : List Nat} {m : Nat} (h : ∀ n ∈ l, n ≤ m) : l.foldr max 0 ≤ m := by
  induction l with
  | nil => exact Nat.zero_le m
  | cons n l ih =>
    exact max_le (h n List.mem_cons_self) (ih fun k hk => h k (List.mem_cons_of_mem _ hk))

theorem exists_largest (key : ρ → Nat) {l : List ρ} {r : ρ} (hr : r ∈ l) :
    ∃ m ∈ l, ∀ r ∈ l, key r ≤ key m := by
  induction l generalizing r with
  | nil => cases hr
  | cons a l ih =>
    rcases l with _ | ⟨b, l⟩
    · exact ⟨a, List.mem_cons_self, fun r hr => by rw [List.mem_singleton.1 hr]⟩
    · obtain ⟨m, hm, hmax⟩ := ih (r := b) List.mem_cons_self
      rcases Nat.le_total (key m) (key a) with h | h
      · refine ⟨a, List.mem_cons_self, fun r hr => ?_⟩
        rcases List.mem_cons.1 hr with rfl | hr
        exacts [le_rfl, (hmax r hr).trans h]
      · refine ⟨m, List.mem_cons_of_mem _ hm, fun r hr => ?_⟩
        rcases List.mem_cons.1 hr with rfl | hr
        exacts [h, hmax r hr]

/-- The next id does not fall while some row keeps an id at least as large as each old one. -/
theorem Table.nextId_le {t t' : Table key} (h : ∀ r ∈ t.rows, ∃ r' ∈ t'.rows, key r ≤ key r') :
    t.nextId ≤ t'.nextId := by
  refine Nat.succ_le_succ (foldr_max_le fun n hn => ?_)
  obtain ⟨r, hr, rfl⟩ := List.mem_map.1 hn
  obtain ⟨r', hr', hle⟩ := h r hr
  exact hle.trans (le_foldr_max (List.mem_map_of_mem hr'))

@[simp] theorem Table.nextId_update (t : Table key) (p : ρ → Bool) (f : Assignment key) :
    (t.update p f).nextId = t.nextId := by
  unfold nextId
  exact congrArg (·.foldr max 0 + 1) (Table.map_key_assign t.rows p f)

theorem Table.get?_nextId (t : Table key) : t.get? t.nextId = none :=
  get?_eq_none.2 fun _ hr => (key_lt_nextId hr).ne

end NextId

end Euvieouvi
