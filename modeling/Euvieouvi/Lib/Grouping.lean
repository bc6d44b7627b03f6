import Euvieouvi.Lib.Table
import Mathlib.Data.List.Perm.Basic
import Mathlib.Data.List.Dedup

/-!
# Grouped and keyed folds

`groupBy key rows` is the result of `GROUP BY key`: one group for each key that occurs, with its
rows. The groups hold every row once (`flatMap_groupBy_perm`), and the groups of some keys are the
groups of their rows (`groupBy_filter`). `foldl_modifyAt` reads the value a keyed accumulation
leaves under one key: the fold of the rows of that key. A `Dict` is a table of pairs.
-/

namespace Euvieouvi

variable {ρ κ ν β σ : Type}

section EraseDups
variable [DecidableEq κ]

theorem nodup_eraseDups (l : List κ) : l.eraseDups.Nodup := by
  induction h : l.length using Nat.strongRecOn generalizing l with
  | ind n ih =>
    cases l with
    | nil => simp
    | cons a l =>
      rw [List.eraseDups_cons, List.nodup_cons]
      refine ⟨by simp [List.mem_eraseDups], ih _ ?_ _ rfl⟩
      have := List.length_filter_le (fun b => !b == a) l
      simp only [List.length_cons] at h
      omega

theorem eraseDups_filter (p : κ → Bool) (l : List κ) :
    (l.filter p).eraseDups = l.eraseDups.filter p := by
  induction h : l.length using Nat.strongRecOn generalizing l with
  | ind n ih =>
    cases l with
    | nil => rfl
    | cons a l =>
      have hlen := List.length_filter_le (fun b => !b == a) l
      simp only [List.length_cons] at h
      have hrest := ih _ (by omega) (l.filter fun b => !b == a) rfl
      rw [List.eraseDups_cons, List.filter_cons]
      by_cases hp : p a
      · rw [if_pos hp, List.filter_cons_of_pos hp, List.eraseDups_cons, ← hrest, List.filter_filter,
          List.filter_filter]
        simp only [Bool.and_comm]
      · rw [if_neg hp, List.filter_cons_of_neg hp, ← hrest, List.filter_filter]
        refine congrArg _ (List.filter_congr fun b _ => ?_)
        by_cases hb : b = a
        · subst hb; simpa using hp
        · simp [hb]

end EraseDups

section GroupBy
variable [DecidableEq κ] {key : ρ → κ}

def groupBy (key : ρ → κ) (rows : List ρ) : List (κ × List ρ) :=
  (rows.map key).eraseDups.map fun k => (k, rows.filter fun r => key r = k)

@[simp] theorem groupBy_nil : groupBy key [] = [] := rfl

theorem mem_groupBy {rows l : List ρ} {k : κ} (h : (k, l) ∈ groupBy key rows) :
    l = rows.filter (fun r => key r = k) ∧ k ∈ rows.map key := by
  obtain ⟨k', hk, heq⟩ := List.mem_map.1 h
  cases heq
  exact ⟨rfl, List.mem_eraseDups.1 hk⟩

theorem exists_groupBy {rows : List ρ} {r : ρ} (h : r ∈ rows) :
    (key r, rows.filter fun r' => key r' = key r) ∈ groupBy key rows :=
  List.mem_map.2 ⟨key r, List.mem_eraseDups.2 (List.mem_map_of_mem h), rfl⟩

theorem groupBy_cons (r : ρ) (rows : List ρ) :
    groupBy key (r :: rows) = (key r, (r :: rows).filter fun r' => key r' = key r) ::
      groupBy key (rows.filter fun r' => key r' ≠ key r) := by
  have hkeys : (rows.map key).filter (fun k => !k == key r) =
      (rows.filter fun r' => key r' ≠ key r).map key := by
    rw [List.filter_map]
    congr 1
    refine List.filter_congr fun r' _ => ?_
    by_cases h : key r' = key r <;> simp [h]
  unfold groupBy
  rw [List.map_cons, List.eraseDups_cons, List.map_cons, hkeys]
  congr 1
  refine List.map_congr_left fun k hk => ?_
  have hne : key r ≠ k := by
    rintro rfl
    obtain ⟨r', hr', hk'⟩ := List.mem_map.1 (List.mem_eraseDups.1 hk)
    have := (List.mem_filter.1 hr').2
    simp [hk'] at this
  rw [List.filter_cons_of_neg (by simpa using hne), List.filter_filter]
  congr 1
  refine List.filter_congr fun r' _ => ?_
  by_cases h : key r' = k
  · simp [h, Ne.symm hne]
  · simp [h]

/-- The groups hold every row once. -/
theorem flatMap_groupBy_perm (key : ρ → κ) (rows : List ρ) :
    ((groupBy key rows).flatMap Prod.snd).Perm rows := by
  induction h : rows.length using Nat.strongRecOn generalizing rows with
  | ind n ih =>
    cases rows with
    | nil => exact .refl _
    | cons r rows =>
      have hlen := List.length_filter_le (fun r' => decide (key r' ≠ key r)) rows
      simp only [List.length_cons] at h
      have hrest := ih _ (by omega) (rows.filter fun r' => key r' ≠ key r) rfl
      rw [groupBy_cons, List.flatMap_cons]
      refine (hrest.append_left _).trans ?_
      have hsplit := List.filter_append_perm (fun r' => decide (key r' = key r)) (r :: rows)
      have hneg : (r :: rows).filter (fun r' => !decide (key r' = key r)) =
          rows.filter fun r' => key r' ≠ key r := by
        rw [List.filter_cons_of_neg (by simp)]
        refine List.filter_congr fun r' _ => by simp
      rwa [hneg] at hsplit

/-- The groups of some keys are the groups of their rows. -/
theorem groupBy_filter (p : κ → Bool) (rows : List ρ) :
    (groupBy key rows).filter (fun g => p g.1) = groupBy key (rows.filter fun r => p (key r)) := by
  unfold groupBy
  have hkeys : (rows.filter fun r => p (key r)).map key = (rows.map key).filter p := by
    rw [List.filter_map]; rfl
  rw [List.filter_map, hkeys, eraseDups_filter]
  refine List.map_congr_left fun k hk => ?_
  have hpk : p k = true := (List.mem_filter.1 hk).2
  rw [List.filter_filter]
  refine congrArg (Prod.mk k) (List.filter_congr fun r _ => ?_)
  by_cases hr : key r = k
  · simp [hr, hpk]
  · simp [hr]

/-- The groups depend on which rows share a key, not on the keys. -/
theorem groupBy_snd_congr {μ : Type} [DecidableEq μ] {key' : ρ → μ} {rows : List ρ}
    (h : ∀ r ∈ rows, ∀ r' ∈ rows, key r = key r' ↔ key' r = key' r') :
    (groupBy key rows).map Prod.snd = (groupBy key' rows).map Prod.snd := by
  induction hn : rows.length using Nat.strongRecOn generalizing rows with
  | ind n ih =>
    cases rows with
    | nil => rfl
    | cons r rows =>
      have hlen := List.length_filter_le (fun r' => decide (key r' ≠ key r)) rows
      simp only [List.length_cons] at hn
      have hsame : ∀ r' ∈ r :: rows, (key r' = key r ↔ key' r' = key' r) :=
        fun r' hr' => h r' hr' r List.mem_cons_self
      have hout : rows.filter (fun r' => key r' ≠ key r) = rows.filter fun r' => key' r' ≠ key' r :=
        List.filter_congr fun r' hr' => by simp [hsame r' (List.mem_cons_of_mem _ hr')]
      have hin : (r :: rows).filter (fun r' => key r' = key r) = (r :: rows).filter fun r' =>
          key' r' = key' r :=
        List.filter_congr fun r' hr' => by simp [hsame r' hr']
      have hrest : (groupBy key (rows.filter fun r' => key r' ≠ key r)).map Prod.snd =
          (groupBy key' (rows.filter fun r' => key r' ≠ key r)).map Prod.snd :=
        ih _ (by omega) (fun a ha b hb => h a (List.mem_cons_of_mem _ (List.mem_filter.1 ha).1) b
          (List.mem_cons_of_mem _ (List.mem_filter.1 hb).1)) rfl
      rw [groupBy_cons, groupBy_cons, List.map_cons, List.map_cons, hrest, hout, hin]

/-- Each group of some rows is, up to order, a group of the same rows in another order. -/
theorem exists_groupBy_perm {rows rows' : List ρ} (h : rows.Perm rows') {g : κ × List ρ}
    (hg : g ∈ groupBy key rows) :
    ∃ g' ∈ groupBy key rows', g.1 = g'.1 ∧ g.2.Perm g'.2 := by
  obtain ⟨k, l⟩ := g
  obtain ⟨rfl, hk⟩ := mem_groupBy hg
  obtain ⟨r, hr, rfl⟩ := List.mem_map.1 hk
  exact ⟨_, exists_groupBy (h.mem_iff.1 hr), rfl, h.filter _⟩

end GroupBy

section ModifyAt
variable [DecidableEq κ]

/-- `s[k] = f(s[k])`, if there is a `k`. -/
def modifyAt (k : Option κ) (f : ν → ν) (s : κ → ν) : κ → ν :=
  match k with
  | some k => Function.update s k (f (s k))
  | none => s

theorem modifyAt_self (k : κ) (f : ν → ν) (s : κ → ν) :
    modifyAt (some k) f s k = f (s k) := by simp [modifyAt]

theorem modifyAt_of_ne {k : Option κ} {k' : κ} (h : k ≠ some k') (f : ν → ν) (s : κ → ν) :
    modifyAt k f s k' = s k' := by
  cases k with
  | none => rfl
  | some k => exact Function.update_of_ne (by rintro rfl; exact h rfl) ..

/-- What the accumulation leaves under `k`: the fold of the rows whose key is `k`. -/
theorem foldl_modifyAt (key : ρ → Option κ) (f : ρ → ν → ν) (rows : List ρ) (s : κ → ν) (k : κ) :
    rows.foldl (fun s r => modifyAt (key r) (f r) s) s k =
      (rows.filter fun r => key r = some k).foldl (fun v r => f r v) (s k) := by
  induction rows generalizing s with
  | nil => rfl
  | cons r rows ih =>
    rw [List.foldl_cons, ih]
    by_cases hr : key r = some k
    · rw [List.filter_cons_of_pos (by simp [hr]), List.foldl_cons, hr, modifyAt_self]
    · rw [List.filter_cons_of_neg (by simp [hr]), modifyAt_of_ne hr]

end ModifyAt

abbrev Dict (κ ν : Type) := Table (Prod.fst : κ × ν → κ)

namespace Dict
variable [DecidableEq κ] {d : Dict κ ν} {k k' : κ} {f : Option ν → ν}

def lookup (d : Dict κ ν) (k : κ) : Option ν := (Table.get? d k).map Prod.snd

/-- `d[k] = f(d.get(k))`. -/
def upsert (d : Dict κ ν) (k : κ) (f : Option ν → ν) : Dict κ ν :=
  match d.get? k with
  | some _ => d.update (fun r => r.1 = k) ⟨fun r => (r.1, f (some r.2)), fun _ => rfl⟩
  | none => d.insert (k, f none)

@[simp] theorem lookup_empty : lookup (.empty : Dict κ ν) k = none := rfl

theorem lookup_upsert_self : (d.upsert k f).lookup k = some (f (d.lookup k)) := by
  unfold upsert lookup
  cases hg : d.get? k with
  | none =>
    show ((d.insert (k, f none)).get? k).map Prod.snd = _
    have hself := Table.get?_insert_self (t := d) (r := (k, f none)) hg
    rw [hself]; rfl
  | some r =>
    have hk : r.1 = k := Table.key_of_get? hg
    simp only [Table.get?_update, hg, Option.map_some, hk, decide_true, if_true]

theorem lookup_upsert_of_ne (h : k' ≠ k) : (d.upsert k f).lookup k' = d.lookup k' := by
  unfold upsert lookup
  cases hg : d.get? k with
  | none =>
    show ((d.insert (k, f none)).get? k').map Prod.snd = _
    rw [Table.get?_insert_ne (r := (k, f none)) (Ne.symm h)]
  | some r =>
    simp only [Table.get?_update, Option.map_map]
    cases hg' : d.get? k' with
    | none => rfl
    | some r' =>
      have hk : r'.1 = k' := Table.key_of_get? hg'
      simp [Function.comp, hk, h]

theorem mem_rows_iff {v : ν} : (k, v) ∈ d.rows ↔ d.lookup k = some v := by
  unfold lookup
  constructor
  · intro h
    have := Table.get?_of_mem h
    simp only at this
    rw [this]; rfl
  · intro h
    obtain ⟨r, hr, hv⟩ := Option.map_eq_some_iff.1 h
    obtain ⟨hm, hk⟩ := Table.get?_eq_some.1 hr
    rw [← hk, ← hv]; exact hm

end Dict

end Euvieouvi
