import Euvieouvi.Identity.Paths

/-!
# Path evidence under changing roots

`remap_paths` indexes the paths that are stored, and a reference stores one path of a key. Two files
that a mapping brings to one path are one row from then on, and no later mapping has both again.
`evidence_independent_iff` says for which sequences of mappings the evidence is that of the
collected paths under the last one.
-/

namespace Euvieouvi

/-! ### The keys of some paths -/

section Keys
variable {py : PyLib} {paths : List String} {roots : List PathRoot}
  {original canonical key : String}

theorem posixNormpath_ne_empty (path : String) : posixNormpath path ≠ "" := by
  have hor : ∀ text : String, (if text = "" then "." else text) ≠ "" := by
    intro text
    split
    next => decide
    next h => exact h
  exact hor _

theorem canonicalPath_ne_empty (h : canonicalPath py original roots = some canonical) :
    canonical ≠ "" := by
  unfold canonicalPath at h
  obtain ⟨normalized, hnormalized, hcanonical⟩ := Option.map_eq_some_iff.1 h
  dsimp only at hcanonical
  split at hcanonical
  next => exact hcanonical ▸ posixNormpath_ne_empty _
  next =>
    unfold normalizePath at hnormalized
    dsimp only at hnormalized
    split at hnormalized
    · cases hnormalized
    · split at hnormalized
      · cases hnormalized
      · rw [← hcanonical, ← Option.some.inj hnormalized]
        exact posixNormpath_ne_empty _

/-- The canonical path depends on the normalized one only. -/
theorem canonicalPath_congr {other : String}
    (h : normalizePath py original = normalizePath py other) :
    canonicalPath py original roots = canonicalPath py other roots := by
  unfold canonicalPath
  rw [h]

theorem canonicalPath_nil : canonicalPath py original [] = normalizePath py original := by
  unfold canonicalPath
  cases normalizePath py original <;> rfl

theorem lookup_eq_some {keys : PathKeys} {value : String × String} :
    keys.lookup key = some value ↔ (key, value) ∈ keys.rows := by
  unfold Dict.lookup
  rw [Option.map_eq_some_iff]
  constructor
  · rintro ⟨⟨key', value⟩, hget, rfl⟩
    obtain ⟨hmem, rfl⟩ := Table.get?_eq_some.1 hget
    exact hmem
  · exact fun h => ⟨_, Table.get?_eq_some.2 ⟨h, rfl⟩, rfl⟩

/-- One path of `path_keys`. -/
def addKey (py : PyLib) (roots : List PathRoot) (result : PathKeys)
    (original : String) : PathKeys :=
  match canonicalPath py original roots with
  | some canonical =>
    if canonical = "" then result else result.upsert (py.sha256 canonical) fun _ =>
      (original, canonical)
  | none => result

theorem pathKeys_eq : pathKeys py paths roots = paths.foldl (addKey py roots) .empty := by
  unfold pathKeys
  refine congrArg (fun f => paths.foldl f _) (funext fun result => funext fun original => ?_)
  unfold addKey
  cases canonicalPath py original roots <;> rfl

theorem lookup_addKey {result : PathKeys} (h : canonicalPath py original roots = some canonical) :
    (addKey py roots result original).lookup key =
      if key = py.sha256 canonical then some (original, canonical) else result.lookup key := by
  unfold addKey
  rw [h]
  dsimp only
  rw [if_neg (canonicalPath_ne_empty h)]
  split
  next heq => rw [heq, Dict.lookup_upsert_self]
  next hne => rw [Dict.lookup_upsert_of_ne hne]

theorem addKey_of_none {result : PathKeys} (h : canonicalPath py original roots = none) :
    addKey py roots result original = result := by
  unfold addKey
  rw [h]

/-- What is stored under a key. -/
theorem lookup_pathKeys (h : (pathKeys py paths roots).lookup key = some (original, canonical)) :
    original ∈ paths ∧ canonicalPath py original roots = some canonical ∧
    py.sha256 canonical = key := by
  suffices hfold : ∀ (rest : List String) (result : PathKeys), rest ⊆ paths →
      (∀ key original canonical, result.lookup key = some (original, canonical) →
        original ∈ paths ∧ canonicalPath py original roots = some canonical ∧
          py.sha256 canonical = key) →
      (rest.foldl (addKey py roots) result).lookup key = some (original, canonical) →
      original ∈ paths ∧ canonicalPath py original roots = some canonical ∧
        py.sha256 canonical = key by
    rw [pathKeys_eq] at h
    refine hfold paths .empty (List.Subset.refl _) (fun key original canonical hnone => ?_) h
    rw [Dict.lookup_empty] at hnone
    cases hnone
  intro rest
  induction rest with
  | nil => exact fun result _ hresult hkey => hresult _ _ _ hkey
  | cons path rest ih =>
    intro result hsubset hresult hkey
    rw [List.foldl_cons] at hkey
    refine ih (addKey py roots result path) (fun _ hmem => hsubset (List.mem_cons_of_mem _ hmem))
      (fun key' original' canonical' hlookup => ?_) hkey
    cases hcanonical : canonicalPath py path roots with
    | none =>
      rw [addKey_of_none hcanonical] at hlookup
      exact hresult _ _ _ hlookup
    | some found =>
      rw [lookup_addKey hcanonical] at hlookup
      split at hlookup
      next heq =>
        obtain ⟨rfl, rfl⟩ := Prod.mk.inj (Option.some.inj hlookup)
        exact ⟨hsubset List.mem_cons_self, hcanonical, heq.symm⟩
      next => exact hresult _ _ _ hlookup

/-- Every path has its key. -/
theorem exists_lookup_pathKeys (hmem : original ∈ paths)
    (h : canonicalPath py original roots = some canonical) :
    ∃ other found, (pathKeys py paths roots).lookup (py.sha256 canonical) =
      some (other, found) := by
  suffices hfold : ∀ (rest : List String) (result : PathKeys),
      (original ∈ rest ∨ ∃ value, result.lookup (py.sha256 canonical) = some value) →
      ∃ value, (rest.foldl (addKey py roots) result).lookup (py.sha256 canonical) = some value by
    rw [pathKeys_eq]
    obtain ⟨⟨other, found⟩, hvalue⟩ := hfold paths .empty (.inl hmem)
    exact ⟨other, found, hvalue⟩
  intro rest
  induction rest with
  | nil => exact fun result hresult => hresult.resolve_left List.not_mem_nil
  | cons path rest ih =>
    intro result hresult
    rw [List.foldl_cons]
    refine ih (addKey py roots result path) ?_
    rcases hresult with hpath | ⟨value, hvalue⟩
    · rcases List.mem_cons.1 hpath with rfl | hrest
      · exact .inr ⟨(original, canonical), by rw [lookup_addKey h, if_pos rfl]⟩
      · exact .inl hrest
    · refine .inr ?_
      cases hfound : canonicalPath py path roots with
      | none => exact ⟨value, by rw [addKey_of_none hfound, hvalue]⟩
      | some found =>
        rw [lookup_addKey hfound]
        split
        next => exact ⟨_, rfl⟩
        next => exact ⟨value, hvalue⟩

/-- No two of the paths have different canonical paths with one digest. -/
def DigestsApart (py : PyLib) (paths : List String) (roots : List PathRoot) : Prop :=
  ∀ p ∈ paths, ∀ p' ∈ paths, ∀ canonical canonical', canonicalPath py p roots = some canonical →
    canonicalPath py p' roots = some canonical' → py.sha256 canonical = py.sha256 canonical' →
      canonical = canonical'

/-- No two of the paths that are different once normalized have one key. -/
def Separates (py : PyLib) (paths : List String) (roots : List PathRoot) : Prop :=
  ∀ p ∈ paths, ∀ p' ∈ paths, ∀ canonical canonical', canonicalPath py p roots = some canonical →
    canonicalPath py p' roots = some canonical' → py.sha256 canonical = py.sha256 canonical' →
    normalizePath py p = normalizePath py p'

/-- Every file of the first paths is one of the others. -/
def Covers (py : PyLib) (collected paths : List String) : Prop :=
  ∀ p ∈ collected, normalizePath py p ≠ none →
    ∃ p' ∈ paths, normalizePath py p' = normalizePath py p

/-- The path is the one of its key. -/
def Kept (py : PyLib) (paths : List String) (roots : List PathRoot) (original : String) : Prop :=
  ∃ key canonical, (pathKeys py paths roots).lookup key = some (original, canonical)

variable {collected : List String}

theorem Kept.mem (h : Kept py paths roots original) : original ∈ paths :=
  let ⟨_, _, hlookup⟩ := h
  (lookup_pathKeys hlookup).1

theorem Kept.eq_of_sha256 {other canonical' : String} (h : Kept py paths roots original)
    (h' : Kept py paths roots other)
    (hc : canonicalPath py original roots = some canonical)
    (hc' : canonicalPath py other roots = some canonical')
    (heq : py.sha256 canonical = py.sha256 canonical') : original = other := by
  obtain ⟨key, found, hlookup⟩ := h
  obtain ⟨key', found', hlookup'⟩ := h'
  obtain ⟨-, hfound, rfl⟩ := lookup_pathKeys hlookup
  obtain ⟨-, hfound', rfl⟩ := lookup_pathKeys hlookup'
  obtain rfl := Option.some.inj (hfound.symm.trans hc)
  obtain rfl := Option.some.inj (hfound'.symm.trans hc')
  rw [heq] at hlookup
  exact congrArg Prod.fst (Option.some.inj (hlookup.symm.trans hlookup'))

theorem exists_canonicalPath (roots : List PathRoot) (h : normalizePath py original ≠ none) :
    ∃ canonical, canonicalPath py original roots = some canonical := by
  obtain ⟨normalized, hnormalized⟩ := Option.ne_none_iff_exists'.1 h
  unfold canonicalPath
  rw [hnormalized]
  exact ⟨_, rfl⟩

theorem normalizePath_ne_none (h : canonicalPath py original roots = some canonical) :
    normalizePath py original ≠ none := by
  intro hnone
  unfold canonicalPath at h
  rw [hnone] at h
  cases h

/-- Under roots that keep the files apart, no file is lost. -/
theorem Separates.coversPaths (h : Separates py collected roots)
    (hsubset : ∀ p ∈ paths, p ∈ collected)
    (hcovers : Covers py collected paths) {kept : List String}
    (hkept : ∀ p, Kept py paths roots p → p ∈ kept) :
    Covers py collected kept := by
  intro p hp hsome
  obtain ⟨p', hp', heq⟩ := hcovers p hp hsome
  have hsome' : normalizePath py p' ≠ none := by rw [heq]; exact hsome
  obtain ⟨canonical, hcanonical⟩ := exists_canonicalPath roots hsome'
  obtain ⟨other, found, hlookup⟩ := exists_lookup_pathKeys hp' hcanonical
  obtain ⟨hother, hfound, hsha⟩ := lookup_pathKeys hlookup
  have hother' : Kept py paths roots other := ⟨py.sha256 canonical, found, hlookup⟩
  refine ⟨other, hkept other hother', ?_⟩
  exact (h other (hsubset other hother) p' (hsubset p' hp') found canonical hfound hcanonical
    hsha).trans heq

/-- Roots that lose no file keep the files apart. -/
theorem Covers.separates {kept : List String} (h : Covers py collected kept)
    (hkept : ∀ p ∈ kept, Kept py paths roots p) :
    Separates py collected roots := by
  intro p hp p' hp' canonical canonical' hcanonical hcanonical' hsha
  obtain ⟨o, ho, hnormalized⟩ := h p hp (normalizePath_ne_none hcanonical)
  obtain ⟨o', ho', hnormalized'⟩ := h p' hp' (normalizePath_ne_none hcanonical')
  rw [← canonicalPath_congr hnormalized] at hcanonical
  rw [← canonicalPath_congr hnormalized'] at hcanonical'
  obtain rfl := (hkept o ho).eq_of_sha256 (hkept o' ho') hcanonical hcanonical' hsha
  exact hnormalized.symm.trans hnormalized'

/-- The evidence of some paths: their keys and canonical paths. -/
def IndexedOnce (py : PyLib) (paths : List String) (roots : List PathRoot)
    (key canonical : String) : Prop :=
  ∃ original, (pathKeys py paths roots).lookup key = some (original, canonical)

theorem indexedOnce_iff (h : DigestsApart py paths roots) :
    IndexedOnce py paths roots key canonical ↔
    ∃ p ∈ paths, canonicalPath py p roots = some canonical ∧ py.sha256 canonical = key := by
  constructor
  · rintro ⟨original, hlookup⟩
    exact ⟨original, lookup_pathKeys hlookup⟩
  · rintro ⟨p, hp, hcanonical, rfl⟩
    obtain ⟨other, found, hlookup⟩ := exists_lookup_pathKeys hp hcanonical
    obtain ⟨hother, hfound, hsha⟩ := lookup_pathKeys hlookup
    obtain rfl := h other hother p hp found canonical hfound hcanonical hsha
    exact ⟨other, hlookup⟩

/-- Paths that are the same files have the same evidence. -/
theorem indexedOnce_congr (h : DigestsApart py collected roots)
    (hsubset : ∀ p ∈ paths, p ∈ collected)
    (hcovers : Covers py collected paths) : IndexedOnce py paths roots key canonical ↔
    IndexedOnce py collected roots key canonical := by
  have hpaths : DigestsApart py paths roots :=
    fun p hp p' hp' => h p (hsubset p hp) p' (hsubset p' hp')
  rw [indexedOnce_iff h, indexedOnce_iff hpaths]
  constructor
  · exact fun ⟨p, hp, hcanonical⟩ => ⟨p, hsubset p hp, hcanonical⟩
  · rintro ⟨p, hp, hcanonical, hsha⟩
    obtain ⟨p', hp', heq⟩ := hcovers p hp (normalizePath_ne_none hcanonical)
    exact ⟨p', hp', (canonicalPath_congr heq).trans hcanonical, hsha⟩

end Keys

namespace Database

/-! ### The stored paths of a reference -/

/-- A row of the reference. -/
def StoredIn (files : Table MediaFilePath.id) (reference : Nat) (key : String)
    (value : String × String) : Prop :=
  ∃ p ∈ files.rows, p.referenceId = reference ∧ p.pathKey = key ∧
    (p.originalPath, p.canonicalPath) = value

def Stored (db : Database) (reference : Nat) (key : String) (value : String × String) : Prop :=
  StoredIn db.mediaFilePaths reference key value

section Saving
variable {files : Table MediaFilePath.id} {reference other : Nat} {key : String}
  {value : String × String} {db : Database}

theorem id_repath (entry : String × String × String) (p : MediaFilePath) :
    { p with originalPath := entry.2.1, canonicalPath := entry.2.2 }.id = p.id := rfl

/-- One entry of the dictionary that `save_paths` goes through. -/
def saveEntry (existing : List MediaFilePath) (reference : Nat) (table : Table MediaFilePath.id)
    (entry : String × String × String) :
    Table MediaFilePath.id :=
  if existing.any (·.pathKey == entry.1) then
    table.update (fun p => p.referenceId == reference && p.pathKey == entry.1)
      ⟨fun p => { p with originalPath := entry.2.1, canonicalPath := entry.2.2 }, id_repath entry⟩
  else table.insert ⟨table.nextId, reference, entry.1, entry.2.1, entry.2.2⟩

theorem savePaths_eq (keys : PathKeys) : (db.savePaths reference keys).mediaFilePaths =
    (keys.rows.foldl (saveEntry (db.mediaFilePaths.rows.filter (·.referenceId == reference))
      reference) db.mediaFilePaths).delete
      fun p => p.referenceId == reference && (keys.lookup p.pathKey).isNone := rfl

theorem rows_insert_nextId (files : Table MediaFilePath.id) (p : MediaFilePath)
    (hp : p.id = files.nextId) :
    (files.insert p).rows = files.rows ++ [p] :=
  Table.rows_insert_of_get?_none (by rw [hp]; exact files.get?_nextId)

theorem storedIn_saveEntry_of_ne {existing : List MediaFilePath} {entry : String × String × String}
    (h : other ≠ reference ∨ key ≠ entry.1) :
    StoredIn (saveEntry existing reference files entry) other key value ↔
    StoredIn files other key value := by
  unfold saveEntry
  split
  · constructor
    · rintro ⟨p, hp, rfl, rfl, rfl⟩
      obtain ⟨p₀, hp₀, hp⟩ := Table.mem_update.1 hp
      split at hp
      next hselected =>
        subst hp
        obtain ⟨hreference, hkey⟩ := Bool.and_eq_true_iff.1 hselected
        exact absurd h
          (not_or.2 ⟨not_not.2 (beq_iff_eq.1 hreference), not_not.2 (beq_iff_eq.1 hkey)⟩)
      next => exact ⟨p₀, hp₀, hp ▸ rfl, hp ▸ rfl, hp ▸ rfl⟩
    · rintro ⟨p, hp, rfl, rfl, rfl⟩
      refine ⟨p, Table.mem_update.2 ⟨p, hp, if_neg fun hselected => ?_⟩, rfl, rfl, rfl⟩
      obtain ⟨hreference, hkey⟩ := Bool.and_eq_true_iff.1 hselected
      exact absurd h (not_or.2 ⟨not_not.2 (beq_iff_eq.1 hreference), not_not.2 (beq_iff_eq.1 hkey)⟩)
  · unfold StoredIn
    rw [rows_insert_nextId _ _ rfl]
    constructor
    · rintro ⟨p, hp, rfl, rfl, rfl⟩
      rcases List.mem_append.1 hp with hp | hp
      · exact ⟨p, hp, rfl, rfl, rfl⟩
      · obtain rfl := List.mem_singleton.1 hp
        exact absurd h (not_or.2 ⟨not_not.2 rfl, not_not.2 rfl⟩)
    · rintro ⟨p, hp, rfl, rfl, rfl⟩
      exact ⟨p, List.mem_append_left _ hp, rfl, rfl, rfl⟩

/-- The entry is stored if its key is new, or if a row of the reference has the key. -/
theorem storedIn_saveEntry_self {existing : List MediaFilePath} {entry : String × String × String}
    (h : existing.any (·.pathKey == entry.1) = true → ∃ old, StoredIn files reference entry.1 old)
    (hnew : existing.any (·.pathKey == entry.1) = false →
      ∀ old, ¬ StoredIn files reference entry.1 old) :
    StoredIn (saveEntry existing reference files entry) reference entry.1 value ↔
    value = entry.2 := by
  unfold saveEntry
  split
  next hany =>
    constructor
    · rintro ⟨p, hp, hreference, hkey, rfl⟩
      obtain ⟨p₀, hp₀, hp⟩ := Table.mem_update.1 hp
      split at hp
      next => exact hp ▸ rfl
      next hother =>
        subst hp
        exact absurd (Bool.and_eq_true_iff.2 ⟨beq_iff_eq.2 hreference, beq_iff_eq.2 hkey⟩) hother
    · rintro rfl
      obtain ⟨-, p, hp, rfl, hkey, -⟩ := h hany
      exact ⟨{ p with originalPath := entry.2.1, canonicalPath := entry.2.2 },
        Table.mem_update.2 ⟨p, hp,
          if_pos (Bool.and_eq_true_iff.2 ⟨beq_iff_eq.2 rfl, beq_iff_eq.2 hkey⟩)⟩, rfl, hkey, rfl⟩
  next hany =>
    unfold StoredIn
    rw [rows_insert_nextId _ _ rfl]
    constructor
    · rintro ⟨p, hp, hreference, hkey, rfl⟩
      rcases List.mem_append.1 hp with hp | hp
      · exact absurd ⟨p, hp, hreference, hkey, rfl⟩
          (hnew (eq_false_of_ne_true hany) (p.originalPath, p.canonicalPath))
      · obtain rfl := List.mem_singleton.1 hp
        rfl
    · rintro rfl
      exact ⟨_, List.mem_append_right _ List.mem_cons_self, rfl, rfl, rfl⟩

/-- The loop of `save_paths`: what it has gone through is stored, and the rest is as before. -/
theorem storedIn_foldl_saveEntry (entries : List (String × String × String))
    (hnodup : (entries.map Prod.fst).Nodup) :
    StoredIn (entries.foldl (saveEntry (files.rows.filter (·.referenceId == reference)) reference)
      files) reference key value ↔
      (key, value) ∈ entries ∨ key ∉ entries.map Prod.fst ∧ StoredIn files reference key value := by
  suffices hfold : ∀ (rest : List (String × String × String)) (table : Table MediaFilePath.id),
      (rest.map Prod.fst).Nodup →
      (∀ k ∈ rest.map Prod.fst, ∀ v, StoredIn table reference k v ↔ StoredIn files reference k v) →
      (StoredIn (rest.foldl (saveEntry (files.rows.filter (·.referenceId == reference)) reference)
        table) reference key value ↔
        (key, value) ∈ rest ∨ key ∉ rest.map Prod.fst ∧ StoredIn table reference key value) from
    hfold entries files hnodup fun _ _ _ => Iff.rfl
  intro rest
  induction rest with
  | nil => exact fun table _ _ => by simp
  | cons entry rest ih =>
    intro table hnodup htable
    rw [List.map_cons, List.nodup_cons] at hnodup
    have hfirst : ∀ v, StoredIn
        (saveEntry (files.rows.filter (·.referenceId == reference)) reference table entry) reference
        entry.1 v ↔ v = entry.2 := by
      have hiff := htable entry.1 List.mem_cons_self
      intro v
      refine storedIn_saveEntry_self (fun hany => ?_) fun hany old hold => ?_
      · obtain ⟨p, hp, hkey⟩ := List.any_eq_true.1 hany
        obtain ⟨hp, hreference⟩ := List.mem_filter.1 hp
        exact ⟨_, (hiff _).2 ⟨p, hp, beq_iff_eq.1 hreference, beq_iff_eq.1 hkey, rfl⟩⟩
      · obtain ⟨p, hp, hreference, hkey, -⟩ := (hiff old).1 hold
        have htrue : (files.rows.filter (·.referenceId == reference)).any
            (·.pathKey == entry.1) = true :=
          List.any_eq_true.2 ⟨p, List.mem_filter.2 ⟨hp, beq_iff_eq.2 hreference⟩, beq_iff_eq.2 hkey⟩
        rw [hany] at htrue
        cases htrue
    have hrest : ∀ k ∈ rest.map Prod.fst, ∀ v,
        StoredIn (saveEntry (files.rows.filter (·.referenceId == reference)) reference table entry)
          reference k v ↔
          StoredIn files reference k v := by
      intro k hk v
      have hne : k ≠ entry.1 := fun heq => hnodup.1 (heq ▸ hk)
      exact (storedIn_saveEntry_of_ne (.inr hne)).trans (htable k (List.mem_cons_of_mem _ hk) v)
    rw [List.foldl_cons, ih _ hnodup.2 hrest, List.mem_cons, List.map_cons, List.mem_cons]
    by_cases hkey : key = entry.1
    · subst hkey
      rw [hfirst]
      constructor
      · rintro (hmem | ⟨-, rfl⟩)
        · exact absurd (List.mem_map_of_mem hmem) hnodup.1
        · exact .inl (.inl rfl)
      · rintro ((heq | hmem) | ⟨hnot, -⟩)
        · exact .inr ⟨hnodup.1, congrArg Prod.snd heq⟩
        · exact absurd (List.mem_map_of_mem hmem) hnodup.1
        · exact absurd (.inl rfl) hnot
    · rw [storedIn_saveEntry_of_ne (.inr hkey)]
      have hentry : (key, value) ≠ entry := fun heq => hkey (congrArg Prod.fst heq)
      simp only [hentry, hkey, false_or]

theorem storedIn_delete {p : MediaFilePath → Bool} : StoredIn (files.delete p) reference key value ↔
    ∃ row ∈ files.rows, p row = false ∧ row.referenceId = reference ∧ row.pathKey = key ∧
      (row.originalPath, row.canonicalPath) = value := by
  unfold StoredIn
  simp only [Table.mem_delete, and_assoc]

/-- A reference stores the entries of its dictionary. -/
theorem stored_savePaths {keys : PathKeys} :
    (db.savePaths reference keys).Stored reference key value ↔ keys.lookup key = some value := by
  have hloop := @storedIn_foldl_saveEntry db.mediaFilePaths reference key value keys.rows keys.nodup
  unfold Stored
  rw [savePaths_eq, storedIn_delete, lookup_eq_some]
  constructor
  · rintro ⟨row, hrow, hkept, rfl, rfl, rfl⟩
    refine (hloop.1 ⟨row, hrow, rfl, rfl, rfl⟩).resolve_right fun hnot => ?_
    have hnone : (keys.lookup row.pathKey).isNone = true := by
      rw [Option.isNone_iff_eq_none, Option.eq_none_iff_forall_ne_some]
      exact fun value hvalue => hnot.1 (List.mem_map_of_mem (lookup_eq_some.1 hvalue))
    rw [beq_self_eq_true, hnone] at hkept
    cases hkept
  · intro hmem
    obtain ⟨row, hrow, hreference, rfl, hvalue⟩ := hloop.2 (.inl hmem)
    refine ⟨row, hrow, ?_, hreference, rfl, hvalue⟩
    rw [lookup_eq_some.2 hmem]
    exact Bool.and_false _

/-- The paths of another reference stay. -/
theorem stored_savePaths_of_ne {keys : PathKeys} (h : other ≠ reference) :
    (db.savePaths reference keys).Stored other key value ↔ db.Stored other key value := by
  have hloop : ∀ (entries : List (String × String × String)) (existing : List MediaFilePath)
      (table : Table MediaFilePath.id),
      StoredIn (entries.foldl (saveEntry existing reference) table) other key value ↔
        StoredIn table other key value := by
    intro entries existing
    induction entries with
    | nil => exact fun table => Iff.rfl
    | cons entry entries ih => exact fun table => (ih _).trans (storedIn_saveEntry_of_ne (.inl h))
  unfold Stored
  rw [savePaths_eq, storedIn_delete,
    ← hloop keys.rows (db.mediaFilePaths.rows.filter (·.referenceId == reference))]
  refine exists_congr fun row => and_congr_right fun _ =>
    ⟨fun hrow => hrow.2, fun hrow => ⟨?_, hrow⟩⟩
  rw [hrow.1, beq_eq_false_iff_ne.2 h]
  rfl

end Saving

section Remapping
variable {py : PyLib} {db : Database} {reference : SourceMediaRef} {key : String}
  {value : String × String}

theorem mem_originalPaths {i : Nat} {original : String} :
    original ∈ db.originalPaths i ↔ ∃ key canonical, db.Stored i key (original, canonical) := by
  unfold originalPaths Stored StoredIn
  rw [List.mem_map]
  constructor
  · rintro ⟨p, hp, rfl⟩
    obtain ⟨hp, hreference⟩ := List.mem_filter.1 ((List.mem_insertionSort _).1 hp)
    exact ⟨p.pathKey, p.canonicalPath, p, hp, beq_iff_eq.1 hreference, rfl, rfl⟩
  · rintro ⟨key, canonical, p, hp, hreference, -, hvalue⟩
    refine ⟨p, (List.mem_insertionSort _).2 ?_, congrArg Prod.fst hvalue⟩
    exact List.mem_filter.2 ⟨hp, beq_iff_eq.2 hreference⟩

/-- A reference stores what its stored paths are indexed as. -/
theorem stored_remapPaths (hreference : reference ∈ db.sourceMediaRefs.rows) :
    (db.remapPaths py).Stored reference.id key value ↔
      (pathKeys py (db.originalPaths reference.id) (db.loadRoots reference.sourceId)).lookup key =
        some value := by
  have hother : ∀ (references : List SourceMediaRef) (db' : Database),
      reference.id ∉ references.map (·.id) →
      ((references.foldl (fun db' r =>
        db'.savePaths r.id (pathKeys py (db.originalPaths r.id) (db.loadRoots r.sourceId)))
        db').Stored reference.id key value ↔ db'.Stored reference.id key value) := by
    intro references
    induction references with
    | nil => exact fun db' _ => Iff.rfl
    | cons r references ih =>
      intro db' hnot
      rw [List.map_cons, List.mem_cons, not_or] at hnot
      exact (ih _ hnot.2).trans (stored_savePaths_of_ne hnot.1)
  have hself : ∀ (references : List SourceMediaRef) (db' : Database),
      (references.map (·.id)).Nodup → reference ∈ references →
      ((references.foldl (fun db' r =>
        db'.savePaths r.id (pathKeys py (db.originalPaths r.id) (db.loadRoots r.sourceId)))
        db').Stored reference.id key value ↔
        (pathKeys py (db.originalPaths reference.id) (db.loadRoots reference.sourceId)).lookup key =
          some value) := by
    intro references
    induction references with
    | nil => exact fun _ _ hmem => absurd hmem List.not_mem_nil
    | cons r references ih =>
      intro db' hnodup hmem
      rw [List.map_cons, List.nodup_cons] at hnodup
      rcases List.mem_cons.1 hmem with rfl | hmem
      · exact (hother references _ hnodup.1).trans stored_savePaths
      · exact ih _ hnodup.2 hmem
  by_cases hpaths : db.mediaFilePaths.rows.any (·.referenceId == reference.id) = true
  · exact hself _ db ((List.filter_sublist.map _).nodup db.sourceMediaRefs.nodup)
      (List.mem_filter.2 ⟨hreference, hpaths⟩)
  · have hnone : db.mediaFilePaths.rows.filter (·.referenceId == reference.id) = [] :=
      List.filter_eq_nil_iff.2 fun p hp hp' => hpaths (List.any_eq_true.2 ⟨p, hp, hp'⟩)
    have hnot : reference.id ∉ (db.sourceMediaRefs.rows.filter fun r =>
        db.mediaFilePaths.rows.any (·.referenceId == r.id)).map (·.id) := by
      intro hmem
      obtain ⟨r, hr, heq⟩ := List.mem_map.1 hmem
      exact hpaths (heq ▸ (List.mem_filter.1 hr).2)
    refine (hother _ db hnot).trans (iff_of_false ?_ ?_)
    · rintro ⟨p, hp, heq, -⟩
      exact hpaths (List.any_eq_true.2 ⟨p, hp, beq_iff_eq.2 heq⟩)
    · unfold originalPaths
      rw [hnone, List.insertionSort_nil, List.map_nil, pathKeys_eq, List.foldl_nil,
        Dict.lookup_empty]
      exact nofun

/-- The settings form: the roots of every source are stored, then all paths are indexed again. -/
def applyRoots (py : PyLib) (db : Database) (roots : List (Nat × List PathRoot)) : Database :=
  { db with settings := { db.settings with pathRoots := roots } }.remapPaths py

/-- The roots of a source. -/
def rootsOf (roots : List (Nat × List PathRoot)) (source : Nat) : List PathRoot :=
  ((roots.find? (·.1 == source)).map (·.2)).getD []

@[simp] theorem rootsOf_nil (source : Nat) : rootsOf [] source = [] := rfl

theorem stored_applyRoots (roots : List (Nat × List PathRoot))
    (hreference : reference ∈ db.sourceMediaRefs.rows) :
    (db.applyRoots py roots).Stored reference.id key value ↔
      (pathKeys py (db.originalPaths reference.id) (rootsOf roots reference.sourceId)).lookup key =
        some value :=
  @stored_remapPaths py { db with settings := { db.settings with pathRoots := roots } } reference
    key value hreference

theorem applyRoots_references (roots : List (Nat × List PathRoot)) :
    (db.applyRoots py roots).sourceMediaRefs = db.sourceMediaRefs := by
  have hloop : ∀ (references : List SourceMediaRef) (keys : SourceMediaRef → PathKeys)
      (db' : Database),
      (references.foldl (fun db' r => db'.savePaths r.id (keys r)) db').sourceMediaRefs =
        db'.sourceMediaRefs := by
    intro references keys
    induction references with
    | nil => exact fun _ => rfl
    | cons r references ih => exact fun db' => ih _
  exact hloop _ _ _

theorem mem_applyRoots (roots : List (Nat × List PathRoot))
    (hreference : reference ∈ db.sourceMediaRefs.rows) :
    reference ∈ (db.applyRoots py roots).sourceMediaRefs.rows := by
  rw [applyRoots_references]
  exact hreference

end Remapping

/-- `save_paths` of the collected paths, under the roots that are stored. -/
def collect (py : PyLib) (db : Database) (reference : SourceMediaRef)
    (roots : List (Nat × List PathRoot)) (collected : List String) :
    Database :=
  { db with settings := { db.settings with pathRoots := roots } }.savePaths reference.id
    (pathKeys py collected (rootsOf roots reference.sourceId))

/-- The path keys and canonical paths of a reference. -/
def Evidence (db : Database) (reference : Nat) (key canonical : String) : Prop :=
  ∃ original, db.Stored reference key (original, canonical)

section History
variable {py : PyLib} {db : Database} {reference : SourceMediaRef} {collected : List String}
  {roots : List (Nat × List PathRoot)}
  {history : List (List (Nat × List PathRoot))}

theorem mem_originalPaths_collect {p : String} :
    p ∈ (db.collect py reference roots collected).originalPaths reference.id ↔
    Kept py collected (rootsOf roots reference.sourceId) p := by
  rw [mem_originalPaths]
  exact exists_congr fun _ => exists_congr fun _ => stored_savePaths

theorem mem_originalPaths_applyRoots (hreference : reference ∈ db.sourceMediaRefs.rows)
    {p : String} :
    p ∈ (db.applyRoots py roots).originalPaths reference.id ↔
      Kept py (db.originalPaths reference.id) (rootsOf roots reference.sourceId) p := by
  rw [mem_originalPaths]
  exact exists_congr fun _ => exists_congr fun _ => stored_applyRoots roots hreference

theorem run_references (history : List (List (Nat × List PathRoot))) (db : Database) :
    (history.foldl (applyRoots py) db).sourceMediaRefs = db.sourceMediaRefs := by
  induction history generalizing db with
  | nil => rfl
  | cons roots history ih => exact (ih _).trans (applyRoots_references roots)

/-- A path that is stored after a history was stored before it. -/
theorem run_originalPaths (hreference : reference ∈ db.sourceMediaRefs.rows) :
    ∀ p ∈ (history.foldl (applyRoots py) db).originalPaths reference.id,
      p ∈ db.originalPaths reference.id := by
  induction history generalizing db with
  | nil => exact fun _ hp => hp
  | cons roots history ih =>
    intro p hp
    rw [List.foldl_cons] at hp
    exact ((mem_originalPaths_applyRoots hreference).1
      (ih (mem_applyRoots roots hreference) p hp)).mem

theorem run_covers (hreference : reference ∈ db.sourceMediaRefs.rows)
    (hsubset : ∀ p ∈ db.originalPaths reference.id, p ∈ collected)
    (hcovers : Covers py collected (db.originalPaths reference.id))
    (hseparates : ∀ roots ∈ history, Separates py collected (rootsOf roots reference.sourceId)) :
    Covers py collected ((history.foldl (applyRoots py) db).originalPaths reference.id) := by
  induction history generalizing db with
  | nil => exact hcovers
  | cons roots history ih =>
    rw [List.foldl_cons]
    refine ih (mem_applyRoots roots hreference) (fun p hp => ?_) ?_ fun r hr =>
      hseparates r (List.mem_cons_of_mem _ hr)
    · exact hsubset p ((mem_originalPaths_applyRoots hreference).1 hp).mem
    · exact (hseparates roots List.mem_cons_self).coversPaths hsubset hcovers fun p hp =>
        (mem_originalPaths_applyRoots hreference).2 hp

theorem separates_of_run (hreference : reference ∈ db.sourceMediaRefs.rows)
    (hcovers :
      Covers py collected ((history.foldl (applyRoots py) db).originalPaths reference.id)) :
    ∀ roots ∈ history, Separates py collected (rootsOf roots reference.sourceId) := by
  induction history generalizing db with
  | nil => exact fun _ hmem => absurd hmem List.not_mem_nil
  | cons roots history ih =>
    rw [List.foldl_cons] at hcovers
    have hreference' : reference ∈ (db.applyRoots py roots).sourceMediaRefs.rows :=
      mem_applyRoots roots hreference
    intro r hr
    rcases List.mem_cons.1 hr with rfl | hr
    · have hfirst : Covers py collected ((db.applyRoots py r).originalPaths reference.id) := by
        intro p hp hsome
        obtain ⟨p', hp', heq⟩ := hcovers p hp hsome
        exact ⟨p', run_originalPaths hreference' p' hp', heq⟩
      exact hfirst.separates fun p hp => (mem_originalPaths_applyRoots hreference).1 hp
    · exact ih hreference' hcovers r hr

/-- Whatever roots come last, the evidence is that of the collected paths under them, exactly when
no roots of the history gave one key to two of the files. -/
theorem evidence_independent_iff (hreference : reference ∈ db.sourceMediaRefs.rows)
    (hplain : DigestsApart py collected []) :
    (∀ last, DigestsApart py collected (rootsOf last reference.sourceId) → ∀ key canonical,
      ((history ++ [last]).foldl (applyRoots py) (db.collect py reference roots collected)).Evidence
        reference.id key canonical ↔
        IndexedOnce py collected (rootsOf last reference.sourceId) key canonical) ↔
      ∀ r ∈ roots :: history, Separates py collected (rootsOf r reference.sourceId) := by
  have hcollected : reference ∈ (db.collect py reference roots collected).sourceMediaRefs.rows :=
    hreference
  have hrun : ∀ last key canonical,
      ((history ++ [last]).foldl (applyRoots py) (db.collect py reference roots collected)).Evidence
        reference.id key canonical ↔
        IndexedOnce py ((history.foldl (applyRoots py)
          (db.collect py reference roots collected)).originalPaths reference.id)
          (rootsOf last reference.sourceId) key canonical := by
    intro last key canonical
    rw [List.foldl_append, List.foldl_cons, List.foldl_nil]
    refine exists_congr fun original => stored_applyRoots last ?_
    rw [run_references]
    exact hcollected
  constructor
  · intro h
    have hlast := h []
    rw [rootsOf_nil] at hlast
    have hcovers : Covers py collected
        ((history.foldl (applyRoots py) (db.collect py reference roots collected)).originalPaths
          reference.id) := by
      intro p hp hsome
      obtain ⟨normalized, hnormalized⟩ := Option.ne_none_iff_exists'.1 hsome
      have hindexed : IndexedOnce py collected [] (py.sha256 normalized) normalized :=
        (indexedOnce_iff hplain).2 ⟨p, hp, canonicalPath_nil.trans hnormalized, rfl⟩
      have hevidence := (hrun [] _ _).1 ((hlast hplain _ _).2 hindexed)
      rw [rootsOf_nil] at hevidence
      obtain ⟨original, hlookup⟩ := hevidence
      obtain ⟨hmem, hcanonical, -⟩ := lookup_pathKeys hlookup
      exact ⟨original, hmem, (canonicalPath_nil.symm.trans hcanonical).trans hnormalized.symm⟩
    intro r hr
    rcases List.mem_cons.1 hr with rfl | hr
    · have hfirst : Covers py collected
          ((db.collect py reference r collected).originalPaths reference.id) := by
        intro p hp hsome
        obtain ⟨p', hp', heq⟩ := hcovers p hp hsome
        exact ⟨p', run_originalPaths hcollected p' hp', heq⟩
      exact hfirst.separates fun p hp => mem_originalPaths_collect.1 hp
    · exact separates_of_run hcollected hcovers r hr
  · intro hseparates last hlast key canonical
    rw [hrun]
    have hsubset : ∀ p ∈ (db.collect py reference roots collected).originalPaths reference.id,
        p ∈ collected :=
      fun p hp => (mem_originalPaths_collect.1 hp).mem
    refine indexedOnce_congr hlast (fun p hp => hsubset p (run_originalPaths hcollected p hp)) ?_
    refine run_covers hcollected hsubset ?_ fun r hr => hseparates r (List.mem_cons_of_mem _ hr)
    exact (hseparates roots List.mem_cons_self).coversPaths (fun _ hp => hp)
        (fun p hp _ => ⟨p, hp, rfl⟩) fun p hp =>
      mem_originalPaths_collect.2 hp

end History

def collectedReference : SourceMediaRef :=
  { id := 1, sourceId := 1, libraryId := 1, mediaItemId := 1, externalId := "e" }

def collectedCatalog : Database :=
  { Database.empty with sourceMediaRefs := ⟨[collectedReference], by decide⟩ }

/-- Two roots of a source that are mapped to one. -/
def mergingRoots : List (Nat × List PathRoot) := [(1, [⟨"/a", "/c"⟩, ⟨"/b", "/c"⟩])]

/-- The digests of the three paths that two files have under these roots. -/
def mergedDigests (path : String) : String :=
  if path = "/a/x.mkv" then "eaeaaa29c64ec92d09bccf1840d7de09d55ebabbfcb2256814e14e3511435825"
  else if path = "/b/x.mkv" then "3863ef956769a36e5ea6e6d89a9f09bc862dcc61a06a5c57ba5458d590ac25e5"
  else if path = "/c/x.mkv" then "4eddc843611cb70f07d8b9092d76e840bbab3f132f267abddc8fd00249095953"
  else path

def mergedPy : PyLib := { PyLib.plain with sha256 := mergedDigests }

/-- The catalog after two files came to one path and the roots were taken back. -/
def collapsedCatalog : Database :=
  ([mergingRoots] ++ [[]]).foldl (applyRoots mergedPy)
    (collectedCatalog.collect mergedPy collectedReference [] ["/a/x.mkv", "/b/x.mkv"])

theorem collapsed_file_lost :
    collapsedCatalog.mediaFilePaths.rows.map (·.canonicalPath) = ["/a/x.mkv"] ∧
    ¬ ∀ key canonical, collapsedCatalog.Evidence 1 key canonical ↔
      IndexedOnce mergedPy ["/a/x.mkv", "/b/x.mkv"] [] key canonical := by
  have hrows : collapsedCatalog.mediaFilePaths.rows.map (·.canonicalPath) = ["/a/x.mkv"] := by
    decide +kernel
  have hlookup : (pathKeys mergedPy ["/a/x.mkv", "/b/x.mkv"] []).lookup (mergedDigests "/b/x.mkv") =
      some ("/b/x.mkv", "/b/x.mkv") := by
    decide +kernel
  refine ⟨hrows, fun h => ?_⟩
  have hindexed : IndexedOnce mergedPy ["/a/x.mkv", "/b/x.mkv"] []
      (mergedDigests "/b/x.mkv") "/b/x.mkv" :=
    ⟨"/b/x.mkv", hlookup⟩
  obtain ⟨original, p, hp, -, -, hvalue⟩ := (h _ _).2 hindexed
  have hmem : p.canonicalPath ∈ collapsedCatalog.mediaFilePaths.rows.map (·.canonicalPath) :=
    List.mem_map_of_mem hp
  rw [hrows, show p.canonicalPath = "/b/x.mkv" from congrArg Prod.snd hvalue] at hmem
  exact absurd hmem (by decide)

/-- A single file is the same under all roots. -/
theorem single_file_kept : collectedReference ∈ collectedCatalog.sourceMediaRefs.rows ∧
    ∀ last, DigestsApart .plain ["/a/x.mkv"] (rootsOf last collectedReference.sourceId) →
    ∀ key canonical,
      (([mergingRoots] ++ [last]).foldl (applyRoots .plain)
        (collectedCatalog.collect .plain collectedReference [] ["/a/x.mkv"])).Evidence
          collectedReference.id key canonical ↔
        IndexedOnce .plain ["/a/x.mkv"]
        (rootsOf last collectedReference.sourceId) key canonical := by
  have hreference : collectedReference ∈ collectedCatalog.sourceMediaRefs.rows :=
    List.mem_singleton.2 rfl
  have hplain : DigestsApart .plain ["/a/x.mkv"] [] := by
    intro p hp p' hp' canonical canonical' hcanonical hcanonical' _
    obtain rfl := List.mem_singleton.1 hp
    obtain rfl := List.mem_singleton.1 hp'
    exact Option.some.inj (hcanonical.symm.trans hcanonical')
  refine ⟨hreference, (evidence_independent_iff hreference hplain).2 ?_⟩
  intro r _ p hp p' hp' _ _ _ _ _
  obtain rfl := List.mem_singleton.1 hp
  obtain rfl := List.mem_singleton.1 hp'
  rfl

end Database

end Euvieouvi
