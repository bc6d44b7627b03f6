import Euvieouvi.Lib.Datetimes
import Euvieouvi.Lib.Keys
import Euvieouvi.Projection.Exact
import Euvieouvi.Projection.Partition

/-!
# The revision of the catalog

`_catalog_revision_value` (`web/routes.py`), which an open page asks for to learn whether what it
shows is still there. It joins the latest `updated_at` of four tables and the latest id of an event,
so it changes once a row is stamped later than everything before it (`catalogRevisionValue_ne`).
What the page shows depends on the moment of the projection in nothing but the stamps of the entries
(`shownEntries_ensure`).
-/

namespace Euvieouvi

section Maxima
variable {α : Type} [Max α] [LE α] [LT α] [Std.IsLinearOrder α] [Std.LawfulOrderMax α]
  [Std.LawfulOrderLT α] {l l' : List α} {a : α}

/-- An element that none of the others reaches is below another maximum. -/
theorem exists_max?_ne (h : ∀ b ∈ l, b < a) (h' : ∃ b ∈ l', a ≤ b) :
    ∃ b, l'.max? = some b ∧ a ≤ b ∧ l.max? ≠ some b := by
  obtain ⟨b, hb, hab⟩ := h'
  cases hmax : l'.max? with
  | none => exact absurd (List.max?_eq_none_iff.1 hmax ▸ hb) List.not_mem_nil
  | some c =>
    have hac : a ≤ c := Std.le_trans hab ((List.max?_eq_some_iff.1 hmax).2 b hb)
    refine ⟨c, rfl, hac, fun heq => ?_⟩
    exact Std.not_le_of_gt (h c (List.max?_eq_some_iff.1 heq).1) hac

end Maxima

namespace Database

/-- `str(value or "")` of a moment. -/
def momentField (t : Option Time) : List Char := (t.map datetimeText).getD []

/-- `str(value or "")` of an id. -/
def idField : Option Nat → List Char
  | none | some 0 => []
  | some id => (toString id).toList

def revisionFields (db : Database) : List (List Char) :=
  [momentField (db.mediaItems.rows.map (·.updatedAt)).max?,
    momentField (db.sourceMediaRefs.rows.map (·.updatedAt)).max?,
    momentField (db.mediaImages.rows.map (·.updatedAt)).max?,
    momentField (db.watchStates.rows.map (·.updatedAt)).max?,
    idField (db.watchEvents.rows.map (·.id)).max?]

/-- `_catalog_revision_value`. -/
def catalogRevisionValue (db : Database) : String :=
  String.ofList (['|'].intercalate db.revisionFields)

section Fields
variable {db db' : Database}

theorem datetimeText_ne_nil (t : Time) : datetimeText t ≠ [] := by
  simp [datetimeText, clockText]

theorem momentField_inj {t t' : Option Time} (h : momentField t = momentField t') : t = t' := by
  cases t with
  | none =>
    cases t' with
    | none => rfl
    | some t' => exact absurd h.symm (datetimeText_ne_nil t')
  | some t =>
    cases t' with
    | none => exact absurd h (datetimeText_ne_nil t)
    | some t' => exact congrArg some (datetimeText_inj h)

theorem toString_ne_nil (id : Nat) : (toString id).toList ≠ [] := by
  rw [toList_toString_nat]
  exact Nat.toDigits_ne_nil

theorem idField_inj {id : Nat} {other : Option Nat} (hid : 0 < id)
    (h : idField (some id) = idField other) : other = some id := by
  obtain ⟨n, rfl⟩ : ∃ n, id = n + 1 := ⟨id - 1, by omega⟩
  rcases other with _ | _ | m
  · exact absurd h (toString_ne_nil _)
  · exact absurd h (toString_ne_nil _)
  · rw [toString_nat_inj h]

theorem not_mem_momentField (t : Option Time) : '|' ∉ momentField t := by
  cases t with
  | none => exact List.not_mem_nil
  | some t => exact not_mem_datetimeText rfl (by decide) t

theorem not_mem_idField (id : Option Nat) : '|' ∉ idField id := by
  unfold idField
  split
  exacts [List.not_mem_nil, List.not_mem_nil, not_mem_toString_nat rfl _]

/-- The text determines its fields. -/
theorem revisionFields_of_eq (h : db'.catalogRevisionValue = db.catalogRevisionValue) :
    db'.revisionFields = db.revisionFields := by
  have hfields : ∀ db : Database, ∀ f ∈ db.revisionFields, '|' ∉ f := by
    intro db f hf
    simp only [revisionFields, List.mem_cons, List.not_mem_nil, or_false] at hf
    rcases hf with rfl | rfl | rfl | rfl | rfl
    exacts [not_mem_momentField _, not_mem_momentField _, not_mem_momentField _,
      not_mem_momentField _, not_mem_idField _]
  have hne : ∀ db : Database, db.revisionFields ≠ [] := fun db => List.cons_ne_nil _ _
  exact intercalate_inj (hfields db') (hfields db) (hne db') (hne db) (String.ofList_injective h)

end Fields

/-- Whatever was stamped was stamped before. -/
structure Before (T : Time) (db : Database) : Prop where
  items : ∀ m ∈ db.mediaItems.rows, m.updatedAt < T
  references : ∀ r ∈ db.sourceMediaRefs.rows, r.updatedAt < T ∧ r.lastSeenAt < T
  images : ∀ m ∈ db.mediaImages.rows, m.updatedAt < T
  states : ∀ s ∈ db.watchStates.rows, s.updatedAt < T

/-- A row is stamped then or later, or there is an event from `n` on. -/
inductive Stamped (T : Time) (n : Nat) (db : Database) : Prop
  | item {m : MediaItem} (hm : m ∈ db.mediaItems.rows) (h : T ≤ m.updatedAt)
  | reference {r : SourceMediaRef} (hr : r ∈ db.sourceMediaRefs.rows) (h : T ≤ r.updatedAt)
  | image {m : MediaImage} (hm : m ∈ db.mediaImages.rows) (h : T ≤ m.updatedAt)
  | state {s : WatchState} (hs : s ∈ db.watchStates.rows) (h : T ≤ s.updatedAt)
  | event {e : WatchEvent} (he : e ∈ db.watchEvents.rows) (h : n ≤ e.id)

section Stamped
variable {T : Time} {db db' : Database}

theorem momentField_ne {l l' : List Time} (h : ∀ t ∈ l, t < T) (h' : ∃ t ∈ l', T ≤ t) :
    momentField l'.max? ≠ momentField l.max? := by
  obtain ⟨t, hmax, -, hne⟩ := exists_max?_ne h h'
  intro heq
  exact hne ((momentField_inj heq).symm.trans hmax)

/-- The revision is another one once a row is stamped later than all that were there. -/
theorem catalogRevisionValue_ne (h : db.Before T) (h' : db'.Stamped T db.watchEvents.nextId) :
    db'.catalogRevisionValue ≠ db.catalogRevisionValue := by
  intro heq
  obtain ⟨hitems, hrefs, himages, hstates, hevents⟩ :
      momentField (db'.mediaItems.rows.map (·.updatedAt)).max? =
        momentField (db.mediaItems.rows.map (·.updatedAt)).max? ∧
      momentField (db'.sourceMediaRefs.rows.map (·.updatedAt)).max? =
        momentField (db.sourceMediaRefs.rows.map (·.updatedAt)).max? ∧
      momentField (db'.mediaImages.rows.map (·.updatedAt)).max? =
        momentField (db.mediaImages.rows.map (·.updatedAt)).max? ∧
      momentField (db'.watchStates.rows.map (·.updatedAt)).max? =
        momentField (db.watchStates.rows.map (·.updatedAt)).max? ∧
      idField (db'.watchEvents.rows.map (·.id)).max? =
        idField (db.watchEvents.rows.map (·.id)).max? := by
    simpa only [revisionFields, List.cons.injEq, and_true] using revisionFields_of_eq heq
  cases h' with
  | item hm ht =>
    exact momentField_ne (by simpa using h.items) ⟨_, List.mem_map_of_mem hm, ht⟩ hitems
  | reference hr ht =>
    exact momentField_ne (by simpa using fun r hr => (h.references r hr).1)
      ⟨_, List.mem_map_of_mem hr, ht⟩ hrefs
  | image hm ht =>
    exact momentField_ne (by simpa using h.images) ⟨_, List.mem_map_of_mem hm, ht⟩ himages
  | state hs ht =>
    exact momentField_ne (by simpa using h.states) ⟨_, List.mem_map_of_mem hs, ht⟩ hstates
  | event he hid =>
    obtain ⟨id, hmax, hle, hne⟩ :=
      exists_max?_ne (l := db.watchEvents.rows.map (·.id)) (a := db.watchEvents.nextId)
      (by simpa using fun e he => Table.key_lt_nextId he) ⟨_, List.mem_map_of_mem he, hid⟩
    rw [hmax] at hevents
    exact hne (idField_inj (Nat.lt_of_lt_of_le (Nat.succ_pos _) hle) hevents)

end Stamped

/-! ### What is shown -/

/-- An entry without the moment of its projection, which no page shows. -/
def CatalogEntry.figures (entry : CatalogEntry) : CatalogEntry := { entry with updatedAt := 0 }

/-- The entries that the catalog lists, each with its figures and its item. -/
def shownEntries (db : Database) : List (CatalogEntry × MediaItem) :=
  db.catalogEntries.rows.filterMap fun entry =>
    (db.mediaItems.get? entry.mediaItemId).map fun m => (CatalogEntry.figures entry, m)

section Shown
variable {db db' : Database} {py : PyLib}

theorem shownEntries_congr (hitems : db'.mediaItems = db.mediaItems)
    (hentries : db'.catalogEntries.rows.map CatalogEntry.figures =
      db.catalogEntries.rows.map CatalogEntry.figures) :
    db'.shownEntries = db.shownEntries := by
  have hshown : ∀ db : Database,
      db.shownEntries = (db.catalogEntries.rows.map CatalogEntry.figures).filterMap fun entry =>
      (db.mediaItems.get? entry.mediaItemId).map fun m => (entry, m) := by
    intro db
    rw [List.filterMap_map]
    rfl
  rw [hshown, hshown, hentries, hitems]

theorem mediaItems_ensure (py : PyLib) (now : Time) (db : Database) :
    (db.ensureCatalogProjection py now).2.mediaItems = db.mediaItems := by
  unfold ensureCatalogProjection refreshCatalogActivity
  dsimp only
  split_ifs <;> rfl

theorem rows_rebuilt (py : PyLib) (now : Time) (db : Database) :
    (db.rebuildCatalogProjection py now).2.catalogEntries.rows =
    (db.identityRows.groupKeys py).map (db.rebuiltEntry py now) := by
  have hnodup : ((db.identityRows.groupKeys py).map Prod.fst).Nodup := by
    rw [IdentityRows.groupKeys_fst]
    exact IdentityRows.nodup_canonicalOf db.identityRows py
  refine Table.rows_foldl_insert ?_
  rw [Table.rows_empty, List.nil_append, List.map_map]
  exact hnodup

theorem figures_rebuilt (py : PyLib) (now now' : Time) (db : Database) :
    (db.rebuildCatalogProjection py now).2.catalogEntries.rows.map CatalogEntry.figures =
      (db.rebuildCatalogProjection py now').2.catalogEntries.rows.map CatalogEntry.figures := by
  rw [rows_rebuilt, rows_rebuilt, List.map_map, List.map_map]
  rfl

theorem figures_refreshEntry (now now' : Time) (db : Database) (impacted tree : List Nat)
    (entry : CatalogEntry) :
    CatalogEntry.figures (db.refreshEntry now impacted tree entry) =
      CatalogEntry.figures (db.refreshEntry now' impacted tree entry) := by
  unfold refreshEntry
  dsimp only
  split <;> rfl

/-- The moment of a projection is in no figure. -/
theorem figures_ensure (py : PyLib) (now now' : Time) (db : Database) :
    (db.ensureCatalogProjection py now).2.catalogEntries.rows.map CatalogEntry.figures =
      (db.ensureCatalogProjection py now').2.catalogEntries.rows.map CatalogEntry.figures := by
  unfold ensureCatalogProjection refreshCatalogActivity
  dsimp only
  split_ifs
  · rfl
  · exact figures_rebuilt py now now' db
  · rfl
  · show ((db.catalogEntries.update _ _).rows).map _ = ((db.catalogEntries.update _ _).rows).map _
    rw [Table.rows_update, Table.rows_update, List.map_map, List.map_map]
    refine List.map_congr_left fun entry _ => ?_
    dsimp only [Function.comp]
    split
    exacts [figures_refreshEntry now now' db _ _ entry, rfl]
  · exact figures_rebuilt py now now' db

theorem shownEntries_ensure (py : PyLib) (now now' : Time) (db : Database) :
    (db.ensureCatalogProjection py now).2.shownEntries =
      (db.ensureCatalogProjection py now').2.shownEntries :=
  shownEntries_congr ((mediaItems_ensure py now db).trans (mediaItems_ensure py now' db).symm)
    (figures_ensure py now now' db)

/-- The queue of tasks is not shown. -/
theorem shownEntries_asyncTasks (py : PyLib) (now : Time) (db : Database)
    (tasks : Table AsyncTask.id) :
    ({ db with asyncTasks := tasks }.ensureCatalogProjection py now).2.shownEntries =
      (db.ensureCatalogProjection py now).2.shownEntries := by
  refine shownEntries_congr
    ((mediaItems_ensure py now _).trans (mediaItems_ensure py now db).symm) ?_
  have himpacted : { db with asyncTasks := tasks }.impactedEntries = db.impactedEntries := rfl
  unfold ensureCatalogProjection refreshCatalogActivity
  simp only [himpacted]
  split_ifs <;> rfl

end Shown

end Database

end Euvieouvi
