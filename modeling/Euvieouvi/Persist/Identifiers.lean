import Euvieouvi.Persist.Trace

/-!
# What the synchronization of identifiers leaves

`_sync_identifier_values` compares every identifier of a tuple with the rows stored before the loop.
`Synced` says what holds of the pending and of the written rows after each of them: a stored row
that some identifier replaces is gone or about to go, and nothing that was stored is added. With one
identifier for each provider and none twice, `SyncedOnce` also counts what stays and what is new, so
the tuple is stored exactly and a further call finds nothing to do (`syncsExactly_iff`). Two
identifiers of one provider replace each other: the call after one that stored both deletes both.
-/

namespace Euvieouvi

open Database Program

def MediaIdentifier.identity (r : MediaIdentifier) : ExternalIdentifier :=
  ⟨r.provider, r.externalId⟩

/-- The item has an identifier. -/
def Database.Identifies (db : Database) (item : Nat) (x : ExternalIdentifier) : Prop :=
  ∃ r ∈ db.mediaIdentifiers.rows, r.mediaItemId = item ∧ r.identity = x

/-- An identifier of the tuple replaces a stored one. -/
def Superseded (tuple : List ExternalIdentifier) (r : MediaIdentifier) : Prop :=
  stableProviders.contains r.provider = true ∧ ∃ x ∈ tuple, x.provider = r.provider ∧
    x.externalId ≠ r.externalId

/-- A tuple has at most one identifier of each provider that identifies. -/
def OneEach (tuple : List ExternalIdentifier) : Prop :=
  ∀ x ∈ tuple, ∀ y ∈ tuple, x.provider = y.provider → stableProviders.contains x.provider = true →
    x.externalId = y.externalId

/-- The identifiers of the tuple's providers are those of the tuple, and every other row stays. -/
structure Synchronised (item : Nat) (tuple : List ExternalIdentifier)
    (db db' : Database) : Prop where
  exact : ∀ x ∈ tuple, stableProviders.contains x.provider = true → ∀ y : ExternalIdentifier,
    y.provider = x.provider →
    (db'.Identifies item y ↔ y ∈ tuple)
  kept : ∀ r ∈ db.mediaIdentifiers.rows,
    ¬ (r.mediaItemId = item ∧ stableProviders.contains r.provider = true ∧
      ∃ x ∈ tuple, x.provider = r.provider) →
      r ∈ db'.mediaIdentifiers.rows

section Lists
variable {tuple gone rest : List ExternalIdentifier} {x : ExternalIdentifier} {r : MediaIdentifier}

theorem superseded_append : Superseded (gone ++ [x]) r ↔
    Superseded gone r ∨ stableProviders.contains r.provider = true ∧ x.provider = r.provider ∧
    x.externalId ≠ r.externalId := by
  unfold Superseded
  constructor
  · rintro ⟨hs, y, hy, hne⟩
    rcases List.mem_append.1 hy with hy | hy
    · exact .inl ⟨hs, y, hy, hne⟩
    · rw [List.mem_singleton.1 hy] at hne
      exact .inr ⟨hs, hne⟩
  · rintro (⟨hs, y, hy, hne⟩ | ⟨hs, hne⟩)
    · exact ⟨hs, y, List.mem_append_left _ hy, hne⟩
    · exact ⟨hs, x, List.mem_append_right _ List.mem_cons_self, hne⟩

theorem not_superseded_nil : ¬ Superseded [] r := fun ⟨_, _, hx, _⟩ => by cases hx

/-- No row of a provider is replaced before the identifier of that provider comes. -/
theorem OneEach.not_superseded (h : OneEach tuple) (hnodup : tuple.Nodup)
    (htuple : gone ++ x :: rest = tuple) (hp : x.provider = r.provider) : ¬ Superseded gone r := by
  rintro ⟨hs, y, hy, hyp, -⟩
  subst htuple
  have hyx : y.externalId = x.externalId :=
    h y (List.mem_append_left _ hy) x (by simp) (hyp.trans hp.symm) (hyp ▸ hs)
  have hsame : y = x := by
    cases y; cases x
    simp_all
  rw [List.nodup_append] at hnodup
  exact hnodup.2.2 y hy x List.mem_cons_self hsame

end Lists

/-- Rows of the item are inserted, with ids above those in use. -/
theorem rows_insertIdentifiers (now : Time) (item : Nat) (added : List ExternalIdentifier)
    (db : Database) :
    ∃ news : List MediaIdentifier, (added.foldl (fun (db : Database) a => db.insertMediaIdentifier
        ⟨db.mediaIdentifiers.nextId, item, a.provider, a.externalId, now⟩)
          db).mediaIdentifiers.rows =
          db.mediaIdentifiers.rows ++ news ∧
      news.map MediaIdentifier.identity = added ∧
      ∀ r ∈ news, r.mediaItemId = item ∧ ∀ r' ∈ db.mediaIdentifiers.rows, r'.id ≠ r.id := by
  induction added generalizing db with
  | nil => exact ⟨[], (List.append_nil _).symm, rfl, fun r hr => by cases hr⟩
  | cons a added ih =>
    let first : MediaIdentifier := ⟨db.mediaIdentifiers.nextId, item, a.provider, a.externalId, now⟩
    obtain ⟨news, hrows, hids, hnews⟩ := ih (db.insertMediaIdentifier first)
    have hfirst : (db.insertMediaIdentifier first).mediaIdentifiers.rows =
        db.mediaIdentifiers.rows ++ [first] := by
      rw [mediaIdentifiers_insertMediaIdentifier]
      exact Table.rows_insert_of_get?_none (Table.get?_nextId _)
    rw [hfirst] at hrows hnews
    refine ⟨first :: news, ?_, ?_, fun r hr => ?_⟩
    · rw [List.foldl_cons, hrows, List.append_assoc, List.singleton_append]
    · rw [List.map_cons, hids]; rfl
    rcases List.mem_cons.1 hr with rfl | hr
    · exact ⟨rfl, fun r' hr' => (Table.key_lt_nextId hr').ne⟩
    · exact ⟨(hnews r hr).1, fun r' hr' => (hnews r hr).2 r' (List.mem_append_left _ hr')⟩

namespace MediaPersistenceService
variable (service : MediaPersistenceService) {item : Nat} {db cur : Database}

/-- The rows that a flush leaves. -/
structure Flushed (item : Nat) (pending : PendingIdentifiers) (cur cur' : Database) : Prop where
  frame : Frame [.mediaIdentifiers] cur cur'
  mem : ∀ r ∈ cur'.mediaIdentifiers.rows, r.id ∉ pending.deleted ∧ (r ∈ cur.mediaIdentifiers.rows ∨
    r.mediaItemId = item ∧ r.identity ∈ pending.added ∧ ∀ r' ∈ cur.mediaIdentifiers.rows,
      r'.id ≠ r.id)
  stays : ∀ r ∈ cur.mediaIdentifiers.rows, r.id ∉ pending.deleted → r ∈ cur'.mediaIdentifiers.rows
  enters : (∀ id ∈ pending.deleted, ∃ r ∈ cur.mediaIdentifiers.rows, r.id = id) →
    ∀ x ∈ pending.added, cur'.Identifies item x

theorem flushed (pending : PendingIdentifiers) (cur : Database) :
    Flushed item pending cur
      ((pending.added.foldl (fun (db : Database) a => db.insertMediaIdentifier
      ⟨db.mediaIdentifiers.nextId, item, a.provider, a.externalId, service.now⟩)
        cur).deleteMediaIdentifiers
        fun r => pending.deleted.contains r.id) := by
  obtain ⟨news, hrows, hids, hnews⟩ := rows_insertIdentifiers service.now item pending.added cur
  have hmem : ∀ r, r ∈ ((pending.added.foldl (fun (db : Database) a => db.insertMediaIdentifier
      ⟨db.mediaIdentifiers.nextId, item, a.provider, a.externalId, service.now⟩)
        cur).deleteMediaIdentifiers
        fun r => pending.deleted.contains r.id).mediaIdentifiers.rows ↔
      (r ∈ cur.mediaIdentifiers.rows ∨ r ∈ news) ∧ r.id ∉ pending.deleted := by
    intro r
    rw [mediaIdentifiers_deleteMediaIdentifiers, Table.mem_delete, hrows, List.mem_append]
    simp
  have hidentity : ∀ r ∈ news, r.identity ∈ pending.added := fun r hr => by
    rw [← hids]
    exact List.mem_map_of_mem hr
  refine ⟨(insertIdentifiers_identified service.now item pending.added cur).frame.trans
    (deleteMediaIdentifiers_frame _),
    fun r hr => ?_, fun r hr hd => (hmem r).2 ⟨.inl hr, hd⟩, fun hdeleted x hx => ?_⟩
  · obtain ⟨hr | hr, hd⟩ := (hmem r).1 hr
    · exact ⟨hd, .inl hr⟩
    · exact ⟨hd, .inr ⟨(hnews r hr).1, hidentity r hr, (hnews r hr).2⟩⟩
  · rw [← hids] at hx
    obtain ⟨r, hr, hrx⟩ := List.mem_map.1 hx
    refine ⟨r, (hmem r).2 ⟨.inr hr, fun hd => ?_⟩, (hnews r hr).1, hrx⟩
    obtain ⟨r', hr', hid⟩ := hdeleted r.id hd
    exact (hnews r hr).2 r' hr' hid

/-- A flush that ends normally. -/
theorem flushIdentifiers_flushed (pending : PendingIdentifiers) (cur : Database) :
    (service.flushIdentifiers item pending).Ensures (· = cur) fun pending' cur' => pending' = {} ∧
    Flushed item pending cur cur' ∧
      pending.added.Nodup := by
  refine .read_bind ?_
  rintro cur rfl
  refine .ite (fun _ => .fail _) fun hfree => ?_
  refine .bind (M := fun _ cur' => Flushed item pending cur cur') (.write ?_) fun _ =>
    .pure fun cur' h => ⟨rfl, h, ?_⟩
  · rintro cur rfl
    exact service.flushed pending cur
  · by_contra hdup
    simp [hdup] at hfree

/-- A flush of identifiers that the item does not have and that are not pending twice. -/
theorem returns_flushIdentifiers {pending : PendingIdentifiers} {s : PersistSession}
    (hnodup : pending.added.Nodup) (hfree : ∀ x ∈ pending.added, ¬ s.store.Identifies item x) :
    ∃ s', (service.flushIdentifiers item pending).Returns s {} s' ∧ s'.cache = s.cache ∧
    Flushed item pending s.store s'.store := by
  have hguard : (!decide pending.added.Nodup || s.store.mediaIdentifiers.rows.any fun r =>
      r.mediaItemId == item && pending.added.contains ⟨r.provider, r.externalId⟩) = false := by
    simp only [hnodup, decide_true, Bool.not_true, Bool.false_or, List.any_eq_false]
    rintro r hr hboth
    rw [Bool.and_eq_true, beq_iff_eq, List.contains_iff_mem] at hboth
    exact hfree _ hboth.2 ⟨r, hr, hboth.1, rfl⟩
  have hflushed := @flushed service item pending s.store
  generalize hafter : deleteMediaIdentifiers _ _ = after at hflushed
  refine ⟨⟨after, s.cache⟩, returns_bind.2 ⟨_, _, returns_read.2 ⟨rfl, rfl⟩, ?_⟩, rfl, hflushed⟩
  subst hafter
  rw [hguard]
  exact returns_bind.2 ⟨(), _, returns_write.2 rfl, returns_pure.2 ⟨rfl, rfl⟩⟩

/-! ### One identifier -/

/-- After the identifiers `gone` of the tuple: what they replace goes, and what was stored is not
added. -/
structure Synced (item : Nat) (db : Database) (gone : List ExternalIdentifier)
    (pending : PendingIdentifiers) (cur : Database) :
    Prop where
  frame : Frame [.mediaIdentifiers] db cur
  old : ∀ r ∈ cur.mediaIdentifiers.rows, r.mediaItemId = item → db.Identifies item r.identity →
    r ∈ db.mediaIdentifiers.rows
  added : ∀ x ∈ pending.added, x ∈ gone ∧ ¬ db.Identifies item x
  dropped : ∀ r ∈ db.mediaIdentifiers.rows, r.mediaItemId = item → Superseded gone r →
    r ∈ cur.mediaIdentifiers.rows →
    r.id ∈ pending.deleted

/-- When no identifier comes twice, the rows that are replaced are still there until the flush that
deletes them. -/
structure SyncedOnce (item : Nat) (db : Database) (gone : List ExternalIdentifier)
    (pending : PendingIdentifiers)
    (cur : Database) : Prop extends Synced item db gone pending cur where
  nodup : pending.added.Nodup
  kept : ∀ r ∈ db.mediaIdentifiers.rows, ¬ (r.mediaItemId = item ∧ Superseded gone r) →
    r ∈ cur.mediaIdentifiers.rows
  fresh : ∀ r ∈ cur.mediaIdentifiers.rows, r ∉ db.mediaIdentifiers.rows →
    r.mediaItemId = item ∧ r.identity ∈ gone ∧ r.identity ∉ pending.added
  present : ∀ x ∈ gone, db.Identifies item x ∨ x ∈ pending.added ∨ cur.Identifies item x
  deleted : ∀ id ∈ pending.deleted, ∃ r ∈ db.mediaIdentifiers.rows,
    r ∈ cur.mediaIdentifiers.rows ∧ r.id = id ∧
    r.mediaItemId = item ∧ Superseded gone r

/-- The rows of the item before the loop. -/
def existingOf (item : Nat) (db : Database) : List MediaIdentifier :=
  db.mediaIdentifiers.rows.filter (·.mediaItemId == item)

/-- What one identifier adds to the pending rows, if the source may update the item. -/
def PendingIdentifiers.record (existing : List MediaIdentifier) (pending : PendingIdentifiers)
    (x : ExternalIdentifier) :
    PendingIdentifiers :=
  let previous := existing.filter (·.provider == x.provider)
  let conflicting := previous.filter (·.externalId != x.externalId)
  { added :=
      if previous.any (·.externalId == x.externalId) then pending.added
      else pending.added ++ [x]
    deleted :=
      if !conflicting.isEmpty && stableProviders.contains x.provider then
        pending.deleted ++ conflicting.map (·.id)
      else pending.deleted }

section Record
variable {gone : List ExternalIdentifier} {pending : PendingIdentifiers} {cur' : Database}
  {x : ExternalIdentifier}
  {r : MediaIdentifier}

theorem mem_conflicting : r ∈ ((existingOf item db).filter (·.provider == x.provider)).filter
    (·.externalId != x.externalId) ↔
    r ∈ db.mediaIdentifiers.rows ∧ r.mediaItemId = item ∧ r.provider = x.provider ∧
    r.externalId ≠ x.externalId := by
  simp only [existingOf, List.mem_filter, beq_iff_eq, bne_iff_ne]
  tauto

theorem any_previous : ((existingOf item db).filter (·.provider == x.provider)).any
    (·.externalId == x.externalId) = true ↔
    db.Identifies item x := by
  rw [List.any_eq_true]
  constructor
  · rintro ⟨r, hr, hid⟩
    simp only [existingOf, List.mem_filter, beq_iff_eq] at hr hid
    exact ⟨r, hr.1.1, hr.1.2, by rw [MediaIdentifier.identity, hr.2, hid]⟩
  · rintro ⟨r, hr, hi, rfl⟩
    exact ⟨r, by simp [existingOf, MediaIdentifier.identity, hr, hi], by
      simp [MediaIdentifier.identity]⟩

theorem mem_deleted_record {id : Nat} : id ∈ (pending.record (existingOf item db) x).deleted ↔
    id ∈ pending.deleted ∨ stableProviders.contains x.provider = true ∧
    ∃ r ∈ db.mediaIdentifiers.rows, r.mediaItemId = item ∧
      r.provider = x.provider ∧ r.externalId ≠ x.externalId ∧ r.id = id := by
  unfold PendingIdentifiers.record
  dsimp only
  split
  next hstable =>
    rw [Bool.and_eq_true] at hstable
    rw [List.mem_append, List.mem_map]
    refine or_congr_right ⟨?_, ?_⟩
    · rintro ⟨r, hr, rfl⟩
      obtain ⟨hrow, hi, hp, hne⟩ := mem_conflicting.1 hr
      exact ⟨hstable.2, r, hrow, hi, hp, hne, rfl⟩
    · rintro ⟨-, r, hrow, hi, hp, hne, rfl⟩
      exact ⟨r, mem_conflicting.2 ⟨hrow, hi, hp, hne⟩, rfl⟩
  next hstable =>
    refine ⟨.inl, ?_⟩
    rintro (h | ⟨hs, r, hrow, hi, hp, hne, rfl⟩)
    · exact h
    · have hmem := List.isEmpty_eq_false_iff_exists_mem.2 ⟨r, mem_conflicting.2 ⟨hrow, hi, hp, hne⟩⟩
      rw [hmem, hs] at hstable
      exact absurd rfl hstable

theorem mem_added_record {y : ExternalIdentifier} :
    y ∈ (pending.record (existingOf item db) x).added ↔
    y ∈ pending.added ∨ y = x ∧ ¬ db.Identifies item x := by
  unfold PendingIdentifiers.record
  dsimp only
  split
  next h => simp [any_previous.1 h]
  next h =>
    rw [any_previous] at h
    simp [h]

theorem Synced.flush (h : Synced item db gone pending cur) (hf : Flushed item pending cur cur') :
    Synced item db gone {} cur' where
  frame := h.frame.trans hf.frame
  old r hr hi hstored := by
    obtain ⟨-, hr | ⟨-, hadded, -⟩⟩ := hf.mem r hr
    · exact h.old r hr hi hstored
    · exact absurd hstored (h.added _ hadded).2
  added x hx := by cases hx
  dropped r hr hi hsup hr' := by
    obtain ⟨hkept, hr' | ⟨-, hadded, -⟩⟩ := hf.mem r hr'
    · exact absurd (h.dropped r hr hi hsup hr') hkept
    · exact absurd ⟨r, hr, hi, rfl⟩ (h.added _ hadded).2

theorem Synced.record (h : Synced item db gone pending cur) (x : ExternalIdentifier) :
    Synced item db (gone ++ [x]) (pending.record (existingOf item db) x) cur where
  frame := h.frame
  old := h.old
  added y hy := by
    rcases mem_added_record.1 hy with hy | ⟨rfl, hnew⟩
    · exact ⟨List.mem_append_left _ (h.added y hy).1, (h.added y hy).2⟩
    · exact ⟨List.mem_append_right _ List.mem_cons_self, hnew⟩
  dropped r hr hi hsup hr' := by
    rw [mem_deleted_record]
    rcases superseded_append.1 hsup with hsup | ⟨hs, hp, hne⟩
    · exact .inl (h.dropped r hr hi hsup hr')
    · exact .inr ⟨hp ▸ hs, r, hr, hi, hp.symm, hne.symm, rfl⟩

/-- What is pending is not stored yet. -/
theorem SyncedOnce.not_identifies (h : SyncedOnce item db gone pending cur)
    (hx : x ∈ pending.added) : ¬ cur.Identifies item x := by
  rintro ⟨r, hr, hi, rfl⟩
  have hnew : r ∉ db.mediaIdentifiers.rows := fun hold => (h.added _ hx).2 ⟨r, hold, hi, rfl⟩
  exact (h.fresh r hr hnew).2.2 hx

theorem SyncedOnce.flush (h : SyncedOnce item db gone pending cur)
    (hf : Flushed item pending cur cur') :
    SyncedOnce item db gone {} cur' where
  toSynced := h.toSynced.flush hf
  nodup := List.nodup_nil
  kept r hr hopen := by
    refine hf.stays r (h.kept r hr hopen) fun hdel => ?_
    obtain ⟨r', hr', -, hid, hi, hsup⟩ := h.deleted r.id hdel
    obtain rfl := db.mediaIdentifiers.eq_of_key_eq hr' hr hid
    exact hopen ⟨hi, hsup⟩
  fresh r hr hnew := by
    obtain ⟨-, hr | ⟨hi, hadded, -⟩⟩ := hf.mem r hr
    · exact ⟨(h.fresh r hr hnew).1, (h.fresh r hr hnew).2.1, List.not_mem_nil⟩
    · exact ⟨hi, (h.added _ hadded).1, List.not_mem_nil⟩
  present x hx := by
    rcases h.present x hx with hstored | hadded | ⟨r, hr, hi, hrx⟩
    · exact .inl hstored
    · exact .inr (.inr (hf.enters
        (fun id hid => let ⟨r, _, hr, hrid, _⟩ := h.deleted id hid; ⟨r, hr, hrid⟩) x hadded))
    · by_cases hold : r ∈ db.mediaIdentifiers.rows
      · exact .inl ⟨r, hold, hi, hrx⟩
      refine .inr (.inr ⟨r, hf.stays r hr fun hdel => ?_, hi, hrx⟩)
      -- a row that is to be deleted was there before the loop
      obtain ⟨r', hr', hcur, hid, -⟩ := h.deleted r.id hdel
      obtain rfl := cur.mediaIdentifiers.eq_of_key_eq hcur hr hid
      exact hold hr'
  deleted id hid := by cases hid

theorem SyncedOnce.record (h : SyncedOnce item db gone pending cur) (hx : x ∉ gone)
    (hopen : ∀ r : MediaIdentifier, x.provider = r.provider → ¬ Superseded gone r) :
    SyncedOnce item db (gone ++ [x]) (pending.record (existingOf item db) x) cur where
  toSynced := h.toSynced.record x
  nodup := by
    unfold PendingIdentifiers.record
    dsimp only
    split
    · exact h.nodup
    · refine List.nodup_append.2 ⟨h.nodup, List.nodup_singleton x, fun y hy z hz => ?_⟩
      rw [List.mem_singleton.1 hz]
      rintro rfl
      exact hx (h.added _ hy).1
  kept r hr hkeep := h.kept r hr fun hsup => hkeep ⟨hsup.1, superseded_append.2 (.inl hsup.2)⟩
  fresh r hr hnew := by
    obtain ⟨hi, hgone, hadded⟩ := h.fresh r hr hnew
    refine ⟨hi, List.mem_append_left _ hgone, fun hmem => ?_⟩
    rcases mem_added_record.1 hmem with hmem | ⟨rfl, -⟩
    exacts [hadded hmem, hx hgone]
  present y hy := by
    rw [mem_added_record]
    rcases List.mem_append.1 hy with hy | hy
    · rcases h.present y hy with hstored | hadded | hcur
      exacts [.inl hstored, .inr (.inl (.inl hadded)), .inr (.inr hcur)]
    · obtain rfl := List.mem_singleton.1 hy
      by_cases hstored : db.Identifies item y
      exacts [.inl hstored, .inr (.inl (.inr ⟨rfl, hstored⟩))]
  deleted id hid := by
    rcases mem_deleted_record.1 hid with hid | ⟨hs, r, hr, hi, hp, hne, rfl⟩
    · obtain ⟨r, hr, hcur, hrid, hi, hsup⟩ := h.deleted id hid
      exact ⟨r, hr, hcur, hrid, hi, superseded_append.2 (.inl hsup)⟩
    · exact ⟨r, hr, h.kept r hr fun hsup => hopen r hp.symm hsup.2, rfl, hi,
        superseded_append.2 (.inr ⟨hp ▸ hs, hp.symm, hne.symm⟩)⟩

end Record

/-! ### The loop -/

section Loop
variable {service} {tuple gone : List ExternalIdentifier} {pending : PendingIdentifiers}
  {x : ExternalIdentifier}

theorem mayUpdate_of_frame (h : Frame [.mediaIdentifiers] db cur) :
    service.canonicalSourceMayUpdate cur item = service.canonicalSourceMayUpdate db item := by
  have hitems : cur.mediaItems = db.mediaItems := h .mediaItems (by decide)
  have hsources : cur.sources = db.sources := h .sources (by decide)
  have hrefs : cur.sourceMediaRefs = db.sourceMediaRefs := h .sourceMediaRefs (by decide)
  have hmanual : cur.identityRows.manualMatchOf item = db.identityRows.manualMatchOf item := by
    unfold IdentityRows.manualMatchOf Database.identityRows
    rw [hitems]
  unfold canonicalSourceMayUpdate Database.hasPlexReference
  rw [hmanual, hsources, hrefs]

/-- One identifier, from a source that may update the item. -/
theorem syncIdentifier_synced (hmay : service.canonicalSourceMayUpdate db item = true)
    (x : ExternalIdentifier) :
    (service.syncIdentifier item (existingOf item db) pending x).Ensures
      (Synced item db gone pending)
      (Synced item db (gone ++ [x])) := by
  refine .read_bind fun cur hcur => ?_
  refine .bind (M := Synced item db gone) (.ite (fun _ => ?_) fun _ => .pure ?_) fun pending => ?_
  · refine (service.flushIdentifiers_flushed pending cur).mono (fun _ h => h) ?_
    rintro _ cur' ⟨rfl, hf, -⟩
    exact hcur.flush hf
  · rintro _ rfl
    exact hcur
  · simp only [id_eq, mayUpdate_of_frame hcur.frame, hmay, Bool.not_true, Bool.and_false,
      Bool.false_eq_true, if_false]
    exact .pure fun cur' h => h.record x

/-- One identifier that did not come before, and none of its provider. -/
theorem returns_syncIdentifier {s : PersistSession}
    (hmay : service.canonicalSourceMayUpdate db item = true)
    (h : SyncedOnce item db gone pending s.store) (hx : x ∉ gone)
    (hopen : ∀ r : MediaIdentifier, x.provider = r.provider → ¬ Superseded gone r) :
    ∃ pending' s', (service.syncIdentifier item (existingOf item db) pending x).Returns s pending'
      s' ∧ s'.cache = s.cache ∧
      SyncedOnce item db (gone ++ [x]) pending' s'.store := by
  have hflushed : ∃ pending₁ s₁,
      (if (!(((existingOf item db).filter (·.provider == x.provider)).filter
        (·.externalId != x.externalId)).isEmpty && stableProviders.contains x.provider) &&
          (s.store.sources.get? service.sourceId).any (·.connectorType != .plex) then
        service.flushIdentifiers item pending else pure pending).Returns s pending₁ s₁ ∧
          s₁.cache = s.cache ∧
      SyncedOnce item db gone pending₁ s₁.store := by
    split
    · obtain ⟨s₁, hrun, hcache, hf⟩ :=
        service.returns_flushIdentifiers h.nodup fun _ => h.not_identifies
      exact ⟨{}, s₁, hrun, hcache, h.flush hf⟩
    · exact ⟨pending, s, returns_pure.2 ⟨rfl, rfl⟩, rfl, h⟩
  obtain ⟨pending₁, s₁, hrun, hcache, h₁⟩ := hflushed
  refine ⟨pending₁.record (existingOf item db) x, s₁, ?_, hcache, h₁.record hx hopen⟩
  refine returns_bind.2
    ⟨s.store, s, returns_read.2 ⟨rfl, rfl⟩, returns_bind.2 ⟨pending₁, s₁, hrun, ?_⟩⟩
  simp only [mayUpdate_of_frame h.frame, hmay, Bool.not_true, Bool.and_false,
    Bool.false_eq_true, if_false]
  exact returns_pure.2 ⟨rfl, rfl⟩

theorem synced_nil (item : Nat) (db : Database) : SyncedOnce item db [] {} db where
  frame := .refl db
  old _ hr _ _ := hr
  added x hx := by cases hx
  dropped r _ _ hsup := absurd hsup not_superseded_nil
  nodup := List.nodup_nil
  kept r hr _ := hr
  fresh r hr hnew := absurd hr hnew
  present x hx := by cases hx
  deleted id hid := by cases hid

/-- A call that is not skipped is its loop and a flush. -/
theorem returns_syncIdentifierValues {s s' : PersistSession} {u : Unit}
    (hmay : service.canonicalSourceMayUpdate s.store item = true)
    (hne : tuple ≠ []) (hnew : .identifierSet item (sortedIdentifiers tuple) ∉ s.cache) :
    (service.syncIdentifierValues item tuple).Returns s u s' ↔ ∃ pending s₁ flushed,
      (tuple.foldlM (service.syncIdentifier item (existingOf item s.store)) {}).Returns s
        pending s₁ ∧
      (service.flushIdentifiers item pending).Returns
        { s₁ with cache := .identifierSet item (sortedIdentifiers tuple) :: s₁.cache }
          flushed s' := by
  have hmanual := manualMatchOf_of_mayUpdate hmay
  have hempty : tuple.isEmpty = false := by simpa using hne
  unfold syncIdentifierValues
  rw [returns_read_bind, hmanual, hempty]
  rw [Option.isSome_none, Bool.or_self, if_neg Bool.false_ne_true, returns_cached_bind,
    decide_eq_false hnew, if_neg Bool.false_ne_true, returns_read_bind, returns_bind]
  constructor
  · rintro ⟨pending, s₁, hrun, h⟩
    obtain ⟨flushed, s₂, hflush, h⟩ := returns_bind.1 (returns_enter_bind.1 h)
    obtain ⟨-, rfl⟩ := returns_pure.1 h
    exact ⟨pending, s₁, flushed, hrun, hflush⟩
  · rintro ⟨pending, s₁, flushed, hrun, hflush⟩
    exact ⟨pending, s₁, hrun,
      returns_enter_bind.2 (returns_bind.2 ⟨flushed, s', hflush, returns_pure.2 ⟨rfl, rfl⟩⟩)⟩

/-- A tuple with one identifier for each provider, and none twice, is stored exactly. -/
theorem syncs_once {s : PersistSession}
    (hmay : service.canonicalSourceMayUpdate s.store item = true) (hne : tuple ≠ [])
    (hnew : .identifierSet item (sortedIdentifiers tuple) ∉ s.cache) (hnodup : tuple.Nodup)
    (hone : OneEach tuple) :
    ∃ s', (service.syncIdentifierValues item tuple).Returns s () s' ∧
    SyncedOnce item s.store tuple {} s'.store := by
  obtain ⟨pending, s₁, hrun, h⟩ := returns_foldlM
    (M := fun gone pending s₁ => SyncedOnce item s.store gone pending s₁.store) (s := s)
    (b := ({} : PendingIdentifiers))
      (g := service.syncIdentifier item (existingOf item s.store)) tuple
    (fun gone x rest pending s₁ htuple h => by
      have hx : x ∉ gone := fun hx => by
        rw [← htuple, List.nodup_append] at hnodup
        exact hnodup.2.2 x hx x List.mem_cons_self rfl
      obtain ⟨pending', s', hstep, -, h'⟩ :=
        returns_syncIdentifier hmay h hx fun r hp => hone.not_superseded hnodup htuple hp
      exact ⟨pending', s', hstep, h'⟩)
    (synced_nil item s.store)
  obtain ⟨s', hflush, -, hf⟩ := @returns_flushIdentifiers service item pending
    { s₁ with cache := .identifierSet item (sortedIdentifiers tuple) :: s₁.cache } h.nodup fun _ =>
      h.not_identifies
  exact ⟨s',
    (returns_syncIdentifierValues hmay hne hnew).2 ⟨pending, s₁, {}, hrun, hflush⟩, h.flush hf⟩

/-- Every call that ends normally took away what the tuple replaces. -/
theorem syncs_synced {s s' : PersistSession} {u : Unit}
    (hmay : service.canonicalSourceMayUpdate s.store item = true) (hne : tuple ≠ [])
    (hnew : .identifierSet item (sortedIdentifiers tuple) ∉ s.cache)
    (hrun : (service.syncIdentifierValues item tuple).Returns s u s') :
    Synced item s.store tuple {} s'.store := by
  obtain ⟨pending, s₁, flushed, hloop, hflush⟩ :=
    (returns_syncIdentifierValues hmay hne hnew).1 hrun
  have h : Synced item s.store tuple pending s₁.store :=
    (Ensures.foldlM_prefix (M := fun gone pending cur => Synced item s.store gone pending cur)
      (fun gone x pending => syncIdentifier_synced hmay x) tuple [] {}) s pending s₁
        (synced_nil item s.store).toSynced hloop
  obtain ⟨-, hf, -⟩ := service.flushIdentifiers_flushed pending s₁.store
    { s₁ with cache := .identifierSet item (sortedIdentifiers tuple) :: s₁.cache } flushed
      s' rfl hflush
  exact h.flush hf

theorem Synced.not_superseded (h : Synced item db tuple {} cur) {r : MediaIdentifier}
    (hr : r ∈ cur.mediaIdentifiers.rows)
    (hold : r ∈ db.mediaIdentifiers.rows) (hi : r.mediaItemId = item) : ¬ Superseded tuple r :=
  fun hsup => by
  cases h.dropped r hold hi hsup hr

theorem SyncedOnce.synchronised (h : SyncedOnce item db tuple {} cur) (hone : OneEach tuple) :
    Synchronised item tuple db cur where
  exact x hx hs y hp := by
    constructor
    · rintro ⟨r, hr, hi, rfl⟩
      by_cases hold : r ∈ db.mediaIdentifiers.rows
      · -- a row that stays has the identifier of its provider
        have hsame : x.externalId = r.externalId := by
          by_contra hne
          exact h.not_superseded hr hold hi
            ⟨by rw [show r.provider = x.provider from hp]; exact hs, x, hx, hp.symm, hne⟩
        have hxr : r.identity = x := by
          rw [MediaIdentifier.identity, show r.provider = x.provider from hp, ← hsame]
        rw [hxr]
        exact hx
      · exact (h.fresh r hr hold).2.1
    · intro hy
      rcases h.present y hy with ⟨r, hr, hi, rfl⟩ | hadded | hcur
      · refine ⟨r, h.kept r hr fun ⟨_, hs', z, hz, hzp, hne⟩ => hne ?_, hi, rfl⟩
        exact hone z hz _ hy hzp (hzp ▸ hs')
      · cases hadded
      · exact hcur
  kept r hr hother := h.kept r hr fun ⟨hi, hs, x, hx, hp, _⟩ => hother ⟨hi, hs, x, hx, hp⟩

theorem SyncedOnce.settled (h : SyncedOnce item db tuple {} cur) (hone : OneEach tuple) :
    (∀ x ∈ tuple, cur.Identifies item x) ∧ ∀ r ∈ cur.mediaIdentifiers.rows, r.mediaItemId = item →
    ¬ Superseded tuple r := by
  refine ⟨fun x hx => ?_, fun r hr hi hsup => ?_⟩
  · rcases h.present x hx with ⟨r, hr, hi, rfl⟩ | hadded | hcur
    · refine ⟨r, h.kept r hr fun ⟨_, hs, y, hy, hp, hne⟩ =>
        hne (hone y hy _ hx hp (hp ▸ hs)), hi, rfl⟩
    · cases hadded
    · exact hcur
  · by_cases hold : r ∈ db.mediaIdentifiers.rows
    · exact h.not_superseded hr hold hi hsup
    · obtain ⟨hs, y, hy, hp, hne⟩ := hsup
      exact hne (hone y hy _ (h.fresh r hr hold).2.1 hp (hp ▸ hs))

/-- Where the whole tuple is stored and replaces nothing, a call of any source leaves everything. -/
theorem returns_settled (service : MediaPersistenceService)
    (hstored : ∀ x ∈ tuple, db.Identifies item x)
    (hopen : ∀ r ∈ db.mediaIdentifiers.rows, r.mediaItemId = item → ¬ Superseded tuple r) :
    ∃ s', (service.syncIdentifierValues item tuple).Returns ⟨db, []⟩ () s' ∧ s'.store = db := by
  have hidle : ∀ x ∈ tuple,
      (service.syncIdentifier item (existingOf item db) {} x).Returns ⟨db, []⟩ {} ⟨db, []⟩ := by
    intro x hx
    have hprevious := any_previous.2 (hstored x hx)
    have hstable : (!(((existingOf item db).filter (·.provider == x.provider)).filter
        (·.externalId != x.externalId)).isEmpty && stableProviders.contains x.provider) =
          false := by
      by_contra h
      rw [Bool.not_eq_false, Bool.and_eq_true, Bool.not_eq_true',
        List.isEmpty_eq_false_iff_exists_mem] at h
      obtain ⟨⟨r, hr⟩, hs⟩ := h
      obtain ⟨hrow, hi, hp, hne⟩ := mem_conflicting.1 hr
      exact hopen r hrow hi ⟨hp ▸ hs, x, hx, hp.symm, hne.symm⟩
    unfold syncIdentifier
    rw [returns_read_bind]
    dsimp only
    rw [hstable, hprevious]
    exact returns_bind.2 ⟨{}, _, returns_pure.2 ⟨rfl, rfl⟩, returns_pure.2 ⟨rfl, rfl⟩⟩
  unfold syncIdentifierValues
  simp only [returns_read_bind]
  split
  · exact ⟨⟨db, []⟩, returns_pure.2 ⟨rfl, rfl⟩, rfl⟩
  simp only [returns_cached_bind, List.not_mem_nil, decide_false, Bool.false_eq_true, if_false,
    returns_read_bind]
  obtain ⟨pending, s₁, hrun, rfl, rfl⟩ :=
    returns_foldlM (M := fun _ pending s₁ => pending = {} ∧ s₁ = ⟨db, []⟩) (s := ⟨db, []⟩)
    (b := ({} : PendingIdentifiers)) (g := service.syncIdentifier item (existingOf item db)) tuple
    (fun gone x rest pending s₁ htuple h => ⟨{}, ⟨db, []⟩, by
      rw [h.1, h.2]
      exact hidle x (htuple ▸ List.mem_append_right _ List.mem_cons_self), rfl, rfl⟩) ⟨rfl, rfl⟩
  refine ⟨⟨db, [.identifierSet item (sortedIdentifiers tuple)]⟩,
    returns_bind.2 ⟨{}, ⟨db, []⟩, hrun, ?_⟩, rfl⟩
  refine returns_enter_bind.2 (returns_bind.2 ⟨{}, ⟨db, _⟩, ?_, returns_pure.2 ⟨rfl, rfl⟩⟩)
  have hdelete : db.deleteMediaIdentifiers (fun r => ([] : List Nat).contains r.id) = db := by
    unfold deleteMediaIdentifiers
    rw [if_neg (by simp)]
  unfold flushIdentifiers
  rw [returns_read_bind, if_neg (by simp)]
  refine returns_bind.2 ⟨(), ⟨db, _⟩, returns_write.2 ?_, returns_pure.2 ⟨rfl, rfl⟩⟩
  rw [List.foldl_nil, hdelete]

/-- Whatever is stored, a call of a source that may update the item stores the tuple exactly, and a
call of a fresh service finds nothing to do. `known` tells whether this service has synchronised the
tuple before. -/
def SyncsExactly (service : MediaPersistenceService) (item : Nat) (tuple : List ExternalIdentifier)
    (known : Bool) : Prop :=
  ∀ (db : Database) (cache : List CacheKey), (db.mediaItems.get? item).isSome = true →
    service.canonicalSourceMayUpdate db item = true →
      decide (.identifierSet item (sortedIdentifiers tuple) ∈ cache) = known →
    ∃ s, (service.syncIdentifierValues item tuple).Returns ⟨db, cache⟩ () s ∧
      Synchronised item tuple db s.store ∧
      ∀ again : MediaPersistenceService,
        ∃ s', (again.syncIdentifierValues item tuple).Returns ⟨s.store, []⟩ () s' ∧
          s'.store = s.store

theorem syncsExactly_of_once (hne : tuple ≠ []) (hnodup : tuple.Nodup) (hone : OneEach tuple) :
    service.SyncsExactly item tuple false := by
  intro db cache _ hmay hnew
  obtain ⟨s, hrun, h⟩ :=
    @syncs_once service item tuple ⟨db, cache⟩ hmay hne (of_decide_eq_false hnew) hnodup hone
  obtain ⟨hstored, hopen⟩ := h.settled hone
  exact ⟨s, hrun, h.synchronised hone, fun again => returns_settled again hstored hopen⟩

/-- An item without identifiers, and no source that could refuse. -/
def bareItem (item : Nat) : Database :=
  { Database.empty with mediaItems := Table.empty.insert { id := item, kind := .movie } }

theorem bareItem_open (service : MediaPersistenceService) (item : Nat) :
    ((bareItem item).mediaItems.get? item).isSome = true ∧
    service.canonicalSourceMayUpdate (bareItem item) item = true ∧
      (bareItem item).mediaIdentifiers.rows = [] := by
  let film : MediaItem := { id := item, kind := .movie }
  have hget : (Table.empty.insert film).get? film.id = some film := Table.get?_insert_self rfl
  have hitem : (bareItem item).mediaItems.get? item = some film := hget
  refine ⟨by rw [hitem]; rfl, ?_, rfl⟩
  unfold canonicalSourceMayUpdate
  have hmanual : (bareItem item).identityRows.manualMatchOf item = none := by
    unfold IdentityRows.manualMatchOf Database.identityRows
    dsimp only
    rw [hitem]
    rfl
  rw [hmanual]
  rfl

/-- Where nothing is stored, the whole tuple is added by one flush. -/
theorem syncs_bare {s s' : PersistSession} {u : Unit}
    (hmay : service.canonicalSourceMayUpdate s.store item = true) (hne : tuple ≠ [])
    (hnew : .identifierSet item (sortedIdentifiers tuple) ∉ s.cache)
    (hrows : s.store.mediaIdentifiers.rows = [])
    (hrun : (service.syncIdentifierValues item tuple).Returns s u s') :
    tuple.Nodup ∧ ∀ x ∈ tuple, s'.store.Identifies item x := by
  obtain ⟨pending, s₁, flushed, hloop, hflush⟩ :=
    (returns_syncIdentifierValues hmay hne hnew).1 hrun
  have hexisting : existingOf item s.store = [] := by
    unfold existingOf
    rw [hrows]
    rfl
  have hstep : ∀ (gone : List ExternalIdentifier) (x : ExternalIdentifier)
      (pending : PendingIdentifiers),
      (service.syncIdentifier item [] pending x).Ensures (fun _ => pending = { added := gone })
        fun pending' _ => pending' = { added := gone ++ [x] } := by
    intro gone x pending
    refine .read_bind fun cur hpending => ?_
    exact .bind (M := fun pending' _ => pending' = pending) (.pure fun _ _ => rfl) fun pending' =>
        .pure fun _ h => by
      rw [h, hpending]; rfl
  have hadded : pending = { added := tuple } := by
    rw [hexisting] at hloop
    exact (Ensures.foldlM_prefix (M := fun gone pending _ => pending = { added := gone }) hstep
      tuple [] {}) s pending s₁ rfl hloop
  obtain ⟨-, hf, hnodup⟩ := service.flushIdentifiers_flushed pending s₁.store
    { s₁ with cache := .identifierSet item (sortedIdentifiers tuple) :: s₁.cache } flushed
      s' rfl hflush
  subst hadded
  exact ⟨hnodup, hf.enters fun id hid => by cases hid⟩

theorem nodup_of_syncsExactly (hne : tuple ≠ []) (h : service.SyncsExactly item tuple false) :
    tuple.Nodup := by
  obtain ⟨hitem, hmay, hrows⟩ := bareItem_open service item
  obtain ⟨s, hrun, -, -⟩ := h (bareItem item) [] hitem hmay rfl
  exact (syncs_bare (s := ⟨bareItem item, []⟩) hmay hne List.not_mem_nil hrows hrun).1

/-- Two identifiers of a provider: the call after one that stored both takes both away. -/
theorem oneEach_of_syncsExactly (h : service.SyncsExactly item tuple false) : OneEach tuple := by
  intro x hx y hy hp hs
  by_contra hdiffer
  have hne : tuple ≠ [] := List.ne_nil_of_mem hx
  obtain ⟨hitem, hmay, -⟩ := bareItem_open service item
  obtain ⟨s, hrun, hexact, hagain⟩ := h (bareItem item) [] hitem hmay rfl
  obtain ⟨s', hrun', hsame⟩ := hagain service
  have hfirst := syncs_synced (s := ⟨bareItem item, []⟩) hmay hne List.not_mem_nil hrun
  have hmay' : service.canonicalSourceMayUpdate s.store item = true :=
    (mayUpdate_of_frame hfirst.frame).trans hmay
  have hsecond := syncs_synced (s := ⟨s.store, []⟩) hmay' hne List.not_mem_nil hrun'
  obtain ⟨r, hr, hi, hrx⟩ := (hexact.exact x hx hs x rfl).2 hx
  have hprovider : r.provider = x.provider := congrArg ExternalIdentifier.provider hrx
  have hid : r.externalId = x.externalId := congrArg ExternalIdentifier.externalId hrx
  refine hsecond.not_superseded (hsame ▸ hr) hr hi
    ⟨hprovider ▸ hs, y, hy, hp.symm.trans hprovider.symm, ?_⟩
  rw [hid]
  exact fun heq => hdiffer heq.symm

/-- A service that has synchronised the tuple does not look at the item again. -/
theorem not_syncsExactly_known (hne : tuple ≠ []) : ¬ service.SyncsExactly item tuple true := by
  intro h
  obtain ⟨hitem, hmay, hrows⟩ := bareItem_open service item
  obtain ⟨s, hrun, -, hagain⟩ :=
    h (bareItem item) [.identifierSet item (sortedIdentifiers tuple)] hitem hmay (by simp)
  have hsame : s.store = bareItem item := by
    unfold syncIdentifierValues at hrun
    rw [returns_read_bind] at hrun
    split at hrun
    · rw [(returns_pure.1 hrun).2]
    · rw [returns_cached_bind, if_pos (by simp)] at hrun
      rw [(returns_pure.1 hrun).2]
  obtain ⟨s', hrun', hsame'⟩ := hagain service
  rw [hsame] at hrun' hsame'
  obtain ⟨x, hx⟩ := List.exists_mem_of_ne_nil tuple hne
  obtain ⟨r, hr, -⟩ :=
    (syncs_bare (s := ⟨bareItem item, []⟩) hmay hne List.not_mem_nil hrows hrun').2 x hx
  rw [hsame', hrows] at hr
  cases hr

/-- A tuple is stored exactly, and stays, whatever the item has, exactly when the service has not
synchronised it before, no identifier comes twice and no provider that identifies has two. -/
theorem syncsExactly_iff (service : MediaPersistenceService) (item : Nat)
    (tuple : List ExternalIdentifier) (known : Bool)
    (hne : tuple ≠ []) : service.SyncsExactly item tuple known ↔ known = false ∧ tuple.Nodup ∧
    OneEach tuple := by
  constructor
  · intro h
    cases known with
    | true => exact absurd h (not_syncsExactly_known hne)
    | false => exact ⟨rfl, nodup_of_syncsExactly hne h, oneEach_of_syncsExactly h⟩
  · rintro ⟨rfl, hnodup, hone⟩
    exact syncsExactly_of_once hne hnodup hone

theorem syncsExactly_iff_film :
    (plainService 1).SyncsExactly 1 [⟨"tmdb", "603"⟩, ⟨"imdb", "tt0133093"⟩] false :=
  (syncsExactly_iff (plainService 1) 1 [⟨"tmdb", "603"⟩, ⟨"imdb", "tt0133093"⟩] false (by simp)).2
    ⟨rfl, by simp, by simp [OneEach]⟩

/-- Two identifiers of one provider: both are stored, and the same call takes both away. -/
theorem two_identifiers_alternate :
    let tuple : List ExternalIdentifier := [⟨"tmdb", "603"⟩, ⟨"tmdb", "604"⟩]
    let first := ((plainService 1).syncIdentifierValues 1 tuple).run ⟨bareItem 1, []⟩
    let second := ((plainService 1).syncIdentifierValues 1 tuple).run ⟨first.2.store, []⟩
    first.2.store.mediaIdentifiers.rows.map MediaIdentifier.identity = tuple ∧
      second.2.store.mediaIdentifiers.rows = [] ∧
      ¬ (plainService 1).SyncsExactly 1 tuple false := by
  refine ⟨by decide +kernel, by decide +kernel, fun h => ?_⟩
  have hone :=
    oneEach_of_syncsExactly h ⟨"tmdb", "603"⟩ (by simp) ⟨"tmdb", "604"⟩ (by simp) rfl (by decide)
  exact absurd hone (by decide)

end Loop

end MediaPersistenceService

end Euvieouvi
