import Euvieouvi.Persist.ReferenceInvariants

/-!
# The stamp of a persisted item

An item that is persisted leaves a reference that the call flushed: a new one, or the one it has,
whose `last_seen_at` moves. The hierarchy may have moved it already, so what is kept is that a
reference seen late is stamped late (`SeenStamped`).
-/

namespace Euvieouvi

open Database Program

/-- What was seen at that time or later was written then. -/
def SeenStamped (T : Time) (db : Database) : Prop :=
  ∀ r ∈ db.sourceMediaRefs.rows, T ≤ r.lastSeenAt → T ≤ r.updatedAt

def ReferenceStamped (T : Time) (db : Database) : Prop :=
  ∃ r ∈ db.sourceMediaRefs.rows, T ≤ r.updatedAt

def HasReference (i : Nat) (db : Database) : Prop := ∃ r ∈ db.sourceMediaRefs.rows, r.id = i

/-- The reference that was found is still there. -/
def Finds (known : Option SourceMediaRef) (db : Database) : Prop :=
  ∀ r, known = some r → HasReference r.id db

instance (T : Time) (db : Database) : Decidable (ReferenceStamped T db) :=
  inferInstanceAs (Decidable (∃ r ∈ _, _))

section Statements
variable {T now : Time} {db : Database} {r r' : SourceMediaRef} {i : Nat}

theorem mem_saveSourceMediaRef {f : Assignment SourceMediaRef.id}
    (h : r' ∈ (db.saveSourceMediaRef now i f).sourceMediaRefs.rows) :
    ∃ r ∈ db.sourceMediaRefs.rows, r' = r ∨ r' = { f r with updatedAt := now } := by
  unfold saveSourceMediaRef at h
  rw [sourceMediaRefs_updateSourceMediaRefs] at h
  obtain ⟨r, hr, rfl⟩ := Table.mem_update.1 h
  refine ⟨r, hr, ?_⟩
  split
  exacts [.inr rfl, .inl rfl]

/-- A row after a flush: the row itself where nothing changed, and the assigned one where something
did. -/
theorem exists_saveSourceMediaRef (now : Time) (i : Nat) (f : Assignment SourceMediaRef.id)
    (hr : r ∈ db.sourceMediaRefs.rows) :
    ∃ r' ∈ (db.saveSourceMediaRef now i f).sourceMediaRefs.rows, r'.id = r.id ∧
      (r' = { f r with updatedAt := now } ∨ r' = r ∧ (r.id = i → f r = r)) := by
  unfold saveSourceMediaRef
  rw [sourceMediaRefs_updateSourceMediaRefs]
  refine ⟨_, Table.mem_update.2 ⟨r, hr, rfl⟩, ?_⟩
  split
  · exact ⟨f.key_apply r, .inl rfl⟩
  next hsame =>
    refine ⟨rfl, .inr ⟨rfl, fun hid => ?_⟩⟩
    by_contra hne
    exact hsame (by simp [hid, hne])

theorem mem_moveReferences {w l : Nat} (h : r' ∈ (db.moveReferences w l).sourceMediaRefs.rows) :
    ∃ r ∈ db.sourceMediaRefs.rows, r'.id = r.id ∧ r'.lastSeenAt = r.lastSeenAt ∧
    r'.updatedAt = r.updatedAt := by
  unfold moveReferences at h
  rw [sourceMediaRefs_updateSourceMediaRefs] at h
  obtain ⟨r, hr, rfl⟩ := Table.mem_update.1 h
  refine ⟨r, hr, ?_⟩
  split
  exacts [⟨rfl, rfl, rfl⟩, ⟨rfl, rfl, rfl⟩]

theorem exists_moveReferences (w l : Nat) (hr : r ∈ db.sourceMediaRefs.rows) :
    ∃ r' ∈ (db.moveReferences w l).sourceMediaRefs.rows, r'.id = r.id ∧
    r'.updatedAt = r.updatedAt := by
  unfold moveReferences
  rw [sourceMediaRefs_updateSourceMediaRefs]
  refine ⟨_, Table.mem_update.2 ⟨r, hr, rfl⟩, ?_⟩
  split
  exacts [⟨rfl, rfl⟩, ⟨rfl, rfl⟩]

theorem mem_insertSourceMediaRef_of_mem (hr : r ∈ db.sourceMediaRefs.rows) :
    r ∈ (db.insertSourceMediaRef r').sourceMediaRefs.rows := by
  rw [sourceMediaRefs_insertSourceMediaRef]
  exact Table.mem_insert_of_mem hr

theorem ReferenceStamped.save (h : ReferenceStamped T db) (hT : T ≤ now) (i : Nat)
    (f : Assignment SourceMediaRef.id) :
    ReferenceStamped T (db.saveSourceMediaRef now i f) := by
  obtain ⟨r, hr, hlate⟩ := h
  obtain ⟨r', hr', -, rfl | ⟨rfl, -⟩⟩ := exists_saveSourceMediaRef now i f hr
  exacts [⟨_, hr', hT⟩, ⟨_, hr', hlate⟩]

theorem seenStamped_listed (hT : T ≤ now) : ListedInvariant now (SeenStamped T) where
  of_table htable h r hr := h r (by rwa [htable] at hr)
  moveReferences w l h r' hr' hseen := by
    obtain ⟨r, hr, -, hlast, hupdated⟩ := mem_moveReferences hr'
    rw [hupdated]
    exact h r hr (by rwa [hlast] at hseen)
  insert _ _ hstamp h r' hr' hseen := by
    rw [sourceMediaRefs_insertSourceMediaRef] at hr'
    rcases Table.mem_insert hr' with hr' | rfl
    · exact h r' hr' hseen
    · rw [hstamp]
      exact hT
  save i f _ h r' hr' hseen := by
    obtain ⟨r, hr, rfl | rfl⟩ := mem_saveSourceMediaRef hr'
    exacts [h r' hr hseen, hT]

theorem referenceStamped_listed (hT : T ≤ now) : ListedInvariant now (ReferenceStamped T) where
  of_table htable h := by
    unfold ReferenceStamped
    rwa [htable]
  moveReferences w l h := by
    obtain ⟨r, hr, hlate⟩ := h
    obtain ⟨r', hr', -, hupdated⟩ := exists_moveReferences w l hr
    exact ⟨r', hr', by rwa [hupdated]⟩
  insert _ _ _ h := by
    obtain ⟨r, hr, hlate⟩ := h
    exact ⟨r, mem_insertSourceMediaRef_of_mem hr, hlate⟩
  save i f _ h := h.save hT i f

theorem hasReference_listed (now : Time) (i : Nat) : ListedInvariant now (HasReference i) where
  of_table htable h := by
    unfold HasReference
    rwa [htable]
  moveReferences w l h := by
    obtain ⟨r, hr, hid⟩ := h
    obtain ⟨r', hr', hid', -⟩ := exists_moveReferences w l hr
    exact ⟨r', hr', hid'.trans hid⟩
  insert _ _ _ h := by
    obtain ⟨r, hr, hid⟩ := h
    exact ⟨r, mem_insertSourceMediaRef_of_mem hr, hid⟩
  save j f _ h := by
    obtain ⟨r, hr, hid⟩ := h
    obtain ⟨r', hr', hid', -⟩ := exists_saveSourceMediaRef now j f hr
    exact ⟨r', hr', hid'.trans hid⟩

theorem finds_listed (now : Time) (known : Option SourceMediaRef) :
    ListedInvariant now (Finds known) where
  of_table htable h r hr := (hasReference_listed now r.id).of_table htable (h r hr)
  moveReferences w l h r hr := (hasReference_listed now r.id).moveReferences w l (h r hr)
  insert hav hsince hstamp h r hr :=
    (hasReference_listed now r.id).insert hav hsince hstamp (h r hr)
  save i f hf h r hr := (hasReference_listed now r.id).save i f hf (h r hr)

theorem ListedInvariant.and {I J : Database → Prop} (hI : ListedInvariant now I)
    (hJ : ListedInvariant now J) :
    ListedInvariant now fun db => I db ∧ J db where
  of_table htable h := ⟨hI.of_table htable h.1, hJ.of_table htable h.2⟩
  moveReferences w l h := ⟨hI.moveReferences w l h.1, hJ.moveReferences w l h.2⟩
  insert hav hsince hstamp h := ⟨hI.insert hav hsince hstamp h.1, hJ.insert hav hsince hstamp h.2⟩
  save i f hf h := ⟨hI.save i f hf h.1, hJ.save i f hf h.2⟩

end Statements

namespace MediaPersistenceService
variable (service : MediaPersistenceService) {T observedAt : Time}

theorem addReference_stamps {r : SourceMediaRef} (hr : T ≤ r.updatedAt) :
    (addReference r).Ensures (fun _ => True) fun _ => ReferenceStamped T := by
  refine .bind (M := fun _ _ => True) (.read fun _ _ => trivial) fun taken =>
    .ite (fun _ => .fail _) fun _ => ?_
  refine .read_bind fun db _ => .bind (M := fun _ => ReferenceStamped T) (.write fun db' hdb => ?_)
    fun _ => .pure fun _ h => h
  subst hdb
  refine ⟨{ r with id := db'.sourceMediaRefs.nextId }, ?_, hr⟩
  rw [sourceMediaRefs_insertSourceMediaRef]
  exact Table.mem_of_get? (Table.get?_insert_self (Table.get?_nextId db'.sourceMediaRefs))

theorem addMedia_stamps (hT : T ≤ service.now) (item : MediaFields) (observedAt : Time)
    (matched : Option MediaItem)
    (parent : Option Nat) : (service.addMedia item observedAt matched parent).Ensures
      (fun _ => True) fun _ => ReferenceStamped T := by
  unfold addMedia
  split
  · refine .bind (M := fun _ _ => True) (.write fun _ _ => trivial) fun _ => ?_
    exact .bind (addReference_stamps hT) fun _ => .pure fun _ h => h
  · refine .bind (M := fun _ _ => True) (.read fun _ _ => trivial) fun _ => ?_
    refine .bind (M := fun _ _ => True) (.write fun _ _ => trivial) fun _ => ?_
    exact .bind (addReference_stamps hT) fun _ => .pure fun _ h => h

/-- A reference that the hierarchy has not moved in this call moves now. -/
theorem observeMedia_stamps (hT : T ≤ service.now) (hseen : T ≤ observedAt) (item : MediaFields)
    (reference : SourceMediaRef)
    (parent : Option Nat) : (service.observeMedia item observedAt reference parent).Ensures
      (fun db => SeenStamped T db ∧ HasReference reference.id db) fun _ => ReferenceStamped T := by
  have hlisted :=
    ((seenStamped_listed hT).and (hasReference_listed service.now reference.id)).statements
  refine .bind (keeps_requiredMedia _) fun media =>
    .bind (M := fun _ db => SeenStamped T db ∧ HasReference reference.id db) ?_ ?_
  · refine .write fun db hdb => ?_
    split
    exacts [hdb, hlisted.keeps_updateMedia service item parent media.id hdb]
  · intro _
    refine .bind (M := fun _ => ReferenceStamped T) (.write ?_) fun _ => .pure fun _ h => h
    rintro db ⟨hdb, r, hr, hid⟩
    obtain ⟨r', hr', -, rfl | ⟨rfl, hsame⟩⟩ := exists_saveSourceMediaRef service.now reference.id
      ⟨service.observeReference item observedAt, fun _ => rfl⟩ hr
    · exact ⟨_, hr', hT⟩
    · have hlast : observedAt = r'.lastSeenAt := congrArg SourceMediaRef.lastSeenAt (hsame hid)
      exact ⟨r', hr', hdb r' hr (hlast ▸ hseen)⟩

theorem storeMedia_stamps (hT : T ≤ service.now) (hseen : T ≤ observedAt) (item : MediaFields)
    (known : Option SourceMediaRef)
    (matched : Option MediaItem) (parent : Option Nat) :
    (service.storeMedia item observedAt known matched parent).Ensures
      (fun db => SeenStamped T db ∧ Finds known db) fun _ => ReferenceStamped T := by
  unfold storeMedia
  split
  · exact (service.addMedia_stamps hT item observedAt matched parent).mono (fun _ _ => trivial)
      fun _ _ h => h
  next r =>
    exact (service.observeMedia_stamps hT hseen item r parent).mono (fun _ h => ⟨h.1, h.2 r rfl⟩)
      fun _ _ h => h

/-- A call that ends normally. -/
theorem persistMedia_stamps (hT : T ≤ service.now) (hseen : T ≤ observedAt)
    (item : ExternalMediaItem) :
    (service.persistMedia item observedAt).Ensures (SeenStamped T) fun _ => ReferenceStamped T := by
  have hstamped := (referenceStamped_listed hT).statements
  refine .read_bind fun db hdb => ?_
  have hfinds : Finds (db.byExternalIdentity service.sourceId item.externalId) db := fun r hr =>
    ⟨r, (mem_of_byExternalIdentity hr).1, rfl⟩
  generalize db.byExternalIdentity service.sourceId item.externalId = known at hfinds ⊢
  have hlisted := ((seenStamped_listed hT).and (finds_listed service.now known)).statements
  have hmatched : Keeps (fun db => SeenStamped T db ∧ Finds known db)
      (service.matchMedia item.toMediaFields known) :=
    .of_ensures (fun db => service.matchMedia_ensures known db) fun db _ db' h hdb => by
      rw [h.1.1]
      exact hdb
  refine Ensures.mono (P := fun db => SeenStamped T db ∧ Finds known db)
    (.bind hmatched fun matched => ?_)
    (fun _ h => h ▸ ⟨hdb, hfinds⟩) fun _ _ h => h
  refine .bind (hlisted.keeps_ensureHierarchy service _ trivial matched) fun parent => ?_
  refine .bind (hlisted.keeps_syncShowMetadata service item parent) fun _ => ?_
  refine .bind (service.storeMedia_stamps hT hseen item.toMediaFields known matched parent)
    fun persisted => ?_
  exact .bind (hstamped.keeps_persistDetails service _ persisted) fun _ =>
    hstamped.keeps_persistPlayback service _ observedAt persisted

/-! ### Pages -/

theorem persistMediaWithRepair_stamps (hT : T ≤ service.now) (x : PagedItem)
    (hx : T ≤ x.observedAt ∧ T ≤ x.retriedAt) :
    (service.persistMediaWithRepair x).Ensures (SeenStamped T) fun outcome db =>
      outcome.result.isSome = true → ReferenceStamped T db := by
  have hseen := (seenStamped_listed hT).statements
  have hstamped := (referenceStamped_listed hT).statements
  have hattempt : ∀ observedAt, T ≤ observedAt →
      (Program.attempt (service.persistMedia x.item observedAt)).Ensures (SeenStamped T)
      fun ended db => SeenStamped T db ∧
        (ended.toOption.isSome = true → ReferenceStamped T db) := by
    refine fun observedAt hobserved => Ensures.of_forall fun db hdb =>
      .attempt (fun s result s' hs hr => ?_) fun error => ⟨hdb, fun h => by cases h⟩
    exact ⟨hseen.keeps_persistMedia service x.item trivial s result s' (hs ▸ hdb) hr,
      fun _ => service.persistMedia_stamps hT hobserved x.item s result s' (hs ▸ hdb) hr⟩
  refine .bind (hattempt x.observedAt hx.1) fun ended => ?_
  cases ended with
  | ok result =>
    exact (hstamped.keeps_reconcileAfter service x.item.toMediaFields result).mono
      (fun _ h => h.2 rfl) fun _ _ h _ => h
  | error original =>
    refine Ensures.mono (P := SeenStamped T) ?_ (fun _ h => h.1) fun _ _ h => h
    refine .bind (Keeps.attempt (hseen.keeps_reconcilePersistedItem service _ _)) fun repaired => ?_
    split
    · exact .pure fun _ _ h => by cases h
    · refine .bind (hattempt x.retriedAt hx.2) fun ended => ?_
      cases ended with
      | ok result => exact .pure fun _ h _ => h.2 rfl
      | error error => exact .pure fun _ _ h => by cases h

/-- A page on which an item is persisted. -/
theorem persistMediaPage_stamps (hT : T ≤ service.now) (items : List PagedItem)
    (hitems : ∀ x ∈ items, T ≤ x.observedAt ∧ T ≤ x.retriedAt) :
    (service.persistMediaPage items).Ensures (SeenStamped T) fun outcomes db =>
      (∃ outcome ∈ outcomes, outcome.result.isSome = true) → ReferenceStamped T db := by
  induction items with
  | nil => exact .pure fun _ _ ⟨_, h, _⟩ => by cases h
  | cons x items ih =>
    have hx := hitems x List.mem_cons_self
    have hone := (service.persistMediaWithRepair_stamps hT x hx).and
      ((seenStamped_listed hT).statements.keeps_persistMediaWithRepair service x ⟨trivial, trivial⟩)
    refine .bind hone fun outcome => ?_
    have hrest := (ih fun y hy => hitems y (List.mem_cons_of_mem x hy))
    refine .bind (M := fun outcomes db =>
      (∃ outcome' ∈ outcome :: outcomes, outcome'.result.isSome = true) → ReferenceStamped T db)
      (.of_forall fun db hdb => ?_) fun outcomes => .pure fun _ h => h
    by_cases hsome : outcome.result.isSome = true
    · exact ((referenceStamped_listed hT).statements.keeps_persistMediaPage service items fun _ _ =>
        ⟨trivial, trivial⟩).mono (fun _ h => h ▸ hdb.1 hsome) fun _ _ h _ => h
    · refine hrest.mono (fun _ h => h ▸ hdb.2) fun outcomes _ h => ?_
      rintro ⟨outcome', hmem, hresult⟩
      rcases List.mem_cons.1 hmem with rfl | hmem
      exacts [absurd hresult hsome, h ⟨outcome', hmem, hresult⟩]

/-- A page of which every item is lost. -/
theorem persistMediaPage_lost (items : List PagedItem) (db : Database) :
    (service.persistMediaPage items).Ensures (· = db) fun outcomes db' =>
      (∀ outcome ∈ outcomes, outcome.lost = true) → db' = db := by
  induction items generalizing db with
  | nil => exact .pure fun _ h _ => h
  | cons x items ih =>
    have hone : (service.persistMediaWithRepair x).Ensures (· = db) fun outcome db' =>
        outcome.lost = true → db' = db := by
      intro s outcome s' hs hr hlost
      obtain ⟨outcome', s'', hr', hstore⟩ := service.persistMediaWithRepair_returns x s
      obtain ⟨rfl, rfl⟩ : outcome = outcome' ∧ s' = s'' := by
        have heq := Prod.mk.inj (Eq.trans (Eq.symm hr) hr')
        exact ⟨Except.ok.inj heq.1, heq.2⟩
      exact (hstore hlost).trans hs
    refine .bind hone fun outcome => .of_forall fun db₁ hdb₁ => ?_
    refine .bind (ih db₁) fun outcomes => .pure fun db₂ h hlost => ?_
    rw [h fun o ho => hlost o (List.mem_cons_of_mem outcome ho)]
    exact hdb₁ (hlost outcome List.mem_cons_self)

theorem persistMediaPage_returns (items : List PagedItem) (s : PersistSession) :
    ∃ outcomes s', (service.persistMediaPage items).Returns s outcomes s' := by
  induction items generalizing s with
  | nil => exact ⟨[], s, rfl⟩
  | cons x items ih =>
    obtain ⟨outcome, u, hx, -⟩ := service.persistMediaWithRepair_returns x s
    obtain ⟨outcomes, s', hrest⟩ := ih u
    exact ⟨_, s', returns_bind.2 ⟨_, u, hx, returns_bind.2 ⟨_, _, hrest, rfl⟩⟩⟩

end MediaPersistenceService

end Euvieouvi
