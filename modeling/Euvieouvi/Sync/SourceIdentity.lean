import Euvieouvi.Python
import Euvieouvi.Lib.Runs
import Euvieouvi.Sync.LibraryScan

/-!
# A server is replaced

`apply_server_identity` (`sync/source_identity.py`) and the discovery that calls it
(`sync/discovery.py`). When a source shows a second known identity, the rows of its old server are
retired: references and libraries get an id that names their row (`retiredIdentity`), states,
checkpoints, webhooks, images and queued updates go. An id that names its row is the id of no other
row and of no server, so the unique constraints hold over any number of replacements
(`ServerRows.Proper`), and a call touches one source (`OthersKept`).
-/

namespace Euvieouvi

open Database

/-- `sync_checkpoints` with the library of the row. -/
structure LibraryCheckpoint extends SyncCheckpoint where
  libraryId : Nat
deriving DecidableEq, Repr

/-- The database with the columns and rows that only the identity of a server needs. -/
structure ServerRows where
  db : Database
  /-- `sources.server_identifier`. -/
  serverIdentifier : Nat → Option String
  checkpoints : Table LibraryCheckpoint.libraryId

/-- `_retired_identity`. -/
def retiredIdentity (py : PyLib) (kind : String) (rowId : Nat) (externalId : String) : String :=
  let digest := String.ofList ((py.sha256 externalId).toList.take 16)
  s!"retired:{kind}:{rowId}:{digest}"

/-- An id that a server gives. -/
def ServerId (id : String) : Prop := ¬ "retired:".toList <+: id.toList

instance (id : String) : Decidable (ServerId id) := inferInstanceAs (Decidable (¬ _))

namespace Database

/-- `uq_source_media_refs_identity` and `uq_libraries_source_external`. -/
structure UniqueIds (db : Database) : Prop where
  references : ∀ r ∈ db.sourceMediaRefs.rows, ∀ r' ∈ db.sourceMediaRefs.rows,
    r.sourceId = r'.sourceId → r.externalId = r'.externalId → r.id = r'.id
  libraries : ∀ l ∈ db.libraries.rows, ∀ l' ∈ db.libraries.rows, l.sourceId = l'.sourceId →
    l.externalId = l'.externalId → l.id = l'.id

instance (db : Database) : Decidable db.UniqueIds :=
  decidable_of_iff (_ ∧ _) ⟨fun h => ⟨h.1, h.2⟩, fun h => ⟨h.1, h.2⟩⟩

/-- The libraries of a source. -/
def libraryOf (db : Database) (source libraryId : Nat) : Bool :=
  db.libraries.rows.any fun l => l.sourceId == source && l.id == libraryId

end Database

namespace ServerRows
variable (py : PyLib)

def retireReference (now : Time) (r : SourceMediaRef) : SourceMediaRef :=
  { r with
    externalId := retiredIdentity py "media" r.id r.externalId
    externalKey := none
    available := false
    unavailableSince := some now }

def retireLibrary (l : Library) : Library :=
  { l with
    externalId := retiredIdentity py "library" l.id l.externalId
    available := false
    enabled := false }

/-- The references and states of the source; `flushedAt` is the clock of the row maintenance. -/
def retireReferences (source : Nat) (now flushedAt : Time) (db : Database) : Database :=
  let retired : Assignment SourceMediaRef.id :=
    ⟨fun r => { retireReference py now r with updatedAt := flushedAt }, fun _ => rfl⟩
  (db.updateSourceMediaRefs (fun r => r.sourceId == source && decide (retireReference py now r ≠ r))
    retired).deleteWatchStates
    (·.sourceId == source)

/-- The writes of a confirmed change. -/
def retire (source : Nat) (identifier : String) (now flushedAt : Time) (s : ServerRows) :
    ServerRows :=
  let db := retireReferences py source now flushedAt s.db
  { db := { db with
      libraries := db.libraries.update (·.sourceId == source) ⟨retireLibrary py, fun _ => rfl⟩
      webhookEvents := db.webhookEvents.delete (·.sourceId == source)
      mediaImages := db.mediaImages.delete (·.sourceId == some source)
      asyncTasks := db.asyncTasks.delete (·.payload.sourceId == source)
      settings := { db.settings with lastSuccessAt := [], lastFullAt := [] } }
    serverIdentifier := Function.update s.serverIdentifier source (some identifier)
    checkpoints := s.checkpoints.delete fun c => s.db.libraryOf source c.libraryId }

/-- `apply_server_identity`; a unique constraint may refuse the retired ids. -/
def applyServerIdentity (source : Nat) (serverIdentifier : Option String) (now flushedAt : Time)
    (s : ServerRows) :
    Option (ServerRows × Bool) :=
  let identifier := py.strip (serverIdentifier.getD "")
  if identifier = "" ∨ s.serverIdentifier source = some identifier then some (s, false)
  else if s.serverIdentifier source = none then
    some ({ s with
      serverIdentifier := Function.update s.serverIdentifier source (some identifier) }, false)
  else
    let retired := s.retire py source identifier now flushedAt
    if retired.db.UniqueIds then some (retired, true) else none

/-- One library of a discovery. -/
def upsertLibrary (source : Nat) (db : Database) (found : String × LibraryMediaType) : Database :=
  match db.libraries.rows.find? fun l => l.sourceId == source && l.externalId == found.1 with
  | none =>
    let library : Library :=
      { id := db.libraries.nextId, sourceId := source, externalId := found.1, mediaType := found.2 }
    { db with libraries := db.libraries.insert library }
  | some library =>
    let refreshed : Assignment Library.id :=
      ⟨fun l => { l with mediaType := found.2, available := true }, fun _ => rfl⟩
    { db with libraries := db.libraries.update (·.id == library.id) refreshed }

/-- `LibraryDiscoveryService.discover` of a source that answers. -/
def discover (source : Nat) (serverIdentifier : Option String)
    (found : List (String × LibraryMediaType)) (now flushedAt : Time)
    (s : ServerRows) : Option ServerRows :=
  (s.applyServerIdentity py source serverIdentifier now flushedAt).map fun (s, _) =>
    let upserted := found.foldl (upsertLibrary source) s.db
    let missing : Library → Bool :=
      fun l => l.sourceId == source && !(found.map Prod.fst).contains l.externalId
    let hidden : Assignment Library.id := ⟨fun l => { l with available := false }, fun _ => rfl⟩
    { s with db := { upserted with libraries := upserted.libraries.update missing hidden } }

end ServerRows

section RetiredIds
variable {py : PyLib} {kind : String} {i j : Nat} {a b : String}

theorem toList_retiredIdentity : (retiredIdentity py kind i a).toList =
    "retired:".toList ++
      (kind.toList ++ ':' :: (Nat.toDigits 10 i ++ ':' :: (py.sha256 a).toList.take 16)) := by
  have htext : ∀ text : String, toString text = text := fun _ => rfl
  simp [retiredIdentity, htext, Nat.toString_eq_repr, Nat.repr]

/-- A retired id names its row. -/
theorem retiredIdentity_inj (h : retiredIdentity py kind i a = retiredIdentity py kind j b) :
    i = j := by
  have hlist := congrArg String.toList h
  rw [toList_retiredIdentity, toList_retiredIdentity, List.append_cancel_left_eq,
    List.append_cancel_left_eq, List.cons.injEq] at hlist
  have hdigits : ∀ n : Nat, ':' ∉ Nat.toDigits 10 n := fun n hmem => by
    have := Nat.isDigit_of_mem_toDigits (by omega) le_rfl hmem
    revert this
    decide
  have hfirst : ∀ (n : Nat) (rest : List Char),
      (Nat.toDigits 10 n ++ ':' :: rest).takeWhile (· ≠ ':') = Nat.toDigits 10 n := by
    intro n rest
    rw [List.takeWhile_append_of_pos fun c hc => by simpa using ne_of_mem_of_not_mem hc (hdigits n)]
    simp
  have hsame : Nat.toDigits 10 i = Nat.toDigits 10 j := by
    rw [← hfirst i, hlist.2, hfirst j]
  rw [← Nat.ofDigitChars_ten_toDigits (n := i), hsame, Nat.ofDigitChars_ten_toDigits]

theorem not_serverId_retired : ¬ ServerId (retiredIdentity py kind i a) := fun h =>
  h (by rw [toList_retiredIdentity]; exact List.prefix_append _ _)

end RetiredIds

namespace ServerRows
variable {py : PyLib} {s : ServerRows} {source : Nat} {identifier : String}
  {serverIdentifier : Option String} {now flushedAt : Time}

/-- The ids of the rows are those of servers, or name their rows. -/
structure Proper (py : PyLib) (s : ServerRows) : Prop extends s.db.UniqueIds where
  referenceIds : ∀ r ∈ s.db.sourceMediaRefs.rows, ServerId r.externalId ∨
    ∃ old, r.externalId = retiredIdentity py "media" r.id old
  libraryIds : ∀ l ∈ s.db.libraries.rows, ServerId l.externalId ∨
    ∃ old, l.externalId = retiredIdentity py "library" l.id old
  queue : ∀ t ∈ s.db.asyncTasks.rows, ∀ u, t.pendingPayload = some u →
    u.sourceId = t.payload.sourceId

/-- What belongs to other sources is as it was. -/
structure OthersKept (source : Nat) (s s' : ServerRows) : Prop where
  references : s'.db.sourceMediaRefs.rows.filter (·.sourceId != source) =
    s.db.sourceMediaRefs.rows.filter (·.sourceId != source)
  libraries : s'.db.libraries.rows.filter (·.sourceId != source) =
    s.db.libraries.rows.filter (·.sourceId != source)
  states : s'.db.watchStates.rows.filter (·.sourceId != source) =
    s.db.watchStates.rows.filter (·.sourceId != source)
  webhooks : s'.db.webhookEvents.rows.filter (·.sourceId != source) =
    s.db.webhookEvents.rows.filter (·.sourceId != source)
  images : s'.db.mediaImages.rows.filter (·.sourceId != some source) =
    s.db.mediaImages.rows.filter (·.sourceId != some source)
  tasks : s'.db.asyncTasks.rows.filter (·.payload.sourceId != source) =
    s.db.asyncTasks.rows.filter (·.payload.sourceId != source)
  checkpoints : s'.checkpoints.rows.filter (fun c => !s.db.libraryOf source c.libraryId) =
    s.checkpoints.rows.filter fun c => !s.db.libraryOf source c.libraryId
  identifiers : ∀ other, other ≠ source → s'.serverIdentifier other = s.serverIdentifier other
  rest : Frame [.sourceMediaRefs, .libraries, .watchStates, .webhookEvents, .mediaImages,
    .asyncTasks, .dirtyItems, .settings]
    s.db s'.db

theorem OthersKept.refl (source : Nat) (s : ServerRows) : OthersKept source s s :=
  ⟨rfl, rfl, rfl, rfl, rfl, rfl, rfl, fun _ _ => rfl, .refl s.db⟩

/-- The rows of the source are those of no server any more, and its queue is empty. -/
structure Retired (source : Nat) (s : ServerRows) : Prop where
  references : ∀ r ∈ s.db.sourceMediaRefs.rows, r.sourceId = source → ¬ ServerId r.externalId
  libraries : ∀ l ∈ s.db.libraries.rows, l.sourceId = source → ¬ ServerId l.externalId
  tasks : ∀ t ∈ s.db.asyncTasks.rows, t.payload.sourceId ≠ source ∧ ∀ u, t.pendingPayload = some u →
    u.sourceId ≠ source

/-- Rows that are those of no server stay so. -/
structure StayRetired (s s' : ServerRows) : Prop where
  references : ∀ r ∈ s.db.sourceMediaRefs.rows, ¬ ServerId r.externalId →
    ∃ r' ∈ s'.db.sourceMediaRefs.rows, r'.id = r.id ∧ ¬ ServerId r'.externalId
  libraries : ∀ l ∈ s.db.libraries.rows, ¬ ServerId l.externalId →
    ∃ l' ∈ s'.db.libraries.rows, l'.id = l.id ∧ ¬ ServerId l'.externalId

/-! ### The rows of a retirement -/

section Retire

theorem retireReferences_frame (db : Database) :
    Frame [.sourceMediaRefs, .watchStates, .dirtyItems] db
      (retireReferences py source now flushedAt db) :=
  ((updateSourceMediaRefs_frame _ _).mono (by decide)).trans
    ((deleteWatchStates_frame _).mono (by decide))

theorem sourceMediaRefs_retire : (s.retire py source identifier now flushedAt).db.sourceMediaRefs =
    s.db.sourceMediaRefs.update (fun r => r.sourceId == source &&
      decide (retireReference py now r ≠ r))
      ⟨fun r => { retireReference py now r with updatedAt := flushedAt }, fun _ => rfl⟩ :=
  (@deleteWatchStates_frame (s.db.updateSourceMediaRefs _ _) _ .sourceMediaRefs (by decide)).trans
    (sourceMediaRefs_updateSourceMediaRefs _ _)

theorem watchStates_retire : (s.retire py source identifier now flushedAt).db.watchStates =
    s.db.watchStates.delete (·.sourceId == source) := by
  refine (watchStates_deleteWatchStates _).trans ?_
  rw [show (s.db.updateSourceMediaRefs _ _).watchStates =
    s.db.watchStates from updateSourceMediaRefs_frame _ _ .watchStates (by decide)]

theorem libraries_retire : (s.retire py source identifier now flushedAt).db.libraries =
    s.db.libraries.update (·.sourceId == source) ⟨retireLibrary py, fun _ => rfl⟩ :=
  congrArg (fun t : Table Library.id =>
    t.update (·.sourceId == source) ⟨retireLibrary py, fun _ => rfl⟩)
    (retireReferences_frame s.db .libraries (by decide))

theorem webhookEvents_retire : (s.retire py source identifier now flushedAt).db.webhookEvents =
    s.db.webhookEvents.delete (·.sourceId == source) :=
  congrArg (fun t : Table WebhookEvent.id => t.delete (·.sourceId == source))
    (retireReferences_frame s.db .webhookEvents (by decide))

theorem mediaImages_retire : (s.retire py source identifier now flushedAt).db.mediaImages =
    s.db.mediaImages.delete (·.sourceId == some source) :=
  congrArg (fun t : Table MediaImage.id => t.delete (·.sourceId == some source))
    (retireReferences_frame s.db .mediaImages (by decide))

theorem asyncTasks_retire : (s.retire py source identifier now flushedAt).db.asyncTasks =
    s.db.asyncTasks.delete (·.payload.sourceId == source) :=
  congrArg (fun t : Table AsyncTask.id => t.delete (·.payload.sourceId == source))
    (retireReferences_frame s.db .asyncTasks (by decide))

/-- A reference after the retirement, and the one it was. -/
theorem mem_references_retire {r : SourceMediaRef}
    (hr : r ∈ (s.retire py source identifier now flushedAt).db.sourceMediaRefs.rows) :
    ∃ r₀ ∈ s.db.sourceMediaRefs.rows, r.id = r₀.id ∧ r.sourceId = r₀.sourceId ∧
    (r₀.sourceId ≠ source → r = r₀) ∧
      (r₀.sourceId = source → r.externalId = retiredIdentity py "media" r₀.id r₀.externalId ∧
        r.available = false ∧
        r.unavailableSince = some now) := by
  rw [sourceMediaRefs_retire, Table.mem_update] at hr
  obtain ⟨r₀, hr₀, rfl⟩ := hr
  refine ⟨r₀, hr₀, ?_⟩
  split
  next hp =>
    simp only [Bool.and_eq_true, beq_iff_eq] at hp
    exact ⟨rfl, rfl, fun hne => absurd hp.1 hne, fun _ => ⟨rfl, rfl, rfl⟩⟩
  next hp =>
    refine ⟨rfl, rfl, fun _ => rfl, fun hs => ?_⟩
    have hsame : retireReference py now r₀ = r₀ := by simpa [hs] using hp
    exact ⟨congrArg SourceMediaRef.externalId hsame.symm,
      congrArg SourceMediaRef.available hsame.symm,
      congrArg SourceMediaRef.unavailableSince hsame.symm⟩

theorem mem_libraries_retire {l : Library}
    (hl : l ∈ (s.retire py source identifier now flushedAt).db.libraries.rows) :
    ∃ l₀ ∈ s.db.libraries.rows, l.id = l₀.id ∧ l.sourceId = l₀.sourceId ∧
    (l₀.sourceId ≠ source → l = l₀) ∧
      (l₀.sourceId = source → l.externalId = retiredIdentity py "library" l₀.id l₀.externalId) := by
  rw [libraries_retire, Table.mem_update] at hl
  obtain ⟨l₀, hl₀, rfl⟩ := hl
  refine ⟨l₀, hl₀, ?_⟩
  split
  next hp =>
    rw [beq_iff_eq] at hp
    exact ⟨rfl, rfl, fun hne => absurd hp hne, fun _ => rfl⟩
  next hp =>
    rw [beq_iff_eq] at hp
    exact ⟨rfl, rfl, fun _ => rfl, fun hs => absurd hs hp⟩

/-- Retired ids name their rows, so no two are equal. -/
theorem uniqueIds_retire (h : s.db.UniqueIds) :
    (s.retire py source identifier now flushedAt).db.UniqueIds where
  references r hr r' hr' hsource hid := by
    obtain ⟨r₀, hr₀, hrid, hrs, hother, hown⟩ := mem_references_retire hr
    obtain ⟨r₀', hr₀', hrid', hrs', hother', hown'⟩ := mem_references_retire hr'
    rw [hrid, hrid']
    by_cases hs : r₀.sourceId = source
    · have hs' : r₀'.sourceId = source := by omega
      rw [(hown hs).1, (hown' hs').1] at hid
      exact retiredIdentity_inj hid
    · have hs' : r₀'.sourceId ≠ source := by omega
      rw [hother hs, hother' hs'] at hid
      exact h.references r₀ hr₀ r₀' hr₀' (by omega) hid
  libraries l hl l' hl' hsource hid := by
    obtain ⟨l₀, hl₀, hlid, hls, hother, hown⟩ := mem_libraries_retire hl
    obtain ⟨l₀', hl₀', hlid', hls', hother', hown'⟩ := mem_libraries_retire hl'
    rw [hlid, hlid']
    by_cases hs : l₀.sourceId = source
    · have hs' : l₀'.sourceId = source := by omega
      rw [hown hs, hown' hs'] at hid
      exact retiredIdentity_inj hid
    · have hs' : l₀'.sourceId ≠ source := by omega
      rw [hother hs, hother' hs'] at hid
      exact h.libraries l₀ hl₀ l₀' hl₀' (by omega) hid

theorem Proper.retire (h : s.Proper py) :
    (s.retire py source identifier now flushedAt).Proper py where
  toUniqueIds := uniqueIds_retire h.toUniqueIds
  referenceIds r hr := by
    obtain ⟨r₀, hr₀, hrid, -, hother, hown⟩ := mem_references_retire hr
    by_cases hs : r₀.sourceId = source
    · rw [hrid]
      exact .inr ⟨_, (hown hs).1⟩
    · rw [hother hs]
      exact h.referenceIds r₀ hr₀
  libraryIds l hl := by
    obtain ⟨l₀, hl₀, hlid, -, hother, hown⟩ := mem_libraries_retire hl
    by_cases hs : l₀.sourceId = source
    · rw [hlid]
      exact .inr ⟨_, hown hs⟩
    · rw [hother hs]
      exact h.libraryIds l₀ hl₀
  queue t ht := by
    rw [asyncTasks_retire] at ht
    exact h.queue t (Table.mem_delete.1 ht).1

theorem retired_retire (h : s.Proper py) :
    (s.retire py source identifier now flushedAt).Retired source where
  references r hr hs := by
    obtain ⟨r₀, -, -, hrs, -, hown⟩ := mem_references_retire hr
    rw [(hown (hrs.symm.trans hs)).1]
    exact not_serverId_retired
  libraries l hl hs := by
    obtain ⟨l₀, -, -, hls, -, hown⟩ := mem_libraries_retire hl
    rw [hown (hls.symm.trans hs)]
    exact not_serverId_retired
  tasks t ht := by
    rw [asyncTasks_retire] at ht
    obtain ⟨ht, hother⟩ := Table.mem_delete.1 ht
    have hne : t.payload.sourceId ≠ source := by simpa using hother
    refine ⟨hne, fun u hu => ?_⟩
    rw [h.queue t ht u hu]
    exact hne

theorem othersKept_retire : OthersKept source s (s.retire py source identifier now flushedAt) where
  references := by
    rw [sourceMediaRefs_retire]
    exact Table.filter_update fun r _ hp => by
      rw [Bool.and_eq_true, beq_iff_eq] at hp
      simp [retireReference, hp.1]
  libraries := by
    rw [libraries_retire]
    exact Table.filter_update fun l _ hp => by
      rw [beq_iff_eq] at hp
      simp [retireLibrary, hp]
  states := by
    rw [watchStates_retire]
    exact Table.filter_delete fun r _ hp => by simpa using hp
  webhooks := by
    rw [webhookEvents_retire]
    exact Table.filter_delete fun r _ hp => by simpa using hp
  images := by
    rw [mediaImages_retire]
    exact Table.filter_delete fun r _ hp => by simpa using hp
  tasks := by
    rw [asyncTasks_retire]
    exact Table.filter_delete fun r _ hp => by simpa using hp
  checkpoints := Table.filter_delete fun c _ hp => by simpa using hp
  identifiers other hne := Function.update_of_ne hne _ _
  rest :=
    have hframe : ∀ (d : Database) libraries webhooks images tasks settings,
        Frame [.libraries, .webhookEvents, .mediaImages, .asyncTasks, .settings] d { d with
          libraries := libraries
          webhookEvents := webhooks
          mediaImages := images
          asyncTasks := tasks
          settings := settings } := fun d _ _ _ _ _ name hname => by
      cases name <;> first | rfl | exact absurd (by decide) hname
    ((retireReferences_frame s.db).mono (by decide)).trans ((hframe _ _ _ _ _ _).mono (by decide))

end Retire

/-- What a call of `apply_server_identity` does. -/
inductive Identified (py : PyLib) (source : Nat) (serverIdentifier : Option String)
    (now flushedAt : Time) (s : ServerRows) :
    ServerRows → Bool → Prop
  | known (identifiers : Nat → Option String)
      (hcase : py.strip (serverIdentifier.getD "") = "" ∨ s.serverIdentifier source = none ∨
        s.serverIdentifier source = some (py.strip (serverIdentifier.getD "")))
      (hother : ∀ other, other ≠ source → identifiers other = s.serverIdentifier other) :
      Identified py source serverIdentifier now flushedAt
        s { s with serverIdentifier := identifiers } false
  | replaced (old : String) (hold : s.serverIdentifier source = some old)
    (hne : old ≠ py.strip (serverIdentifier.getD ""))
      (hnonempty : py.strip (serverIdentifier.getD "") ≠ "") :
      Identified py source serverIdentifier now flushedAt s
        (s.retire py source (py.strip (serverIdentifier.getD "")) now flushedAt) true

/-- No constraint refuses the call. -/
theorem applyServerIdentity_eq (h : s.db.UniqueIds) :
    ∃ after changed, s.applyServerIdentity py source serverIdentifier now flushedAt =
      some (after, changed) ∧
      Identified py source serverIdentifier now flushedAt s after changed := by
  unfold applyServerIdentity
  dsimp only
  by_cases hsame : py.strip (serverIdentifier.getD "") = "" ∨
      s.serverIdentifier source = some (py.strip (serverIdentifier.getD ""))
  · rw [if_pos hsame]
    exact ⟨s, false, rfl, .known s.serverIdentifier (hsame.imp_right .inr) fun _ _ => rfl⟩
  · rw [if_neg hsame]
    rcases hstored : s.serverIdentifier source with - | old
    · rw [if_pos rfl]
      exact ⟨_, false, rfl, .known _ (.inr (.inl hstored)) fun other hne =>
        Function.update_of_ne hne _ _⟩
    · rw [if_neg (by simp), if_pos (uniqueIds_retire h)]
      refine ⟨_, true, rfl, .replaced old hstored ?_ fun hempty => hsame (.inl hempty)⟩
      rintro rfl
      exact hsame (.inr hstored)

theorem StayRetired.refl (s : ServerRows) : s.StayRetired s :=
  ⟨fun r hr hid => ⟨r, hr, rfl, hid⟩, fun l hl hid => ⟨l, hl, rfl, hid⟩⟩

theorem StayRetired.trans {s' s'' : ServerRows} (h : s.StayRetired s') (h' : s'.StayRetired s'') :
    s.StayRetired s'' where
  references r hr hid := by
    obtain ⟨r', hr', hrid, hid'⟩ := h.references r hr hid
    obtain ⟨r'', hr'', hrid', hid''⟩ := h'.references r' hr' hid'
    exact ⟨r'', hr'', hrid'.trans hrid, hid''⟩
  libraries l hl hid := by
    obtain ⟨l', hl', hlid, hid'⟩ := h.libraries l hl hid
    obtain ⟨l'', hl'', hlid', hid''⟩ := h'.libraries l' hl' hid'
    exact ⟨l'', hl'', hlid'.trans hlid, hid''⟩

theorem stayRetired_retire : s.StayRetired (s.retire py source identifier now flushedAt) where
  references r hr hid := by
    rw [sourceMediaRefs_retire]
    refine ⟨_, Table.mem_update.2 ⟨r, hr, rfl⟩, ?_⟩
    split
    · exact ⟨rfl, not_serverId_retired⟩
    · exact ⟨rfl, hid⟩
  libraries l hl hid := by
    rw [libraries_retire]
    refine ⟨_, Table.mem_update.2 ⟨l, hl, rfl⟩, ?_⟩
    split
    · exact ⟨rfl, not_serverId_retired⟩
    · exact ⟨rfl, hid⟩

section Identify
variable {after : ServerRows} {changed : Bool}
  (hid : Identified py source serverIdentifier now flushedAt s after changed)
include hid

theorem Identified.proper (h : s.Proper py) : after.Proper py := by
  cases hid with
  | known => exact ⟨h.toUniqueIds, h.referenceIds, h.libraryIds, h.queue⟩
  | replaced => exact h.retire

theorem Identified.stayRetired : s.StayRetired after := by
  cases hid with
  | known identifiers => exact ⟨(StayRetired.refl s).references, (StayRetired.refl s).libraries⟩
  | replaced => exact stayRetired_retire

theorem Identified.othersKept : OthersKept source s after := by
  cases hid with
  | known identifiers hcase hother => exact { OthersKept.refl source s with identifiers := hother }
  | replaced => exact othersKept_retire

theorem Identified.retired (h : s.Proper py) (hchanged : changed = true) :
    after.Retired source := by
  cases hid with
  | known => cases hchanged
  | replaced => exact retired_retire h

theorem Identified.changed_iff : changed = true ↔
    py.strip (serverIdentifier.getD "") ≠ "" ∧ ∃ old, s.serverIdentifier source = some old ∧
    old ≠ py.strip (serverIdentifier.getD "") := by
  cases hid with
  | known identifiers hcase =>
    refine iff_of_false (by simp) ?_
    rintro ⟨hne, old, hold, hdiff⟩
    rcases hcase with h | h | h
    · exact hne h
    · rw [h] at hold
      cases hold
    · rw [h] at hold
      exact hdiff (Option.some.inj hold).symm
  | replaced old hold hne hnonempty => exact iff_of_true rfl ⟨hnonempty, old, hold, hne⟩

theorem Identified.unchanged (hchanged : changed = false) :
    after.db = s.db ∧ after.checkpoints = s.checkpoints := by
  cases hid with
  | known => exact ⟨rfl, rfl⟩
  | replaced => cases hchanged

end Identify

/-! ### Discovered libraries and references -/

section Upsert
variable {found : String × LibraryMediaType}

/-- A library with a new id and an id of a server that no library of its source has. -/
theorem Proper.insertLibrary (h : s.Proper py) {l : Library} (hid : ServerId l.externalId)
    (hnone : ∀ l' ∈ s.db.libraries.rows, l'.sourceId = l.sourceId → l'.externalId ≠ l.externalId) :
    ServerRows.Proper py { s with db := { s.db with libraries := s.db.libraries.insert l } } where
  references := h.references
  libraries a ha b hb hsource heq := by
    rcases Table.mem_insert ha with ha' | rfl <;> rcases Table.mem_insert hb with hb' | rfl
    · exact h.libraries a ha' b hb' hsource heq
    · exact absurd heq (hnone a ha' hsource)
    · exact absurd heq.symm (hnone b hb' hsource.symm)
    · rfl
  referenceIds := h.referenceIds
  libraryIds a ha := by
    rcases Table.mem_insert ha with ha | rfl
    · exact h.libraryIds a ha
    · exact .inl hid
  queue := h.queue

/-- An update of libraries that keeps their ids. -/
theorem Proper.updateLibraries (h : s.Proper py) (p : Library → Bool) {f : Assignment Library.id}
    (hf : ∀ l, (f l).sourceId = l.sourceId ∧ (f l).externalId = l.externalId) :
    ServerRows.Proper py { s with db := { s.db with libraries := s.db.libraries.update p f } } ∧
      s.StayRetired { s with db := { s.db with libraries := s.db.libraries.update p f } } := by
  have hrow : ∀ l ∈ (s.db.libraries.update p f).rows, ∃ l₀ ∈ s.db.libraries.rows, l.id = l₀.id ∧
      l.sourceId = l₀.sourceId ∧
      l.externalId = l₀.externalId := by
    intro l hl
    obtain ⟨l₀, hl₀, rfl⟩ := Table.mem_update.1 hl
    refine ⟨l₀, hl₀, ?_⟩
    split
    · exact ⟨f.key_apply l₀, hf l₀⟩
    · exact ⟨rfl, rfl, rfl⟩
  refine ⟨⟨⟨h.references, ?_⟩, h.referenceIds, ?_, h.queue⟩, fun r hr hid => ⟨r, hr, rfl, hid⟩, ?_⟩
  · intro a ha b hb hsource heq
    obtain ⟨a₀, ha₀, haid, has, haeq⟩ := hrow a ha
    obtain ⟨b₀, hb₀, hbid, hbs, hbeq⟩ := hrow b hb
    rw [haid, hbid]
    exact h.libraries a₀ ha₀ b₀ hb₀ (by omega) (by rw [← haeq, ← hbeq, heq])
  · intro l hl
    obtain ⟨l₀, hl₀, hid, -, heq⟩ := hrow l hl
    rw [hid, heq]
    exact h.libraryIds l₀ hl₀
  · intro l hl hid
    refine ⟨_, Table.mem_update.2 ⟨l, hl, rfl⟩, ?_⟩
    split
    · exact ⟨f.key_apply l, by rwa [(hf l).2]⟩
    · exact ⟨rfl, hid⟩

theorem proper_upsertLibrary (h : s.Proper py) (hfound : ServerId found.1) :
    ServerRows.Proper py { s with db := upsertLibrary source s.db found } ∧
      s.StayRetired { s with db := upsertLibrary source s.db found } := by
  unfold upsertLibrary
  rcases hlib : s.db.libraries.rows.find? (fun l => l.sourceId == source && l.externalId == found.1)
    with - | library <;>
    simp only [hlib]
  · refine ⟨h.insertLibrary hfound ?_, fun r hr hid => ⟨r, hr, rfl, hid⟩,
      fun l hl hid => ⟨l, Table.mem_insert_of_mem hl, rfl, hid⟩⟩
    intro l hl hsource heq
    have := List.find?_eq_none.1 hlib l hl
    simp only [Bool.and_eq_true, beq_iff_eq] at this
    exact this ⟨hsource, heq⟩
  · exact h.updateLibraries _ fun l => ⟨rfl, rfl⟩

theorem proper_upserted (h : s.Proper py) (libraries : List (String × LibraryMediaType))
    (hfound : ∀ f ∈ libraries, ServerId f.1) :
    ServerRows.Proper py { s with db := libraries.foldl (upsertLibrary source) s.db } ∧
      s.StayRetired { s with db := libraries.foldl (upsertLibrary source) s.db } := by
  induction libraries generalizing s with
  | nil => exact ⟨h, .refl s⟩
  | cons f libraries ih =>
    obtain ⟨hproper, hstay⟩ := @proper_upsertLibrary py s source f h (hfound f List.mem_cons_self)
    obtain ⟨hproper', hstay'⟩ := ih hproper fun f' hf' => hfound f' (List.mem_cons_of_mem _ hf')
    exact ⟨hproper', hstay.trans hstay'⟩

theorem proper_discover (h : s.Proper py) {libraries : List (String × LibraryMediaType)}
    (hfound : ∀ f ∈ libraries, ServerId f.1) :
    ∃ after, s.discover py source serverIdentifier libraries now flushedAt = some after ∧
    after.Proper py ∧ s.StayRetired after := by
  obtain ⟨after, changed, hcall, hid⟩ :=
    @applyServerIdentity_eq py s source serverIdentifier now flushedAt h.toUniqueIds
  obtain ⟨hproper, hstay⟩ := @proper_upserted py after source (hid.proper h) libraries hfound
  have hupdate := hproper.updateLibraries (fun l => l.sourceId == source &&
    !(libraries.map Prod.fst).contains l.externalId)
    (@fun l =>
      ⟨rfl, rfl⟩ : ∀ l, ((⟨fun l => { l with available := false }, fun _ => rfl⟩ :
        Assignment Library.id) l).sourceId = l.sourceId ∧ _)
  refine ⟨_, by rw [discover, hcall]; rfl, hupdate.1, (hid.stayRetired.trans hstay).trans hupdate.2⟩

/-- A reference that a listing adds: its id is one of a server, and no row of the source has it. -/
theorem proper_insertSourceMediaRef (h : s.Proper py) {r : SourceMediaRef}
    (hid : ServerId r.externalId)
    (hnone : ∀ r' ∈ s.db.sourceMediaRefs.rows, r'.sourceId = r.sourceId →
      r'.externalId ≠ r.externalId) :
    ServerRows.Proper py { s with db := s.db.insertSourceMediaRef r } ∧
    s.StayRetired { s with db := s.db.insertSourceMediaRef r } := by
  have hlibraries : (s.db.insertSourceMediaRef r).libraries = s.db.libraries :=
    insertSourceMediaRef_frame r .libraries (by decide)
  have htasks : (s.db.insertSourceMediaRef r).asyncTasks = s.db.asyncTasks :=
    insertSourceMediaRef_frame r .asyncTasks (by decide)
  refine ⟨⟨⟨?_, ?_⟩, ?_, ?_, ?_⟩, ?_, ?_⟩ <;> dsimp only <;>
    simp only [hlibraries, htasks, sourceMediaRefs_insertSourceMediaRef]
  · intro a ha b hb hsource heq
    rcases Table.mem_insert ha with ha' | rfl <;> rcases Table.mem_insert hb with hb' | rfl
    · exact h.references a ha' b hb' hsource heq
    · exact absurd heq (hnone a ha' hsource)
    · exact absurd heq.symm (hnone b hb' hsource.symm)
    · rfl
  · exact h.libraries
  · intro a ha
    rcases Table.mem_insert ha with ha | rfl
    · exact h.referenceIds a ha
    · exact .inl hid
  · exact h.libraryIds
  · exact h.queue
  · exact fun a ha hid => ⟨a, Table.mem_insert_of_mem ha, rfl, hid⟩
  · exact fun l hl hid => ⟨l, hl, rfl, hid⟩

end Upsert

/-- A call that opens or changes rows of the sources, with what the server answers. -/
inductive ServerCall
  | identify (source : Nat) (serverIdentifier : Option String) (now flushedAt : Time)
  | discover (source : Nat) (serverIdentifier : Option String)
    (found : List (String × LibraryMediaType)) (now flushedAt : Time)
  /-- A listed item or container that has no reference yet. -/
  | reference (r : SourceMediaRef)
  /-- The workers and the other clients write the queue. -/
  | queue (tasks : Table AsyncTask.id)

namespace ServerCall

/-- The transaction of the call; a refused one is rolled back. -/
def step (py : PyLib) (s : ServerRows) : ServerCall → ServerRows
  | identify source serverIdentifier now flushedAt =>
    ((s.applyServerIdentity py source serverIdentifier now flushedAt).map Prod.fst).getD s
  | discover source serverIdentifier found now flushedAt =>
    (s.discover py source serverIdentifier found now flushedAt).getD s
  | reference r =>
    if s.db.sourceMediaRefs.rows.any fun r' => r'.sourceId == r.sourceId &&
      r'.externalId == r.externalId then s
    else { s with db := s.db.insertSourceMediaRef { r with id := s.db.sourceMediaRefs.nextId } }
  | queue tasks => { s with db := { s.db with asyncTasks := tasks } }

/-- The ids of the answer are those of a server; an update that waits is for the row's own
source. -/
def FromServer : ServerCall → Prop
  | identify .. => True
  | discover _ _ found _ _ => ∀ f ∈ found, ServerId f.1
  | reference r => ServerId r.externalId
  | queue tasks =>
    ∀ t ∈ tasks.rows, ∀ u, t.pendingPayload = some u → u.sourceId = t.payload.sourceId

theorem proper_step (h : s.Proper py) {call : ServerCall} (hcall : call.FromServer) :
    (call.step py s).Proper py ∧ s.StayRetired (call.step py s) := by
  cases call with
  | identify source serverIdentifier now flushedAt =>
    obtain ⟨after, changed, heq, hid⟩ :=
      @applyServerIdentity_eq py s source serverIdentifier now flushedAt h.toUniqueIds
    rw [step, heq]
    exact ⟨hid.proper h, hid.stayRetired⟩
  | discover source serverIdentifier found now flushedAt =>
    obtain ⟨after, heq, hproper, hstay⟩ :=
      @proper_discover py s source serverIdentifier now flushedAt h found hcall
    rw [step, heq]
    exact ⟨hproper, hstay⟩
  | reference r =>
    dsimp only [step]
    split
    · exact ⟨h, .refl s⟩
    next hnone =>
      refine @proper_insertSourceMediaRef py s
        h { r with id := s.db.sourceMediaRefs.nextId } hcall ?_
      intro r' hr' hsource heq
      have hany : ∃ r' ∈ s.db.sourceMediaRefs.rows,
          (r'.sourceId == r.sourceId && r'.externalId == r.externalId) = true :=
        ⟨r', hr', by simpa using ⟨hsource, heq⟩⟩
      exact hnone (List.any_eq_true.2 hany)
  | queue tasks =>
    exact ⟨⟨⟨h.references, h.libraries⟩, h.referenceIds, h.libraryIds, hcall⟩,
      (StayRetired.refl s).references,
      (StayRetired.refl s).libraries⟩

theorem proper_run (h : s.Proper py) {calls : List ServerCall}
    (hcalls : ∀ call ∈ calls, call.FromServer) :
    (calls.foldl (step py) s).Proper py ∧ s.StayRetired (calls.foldl (step py) s) := by
  induction calls generalizing s with
  | nil => exact ⟨h, .refl s⟩
  | cons call calls ih =>
    obtain ⟨hproper, hstay⟩ := proper_step h (hcalls call List.mem_cons_self)
    obtain ⟨hproper', hstay'⟩ := ih hproper fun c hc => hcalls c (List.mem_cons_of_mem _ hc)
    exact ⟨hproper', hstay.trans hstay'⟩

end ServerCall

/-- After any run of calls the ids are unique and the retired rows have no id of a server. The next
call of `apply_server_identity` ends, keeps the ids unique and the rows of the other sources as they
are, and exactly a second known identity retires the rows of the source; any other identity changes
at most what is stored of it. -/
theorem server_retirement (h : s.Proper py) (calls : List ServerCall)
    (hcalls : ∀ call ∈ calls, call.FromServer) (source : Nat)
    (serverIdentifier : Option String) (now flushedAt : Time) :
    let current := calls.foldl (ServerCall.step py) s
    let identifier := py.strip (serverIdentifier.getD "")
    current.db.UniqueIds ∧ s.StayRetired current ∧
      ∃ after changed, current.applyServerIdentity py source serverIdentifier now flushedAt =
        some (after, changed) ∧
        after.db.UniqueIds ∧ current.StayRetired after ∧ OthersKept source current after ∧
        (changed = true ↔ identifier ≠ "" ∧ ∃ old, current.serverIdentifier source = some old ∧
          old ≠ identifier) ∧
        (changed = true → after.Retired source) ∧
        (changed = false → after.db = current.db ∧ after.checkpoints = current.checkpoints) := by
  dsimp only
  obtain ⟨hproper, hstay⟩ := ServerCall.proper_run h hcalls
  obtain ⟨after, changed, hcall, hid⟩ :=
    @applyServerIdentity_eq py (calls.foldl (ServerCall.step py) s) source serverIdentifier now
      flushedAt hproper.toUniqueIds
  exact ⟨hproper.toUniqueIds, hstay, after, changed, hcall, (hid.proper hproper).toUniqueIds,
    hid.stayRetired, hid.othersKept,
    hid.changed_iff, hid.retired hproper, hid.unchanged⟩

/-- A reference of a first server, and two replacements. -/
def replacedTwice : ServerRows where
  db := { Database.empty with
    sourceMediaRefs := Table.empty.insert ⟨1, 1, 1, 1, "500", none, none, 0, true, none, none, 0⟩ }
  serverIdentifier source := if source = 1 then some "first" else none
  checkpoints := .empty

theorem server_retirement_twice :
    let calls := [ServerCall.identify 1 (some "second") 10 10]
    let current := calls.foldl (ServerCall.step .plain) replacedTwice
    current.db.UniqueIds ∧ replacedTwice.StayRetired current ∧
      ∃ after changed, current.applyServerIdentity .plain 1 (some "third") 20 20 =
        some (after, changed) ∧
        after.db.UniqueIds ∧ current.StayRetired after ∧ OthersKept 1 current after ∧
        (changed = true ↔ PyLib.plain.strip "third" ≠ "" ∧
          ∃ old, current.serverIdentifier 1 = some old ∧ old ≠ PyLib.plain.strip "third") ∧
        (changed = true → after.Retired 1) ∧
        (changed = false → after.db = current.db ∧ after.checkpoints = current.checkpoints) := by
  have hrows : replacedTwice.db.sourceMediaRefs.rows =
      [⟨1, 1, 1, 1, "500", none, none, 0, true, none, none, 0⟩] := rfl
  refine @server_retirement .plain replacedTwice ⟨⟨?_, ?_⟩, ?_, ?_, ?_⟩ _ ?_ 1 (some "third") 20 20
  · intro r hr r' hr' _ _
    rw [hrows, List.mem_singleton] at hr hr'
    rw [hr, hr']
  · intro l hl
    cases hl
  · intro r hr
    rw [hrows, List.mem_singleton] at hr
    rw [hr]
    exact .inl (by decide)
  · intro l hl
    cases hl
  · intro t ht
    cases ht
  · simp [ServerCall.FromServer]

end ServerRows

end Euvieouvi
