import Euvieouvi.Persist.Media
import Euvieouvi.Reconcile.Entry

/-!
# Persisting a page

`_persist_media_page` and `_persist_media_with_repair` (`sync/orchestrator.py`): each item of a page
is persisted inside a savepoint. When that raises, items that share its identifiers are merged and
it is tried once more; when it does not, the item is reconciled. The catalog alone is kept here: the
counters of the run, its errors and the checkpoint are not.
-/

namespace Euvieouvi

/-- An item of a page, and what the clock says when it is persisted and when it is tried again. -/
structure PagedItem where
  item : ExternalMediaItem
  observedAt : Time
  retriedAt : Time

/-- What `_persist_media_with_repair` returns. -/
structure PageOutcome where
  result : Option PersistResult
  repaired : Nat
  error : Option PersistError
deriving DecidableEq, Repr

/-- A call of the reconciliation, which returns the number of its merges. -/
def reconciled (call : Database → Database × List MergeStep) : Persist Nat :=
  .access (fun db => ((call db).2.length, (call db).1)) .done

namespace MediaPersistenceService
variable (service : MediaPersistenceService)

/-- `_reconcile_identity_once`. -/
def reconcileIdentityOnce (kind : MediaKind) (identifiers : List ExternalIdentifier) :
    Persist Nat := do
  if identifiers.isEmpty then
    return 0
  else if ← Program.cached (.catalogIdentity kind (sortedIdentifiers identifiers)) then
    return 0
  else
    Program.enter (.catalogIdentity kind (sortedIdentifiers identifiers))
    reconciled (·.reconcileMatchingItems service.now kind identifiers none)

/-- `_reconcile_persisted_item`. -/
def reconcilePersistedItem (item : MediaFields) (includeLeaf : Bool) : Persist Nat := do
  let leaf
    ← (if includeLeaf then service.reconcileIdentityOnce item.kind item.identifiers else pure 0)
  let «show» ← (if item.kind =
    .episode then service.reconcileIdentityOnce .show item.showIdentifiers else pure 0)
  return leaf + «show»

/-- The reconciliation after an item was persisted. -/
def reconcileNow (item : MediaFields) (media : Nat) : Persist Nat := do
  let physical ← (if item.filePaths =
    [] then pure 0 else reconciled (·.reconcilePhysicalItem service.now media))
  let repaired ← service.reconcilePersistedItem item (item.kind = .movie)
  return physical + repaired

/-- An item that was persisted. -/
def reconcileAfter (item : MediaFields) (result : PersistResult) : Persist PageOutcome := do
  match ← Program.attempt (service.reconcileNow item result.mediaItemId) with
  | .ok repaired => return ⟨some result, repaired, none⟩
  | .error _ => return ⟨some result, 0, none⟩

/-- The second try. -/
def retry (x : PagedItem) (repaired : Nat) : Persist PageOutcome := do
  match ← Program.attempt (service.persistMedia x.item x.retriedAt) with
  | .ok result => return ⟨some result, repaired, none⟩
  | .error error => return ⟨none, repaired, some error⟩

/-- An item that raised. -/
def repair (x : PagedItem) (original : PersistError) : Persist PageOutcome := do
  let repaired ← Program.attempt (service.reconcilePersistedItem x.item.toMediaFields true)
  match repaired.toOption.getD 0 with
  | 0 => return ⟨none, 0, some original⟩
  | repaired + 1 => service.retry x (repaired + 1)

/-- `_persist_media_with_repair`. -/
def persistMediaWithRepair (x : PagedItem) : Persist PageOutcome := do
  match ← Program.attempt (service.persistMedia x.item x.observedAt) with
  | .ok result => service.reconcileAfter x.item.toMediaFields result
  | .error original => service.repair x original

/-- `_persist_media_page`. -/
def persistMediaPage : List PagedItem → Persist (List PageOutcome)
  | [] => return []
  | x :: xs => do
    let outcome ← service.persistMediaWithRepair x
    let outcomes ← persistMediaPage xs
    return outcome :: outcomes

end MediaPersistenceService

end Euvieouvi
