import Euvieouvi.Reconcile.EmbeddedIdentifiers
import Euvieouvi.Reconcile.Merge

/-!
# Entry points of the reconciliation

`reconcile_catalog`, `reconcile_matching_items`, `reconcile_physical_item` and
`merge_confirmed_items` (`sync/catalog_reconcile.py`). They differ in where their groups come from:
shared identifiers, shared files, the identifiers of one incoming item, or a person. Each checks a
group once and then merges its members one after the other.
-/

namespace Euvieouvi

namespace Database

/-- The kinds `_duplicate_groups` looks at. -/
def isMergeKind : MediaKind → Bool
  | .show | .movie | .artist | .album | .track => true
  | .season | .episode => false

/-- The rows of `_duplicate_groups`: the items of one kind that share one stable identifier. -/
def identifierRows (db : Database) : List (List Nat) :=
  let identified := db.mediaIdentifiers.rows.filterMap fun r =>
    (db.mediaItems.get? r.mediaItemId).bind fun m =>
      if stableProviders.contains r.provider &&
        isMergeKind m.kind then some ((r.provider, r.externalId, m.kind), m.id)
      else none
  ((groupBy Prod.fst identified).map fun group => (group.2.map Prod.snd).eraseDups).filter
    (1 < ·.length)

/-- `root = find(ids[0])`, and every other root of the row is hung below it. -/
def joinRow (u : UnionFind Nat) : List Nat → UnionFind Nat
  | [] => u
  | first :: rest =>
    let (root, u) := u.find first
    rest.foldl
      (fun u i => let (other, u) := u.find i; if root ≠ other then u.link other root else u) u

/-- `_duplicate_groups`. -/
def duplicateGroups (db : Database) : List (List Nat) :=
  let rows := db.identifierRows
  let u := rows.foldl joinRow .singletons
  let members := rows.flatten.eraseDups
  ((groupBy (fun i => (u.find i).1) members).map fun group => group.2.insertionSort (· ≤ ·)).filter
    (1 < ·.length)

/-- What a file counts for: the show above its episode, or its item. -/
def physicalOwner (db : Database) (m : MediaItem) : Option Nat :=
  if m.kind = .episode then
    (m.parentId.bind db.mediaItems.get?).bind fun season =>
      if season.kind = .season then season.parentId else none
  else some m.id

structure PhysicalRow where
  pathKey : String
  kind : MediaKind
  seasonNumber : Option Nat
  episodeNumber : Option Nat
deriving DecidableEq

/-- The available files of enabled sources, each with its coordinates, its source and its owner. -/
def physicalRows (db : Database) (only : Option Nat) : List (PhysicalRow × Nat × Option Nat) :=
  db.mediaFilePaths.rows.filterMap fun f =>
    (db.sourceMediaRefs.get? f.referenceId).bind fun r =>
      (db.sources.get? r.sourceId).bind fun source =>
        (db.mediaItems.get? r.mediaItemId).bind fun m =>
          let known := only.all fun i => db.mediaFilePaths.rows.any fun pf =>
            pf.pathKey == f.pathKey &&
            (db.sourceMediaRefs.get? pf.referenceId).any (·.mediaItemId == i)
          if r.available && source.enabled &&
            (m.kind = .movie || m.kind = .episode || m.kind = .track) && known then
            some (⟨f.pathKey, m.kind, m.seasonNumber, m.episodeNumber⟩, r.sourceId,
              db.physicalOwner m)
          else none

/-- Smaller lists first, element by element. -/
def lexLe : List Nat → List Nat → Bool
  | [], _ => true
  | _ :: _, [] => false
  | a :: l, b :: l' => if a = b then lexLe l l' else a < b

/-- `_physical_groups`. -/
def physicalGroups (db : Database) (only : Option Nat := none) : List (List Nat) :=
  let grouped := (groupBy Prod.fst (db.physicalRows only)).map Prod.snd
  let owners (rows : List (PhysicalRow × Nat × Option Nat)) : List Nat :=
    (rows.filterMap (·.2.2)).eraseDups
  let shared := grouped.filter fun rows =>
    1 < (rows.map (·.2.1)).eraseDups.length && 1 < (owners rows).length
  ((shared.map fun rows => (owners rows).insertionSort (· ≤ ·)).eraseDups).insertionSort fun a b =>
    lexLe a b = true

/-- The members of a group that still exist. -/
def live (db : Database) (ids : List Nat) : List Nat := ids.filter db.mediaItems.contains

/-- One group of `reconcile_catalog` or `reconcile_physical_item`; `none` when it is skipped. -/
def mergeGroup (now : Time) (ids : List Nat) (physical : Bool) (db : Database) :
    Option (Database × List MergeStep) :=
  let items := db.live ids
  if items.length < 2 ∨ !db.safeSources items physical then none
  else some (db.mergeDuplicates now (db.canonical items) items)

/-- One group of `reconcile_physical_item`. -/
def reconcilePhysicalGroup (now : Time) (acc : Database × List MergeStep) (ids : List Nat) :
    Database × List MergeStep :=
  match acc.1.mergeGroup now ids true with
  | some (db, log) => (db, acc.2 ++ log)
  | none => acc

/-- `reconcile_physical_item`. -/
def reconcilePhysicalItem (now : Time) (item : Nat) (db : Database) : Database × List MergeStep :=
  let (merged, log) := (db.physicalGroups (some item)).foldl (reconcilePhysicalGroup now) (db, [])
  if log = [] then (merged, log) else (merged.markProjectionStale, log)

/-- `reconcile_matching_items`. -/
def reconcileMatchingItems (now : Time) (kind : MediaKind) (identifiers : List ExternalIdentifier)
    (preferred : Option Nat) (db : Database) : Database × List MergeStep :=
  let stable := identifiers.filter fun i => stableProviders.contains i.provider && i.externalId ≠ ""
  if stable = [] then (db, [])
  else
    let ids := ((db.mediaIdentifiers.rows.filter fun r => (db.identityRows.kindOf r.mediaItemId) =
      some kind &&
      stable.contains ⟨r.provider, r.externalId⟩).map (·.mediaItemId)).eraseDups
    let items := db.live ids
    if items.length < 2 ∨ !db.safeSources items then (db, [])
    else
      let canonical := (preferred.filter items.contains).getD (db.canonical items)
      let (merged, log) := db.mergeDuplicates now canonical items
      if log = [] then (merged, log) else (merged.markProjectionStale, log)

inductive MergeError
  | missing
  | differentKinds
  | unsafeSources
deriving DecidableEq, Repr

def MergeError.text : MergeError → String
  | .missing => "Confirmed merge items are missing."
  | .differentKinds => "Confirmed merge items must have the same media kind."
  | .unsafeSources => "Confirmed merge items have overlapping or missing source ownership."

/-- `merge_confirmed_items`. -/
def mergeConfirmedItems (now : Time) (ids : List Nat) (db : Database) :
    Except MergeError (Database × List MergeStep) :=
  let items := db.live ids
  if items.length ≠ ids.length ∨ items.length < 2 then .error .missing
  else if (items.map db.identityRows.kindOf).eraseDups.length ≠ 1 then .error .differentKinds
  else if !db.safeSources items then .error .unsafeSources
  else
    let (merged, log) := db.mergeDuplicates now (db.canonical items) items
    .ok (if log = [] then merged else merged.markProjectionStale, log)

/-! ### The whole catalog -/

structure Recovery where
  db : Database
  embeddedItems : Nat := 0
  recovered : Nat := 0
  normalized : Nat := 0
  conflicts : Nat := 0

/-- `text.ilike("%part%")`. -/
def ilike (part : List Char) (text : String) : Bool :=
  let rec occurs : List Char → Bool
    | [] => part.isEmpty
    | c :: rest => part.isPrefixOf (c :: rest) || occurs rest
  occurs (text.toList.map Char.toLower)

/-- One item of `_recover_embedded_identifiers`. -/
def recoverItem (py : PyLib) (now : Time) (s : Recovery) (item : MediaItem) : Option Recovery :=
  (parseEmbeddedIdentifiers py item.title).map fun metadata =>
    if metadata.identifiers = [] then s
    else
      let existing : List MediaIdentifier := s.db.mediaIdentifiers.rows.filter fun r =>
        r.mediaItemId == item.id && stableProviders.contains r.provider
      let missing : List ExternalIdentifier := metadata.identifiers.filter fun i =>
        !existing.any fun r => r.provider == i.provider && r.externalId == i.externalId
      if missing ≠ [] ∧ existing ≠ [] then
        { s with embeddedItems := s.embeddedItems + 1, conflicts := s.conflicts + 1 }
      else
        let titled :=
          s.db.saveMediaItem now item.id ⟨fun m => { m with title := metadata.title }, fun _ => rfl⟩
        { db := missing.foldl (fun db i => db.insertMediaIdentifier
            ⟨db.mediaIdentifiers.nextId, item.id, i.provider, i.externalId, now⟩) titled
          embeddedItems := s.embeddedItems + 1
          recovered := s.recovered + missing.length
          normalized := if metadata.title ≠ item.title then s.normalized + 1 else s.normalized
          conflicts := s.conflicts }

/-- `_recover_embedded_identifiers`; `none` when the parser raises. -/
def recoverEmbeddedIdentifiers (py : PyLib) (now : Time) (db : Database) : Option Recovery :=
  let items := db.mediaItems.rows.filter fun m => (m.kind = .movie || m.kind = .show) &&
    (ilike ['t', 'm', 'd', 'b'] m.title || ilike ['t', 'v', 'd', 'b'] m.title ||
      ilike ['i', 'm', 'd', 'b'] m.title)
  items.foldlM (recoverItem py now) { db := db }

structure ReconcileResult where
  groupsFound : Nat
  itemsMerged : Nat
  hierarchyMerged : Nat
  skipped : Nat
  identifierless : Nat
  dryRun : Bool
  embeddedItems : Nat
  identifiersRecovered : Nat
  titlesNormalized : Nat
  identifierConflicts : Nat
deriving DecidableEq, Repr

/-- The state of the loop of `reconcile_catalog`. -/
structure ReconcileLoop where
  db : Database
  merged : Nat := 0
  hierarchy : Nat := 0
  skipped : Nat := 0
  log : List MergeStep := []

def reconcileGroup (now : Time) (s : ReconcileLoop) (group : List Nat × Bool) : ReconcileLoop :=
  let items := s.db.live group.1
  if items.length < 2 then s
  else match s.db.mergeGroup now group.1 group.2 with
    | none => { s with skipped := s.skipped + 1 }
    | some (db, log) =>
      let merged := (items.filter (· ≠ s.db.canonical items)).length
      { db := db
        merged := s.merged + merged
        hierarchy := s.hierarchy + (log.length - merged)
        skipped := s.skipped
        log := s.log ++ log }

def identifierless (db : Database) : Nat :=
  db.mediaItems.rows.countP fun m => isMergeKind m.kind &&
    db.sourceMediaRefs.rows.any (·.mediaItemId == m.id) &&
    !db.mediaIdentifiers.rows.any fun r => r.mediaItemId == m.id &&
      stableProviders.contains r.provider

/-- `reconcile_catalog`; a dry run is rolled back, but its merges are in the log. `none` when the
parser raises, which rolls back too. -/
def reconcileCatalog (py : PyLib) (now : Time) (dryRun : Bool) (db : Database) :
    Option (ReconcileResult × Database × List MergeStep) :=
  (db.recoverEmbeddedIdentifiers py now).map fun recovery =>
    let physical := recovery.db.physicalGroups
    let duplicates := recovery.db.duplicateGroups.filter fun ids => !physical.contains ids
    let groups := physical.map (·, true) ++ duplicates.map (·, false)
    let s := groups.foldl (reconcileGroup now) { db := recovery.db }
    let stale := s.merged ≠ 0 ∨ recovery.recovered ≠ 0 ∨ recovery.normalized ≠ 0
    let result : ReconcileResult :=
      { groupsFound := groups.length
        itemsMerged := s.merged
        hierarchyMerged := s.hierarchy
        skipped := s.skipped
        identifierless := s.db.identifierless
        dryRun := dryRun
        embeddedItems := recovery.embeddedItems
        identifiersRecovered := recovery.recovered
        titlesNormalized := recovery.normalized
        identifierConflicts := recovery.conflicts }
    (result, if dryRun then db else if stale then s.db.markProjectionStale else s.db, s.log)

/-- A call of the reconciliation. -/
inductive ReconcileCall
  | catalog (dryRun : Bool)
  | matching (kind : MediaKind) (identifiers : List ExternalIdentifier) (preferred : Option Nat)
  | physical (item : Nat)
  | confirmed (ids : List Nat)

/-- The merges of a call; one that raises merges nothing. -/
def ReconcileCall.merges (py : PyLib) (now : Time) (db : Database) : ReconcileCall → List MergeStep
  | catalog dryRun => ((db.reconcileCatalog py now dryRun).map (·.2.2)).getD []
  | matching kind identifiers preferred =>
    (db.reconcileMatchingItems now kind identifiers preferred).2
  | physical item => (db.reconcilePhysicalItem now item).2
  | confirmed ids => match db.mergeConfirmedItems now ids with
    | .ok (_, log) => log
    | .error _ => []

end Database

end Euvieouvi
