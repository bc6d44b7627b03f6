import Euvieouvi.Lib.Grouping
import Euvieouvi.Lib.UnionFind
import Euvieouvi.Python
import Mathlib.Data.List.Sort

/-!
# Canonical groups of the catalog

The identity part of `rebuild_catalog_projection` (`sync/catalog_projection.py`): items of one kind
are joined through stable identifiers, and items without one through their normalized title, parent
and year, unless manual matches, physical files or two references on one source speak against it.
Each group is represented by one of its members. Everything here reads the identity tables only.
-/

namespace Euvieouvi

/-- The tables that decide which items are one catalog entry. -/
structure IdentityRows where
  mediaItems : Table MediaItem.id
  sources : Table Source.id
  sourceMediaRefs : Table SourceMediaRef.id
  mediaFilePaths : Table MediaFilePath.id
  mediaIdentifiers : Table MediaIdentifier.id

def Database.identityRows (db : Database) : IdentityRows :=
  ⟨db.mediaItems, db.sources, db.sourceMediaRefs, db.mediaFilePaths, db.mediaIdentifiers⟩

def projectionVersion : Nat := 4

/-- `_STABLE_PROVIDERS`, in the order of `_PROVIDER_PRIORITY`. -/
def stableProviders : List String := ["tmdb", "tvdb", "imdb", "musicbrainz"]

def isCatalogKind : MediaKind → Bool
  | .season => false
  | _ => true

/-- `_safe_group`: every member has a source, and no available source occurs twice. -/
def safeGroup (members : List Nat) (sourcesOf availableSourcesOf : Nat → List Nat) : Bool :=
  members.length < 2 || go [] members
where
  go : List Nat → List Nat → Bool
    | _, [] => true
    | seen, i :: rest =>
      !(sourcesOf i).isEmpty && (availableSourcesOf i).all (fun s => !seen.contains s) &&
        go (seen ++ availableSourcesOf i) rest

namespace IdentityRows

variable (rows : IdentityRows)

def kindOf (i : Nat) : Option MediaKind := (rows.mediaItems.get? i).map (·.kind)

def parentOf (i : Nat) : Option Nat := (rows.mediaItems.get? i).bind (·.parentId)

/-- `sorted(catalog_ids)`. -/
def catalogIds : List Nat :=
  ((rows.mediaItems.rows.filter fun m => isCatalogKind m.kind).map (·.id)).insertionSort (· ≤ ·)

def sourceIdsOf (i : Nat) : List Nat :=
  ((rows.sourceMediaRefs.rows.filter (·.mediaItemId == i)).map (·.sourceId)).eraseDups

def availableSourcesOf (i : Nat) : List Nat :=
  ((rows.sourceMediaRefs.rows.filter fun r => r.mediaItemId == i && r.available).map
    (·.sourceId)).eraseDups

/-- `paths_by_item`: the keys of the files below available references. -/
def pathsOf (i : Nat) : List String :=
  ((rows.sourceMediaRefs.rows.filter fun r => r.mediaItemId == i && r.available).flatMap fun r =>
    (rows.mediaFilePaths.rows.filter (·.referenceId == r.id)).map (·.pathKey)).eraseDups

def manualMatchOf (i : Nat) : Option String := (rows.mediaItems.get? i).bind (·.manualMatch)

def safeIdentityGroup (members : List Nat) : Bool :=
  let manualIds := (members.filterMap rows.manualMatchOf).eraseDups
  let known := (members.map rows.pathsOf).filter (· ≠ [])
  manualIds.length ≤ 1 && decide (known.Pairwise fun left right => ∃ key ∈ left, key ∈ right) &&
    safeGroup members rows.sourceIdsOf rows.availableSourcesOf

/-- The rows of `media_identifiers` that identify a catalog item. -/
def stableIdentifiers : List MediaIdentifier :=
  rows.mediaIdentifiers.rows.filter fun r =>
    stableProviders.contains r.provider && (rows.kindOf r.mediaItemId).any isCatalogKind

def identifiersOf (i : Nat) : List (String × String) :=
  ((rows.stableIdentifiers.filter (·.mediaItemId == i)).map fun r =>
    (r.provider, r.externalId)).eraseDups

/-- `identity_members.values()`. -/
def identityMembers : List (List Nat) :=
  (groupBy (fun r => (rows.kindOf r.mediaItemId, r.provider, r.externalId))
    rows.stableIdentifiers).map
    fun group => group.2.map (·.mediaItemId)

variable (py : PyLib)

/-- `_fallback_identity`. -/
def fallbackIdentity (i : Nat) : String :=
  match rows.mediaItems.get? i with
  | none => ""
  | some row =>
    let title := py.normalizedTitle row.title
    match row.kind with
    | .episode | .album | .track => s!"parent:{row.parentId.getD 0}\x00{title}"
    | _ => title

def yearOf (i : Nat) : Option Nat := (rows.mediaItems.get? i).bind (·.year)

/-- `fallback_members.values()`: the items without an identifier. -/
def fallbackMembers : List (List Nat) :=
  (groupBy (fun i => (rows.kindOf i, rows.fallbackIdentity py i, rows.yearOf i))
    (rows.catalogIds.filter fun i => rows.identifiersOf i = [])).map Prod.snd

end IdentityRows

/-! ### `_UnionFind` -/

namespace UnionFind
variable {α : Type} [DecidableEq α] [Max α] [Min α]

/-- `_UnionFind.find`: the loop starts at the parent and ends by pointing `value` at the root. -/
def findCompress (u : UnionFind α) (value : α) : α × UnionFind α :=
  let (root, u) := findLoop u.height u (u.parent value)
  (root, u.compress value)

/-- `_UnionFind.join`. -/
def join (u : UnionFind α) (left right : α) : UnionFind α :=
  let (leftRoot, u) := u.findCompress left
  let (rightRoot, u) := u.findCompress right
  if leftRoot ≠ rightRoot then u.link (max leftRoot rightRoot) (min leftRoot rightRoot) else u

end UnionFind

/-- `for media_id in members[1:]: union.join(members[0], media_id)`. -/
def joinMembers (u : UnionFind Nat) : List Nat → UnionFind Nat
  | [] => u
  | first :: rest => rest.foldl (fun u i => u.join first i) u

namespace IdentityRows
variable (py : PyLib) (rows : IdentityRows)

def joinSafeGroups (groups : List (List Nat)) (u : UnionFind Nat) : UnionFind Nat :=
  groups.foldl
    (fun u members => if rows.safeIdentityGroup members then joinMembers u members else u) u

def union : UnionFind Nat :=
  rows.joinSafeGroups (rows.fallbackMembers py)
    (rows.joinSafeGroups rows.identityMembers .singletons)

/-- The joined groups; one that is unsafe as a whole falls apart into its members. -/
def groups : List (List Nat) :=
  (groupBy (fun i => ((rows.union py).findCompress i).1) rows.catalogIds).flatMap fun candidate =>
    if candidate.2.length = 1 || rows.safeIdentityGroup candidate.2 then [candidate.2]
    else candidate.2.map fun i => [i]

def isPlex (i : Nat) : Bool :=
  rows.sourceMediaRefs.rows.any fun r =>
    r.mediaItemId == i && (rows.sources.get? r.sourceId).any (·.connectorType == .plex)

/-- `not manual, not in plex_ids, id`: the smaller triple represents the group. -/
def represents (a b : Nat) : Bool :=
  let manual (i : Nat) : Bool := (rows.manualMatchOf i).isSome
  if manual a != manual b then manual a
  else if rows.isPlex a != rows.isPlex b then rows.isPlex a
  else a ≤ b

def canonicalOf : List Nat → Nat
  | [] => 0
  | first :: rest => rest.foldl (fun best i => if rows.represents best i then best else i) first

/-- `canonical_by_item`, as the rows it becomes. -/
def members : List CatalogEntryMember :=
  (rows.groups py).flatMap fun group => group.map fun i => ⟨i, rows.canonicalOf group⟩

def providerPriority (provider : String) : Nat := stableProviders.idxOf provider

/-- The first identity of a group by provider and external id. -/
def firstIdentity (group : List Nat) : Option (String × String) :=
  (group.flatMap rows.identifiersOf).foldl
    (fun best identity => match best with
      | none => some identity
      | some b =>
        if providerPriority identity.1 < providerPriority b.1 ∨
            providerPriority identity.1 = providerPriority b.1 ∧ identity.2 < b.2 then some identity
        else some b)
    none

def rawKey (group : List Nat) : String :=
  let canonical := rows.canonicalOf group
  let kind := ((rows.kindOf canonical).map (·.value)).getD ""
  match rows.firstIdentity group with
  | some (provider, externalId) => s!"{kind}\x00{provider}\x00{externalId}"
  | none =>
    let year := match rows.yearOf canonical with
      | some (n + 1) => toString (n + 1)
      | _ => ""
    s!"{kind}\x00title\x00{rows.fallbackIdentity py canonical}\x00{year}"

/-- `group_key_by_canonical`: a key that is taken is replaced by one with the item in it. -/
def groupKeys : List (Nat × String) :=
  ((rows.groups py).foldl (fun (acc : List (Nat × String) × List String) group =>
    let canonical := rows.canonicalOf group
    let raw := rows.rawKey py group
    let key := s!"v{projectionVersion}:" ++ py.sha256 raw
    let key := if acc.2.contains key then
        s!"v{projectionVersion}:" ++ py.sha256 s!"{raw}\x00item:{canonical}"
      else key
    (acc.1 ++ [(canonical, key)], key :: acc.2)) ([], [])).1

end IdentityRows

end Euvieouvi
