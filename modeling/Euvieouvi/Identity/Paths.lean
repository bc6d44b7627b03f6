import Euvieouvi.Lib.Grouping
import Euvieouvi.Python
import Mathlib.Data.List.Sort

/-!
# Physical file identity

`sync/physical_identity.py`: the key of a file is the digest of its normalized path below the
configured mount roots. `save_paths` makes the rows of one reference those of a dictionary of keys,
and `remap_paths` recomputes the keys of every reference that has paths. Neither statement fires a
trigger.
-/

namespace Euvieouvi

/-- `posixpath.normpath` on the parts between slashes: `above` says whether a leading `..` stays. -/
def normComponents (above : Bool) : List (List Char) → List (List Char) → List (List Char)
  | done, [] => done.reverse
  | done, comp :: comps =>
    if comp = [] ∨ comp = ['.'] then normComponents above done comps
    else if comp ≠ ['.', '.'] ∨ (above ∧ done = []) ∨ done.head? = some ['.', '.'] then
      normComponents above (comp :: done) comps
    else normComponents above done.tail comps

def posixNormpath (path : String) : String :=
  let chars := path.toList
  let slashes :=
    if ['/', '/'].isPrefixOf chars && !(['/', '/', '/'].isPrefixOf chars) then 2
    else if ['/'].isPrefixOf chars then 1 else 0
  let comps := normComponents (slashes = 0) [] (chars.splitOnP (· == '/'))
  let text := String.ofList (List.replicate slashes '/' ++ ['/'].intercalate comps)
  if text = "" then "." else text

/-- `re.match(r"^[A-Za-z]:/", path)`. -/
def hasDriveLetter : List Char → Bool
  | c :: ':' :: '/' :: _ => ('A' ≤ c && c ≤ 'Z') || ('a' ≤ c && c ≤ 'z')
  | _ => false

def containsScheme : List Char → Bool
  | [] => false
  | c :: rest => [':', '/', '/'].isPrefixOf (c :: rest) || containsScheme rest

def normalizePath (py : PyLib) (path : String) : Option String :=
  let chars := (py.strip path).toList.map fun c => if c = '\\' then '/' else c
  if chars = [] ∨ chars.contains '\x00' ∨ containsScheme chars then none
  else if !(['/'].isPrefixOf chars) ∧ !hasDriveLetter chars then none
  else some (posixNormpath (String.ofList chars))

/-- `text.rstrip("/")`. -/
def rstripSlash (text : String) : List Char := (text.toList.reverse.dropWhile (· == '/')).reverse

def canonicalPath (py : PyLib) (path : String) (roots : List PathRoot) : Option String :=
  (normalizePath py path).map fun normalized =>
    let longestFirst := roots.insertionSort fun a b => b.source.length ≤ a.source.length
    let below (root : PathRoot) : Bool :=
      let source := rstripSlash root.source
      normalized.toList == source || (source ++ ['/']).isPrefixOf normalized.toList
    match longestFirst.find? below with
    | some root =>
      posixNormpath (String.ofList
        (rstripSlash root.canonical ++ normalized.toList.drop (rstripSlash root.source).length))
    | none => normalized

abbrev PathKeys := Dict String (String × String)

/-- `path_keys`: the original and the canonical path under the digest of the latter. -/
def pathKeys (py : PyLib) (paths : List String) (roots : List PathRoot) : PathKeys :=
  paths.foldl (fun result original =>
    match canonicalPath py original roots with
    | some canonical =>
      if canonical = "" then result
      else result.upsert (py.sha256 canonical) fun _ => (original, canonical)
    | none => result) .empty

namespace Database

def loadRoots (db : Database) (source : Nat) : List PathRoot :=
  ((db.settings.pathRoots.find? (·.1 == source)).map (·.2)).getD []

/-- `save_paths`: a key that is there is rewritten, a new one inserted, and the others deleted. -/
def savePaths (reference : Nat) (keys : PathKeys) (db : Database) : Database :=
  let existing := db.mediaFilePaths.rows.filter (·.referenceId == reference)
  let saved := keys.rows.foldl (fun (table : Table MediaFilePath.id) entry =>
    if existing.any (·.pathKey == entry.1) then
      table.update (fun p => p.referenceId == reference && p.pathKey == entry.1)
        ⟨fun p => { p with originalPath := entry.2.1, canonicalPath := entry.2.2 }, fun _ => rfl⟩
    else table.insert ⟨table.nextId, reference, entry.1, entry.2.1, entry.2.2⟩) db.mediaFilePaths
  { db with mediaFilePaths :=
      saved.delete fun p => p.referenceId == reference && (keys.lookup p.pathKey).isNone }

/-- The paths of a reference in the order of the index (`reference_id`, `path_key`), which the query
without `ORDER BY` goes through. -/
def originalPaths (db : Database) (reference : Nat) : List String :=
  ((db.mediaFilePaths.rows.filter (·.referenceId == reference)).insertionSort fun p p' =>
    p.pathKey ≤ p'.pathKey).map (·.originalPath)

def remapPaths (py : PyLib) (db : Database) : Database :=
  (db.sourceMediaRefs.rows.filter fun r => db.mediaFilePaths.rows.any (·.referenceId == r.id)).foldl
    (fun db' reference =>
      db'.savePaths reference.id
        (pathKeys py (db.originalPaths reference.id) (db.loadRoots reference.sourceId))) db

end Database

end Euvieouvi
