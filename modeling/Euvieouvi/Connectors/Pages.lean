import Euvieouvi.Connectors.Dtos
import Euvieouvi.Lib.Windows

/-!
# Pages of the catalog

`PageRequest`, `Page` and `PageIssue` (`connectors/dtos.py`) and `get_media_page` of both
connectors, with the `_page` and `_remember_page` of Plex. What the mappers and the lookups of
parents make of a row is an input of each call (`RowReader`): an item with the id of the row, or the
text of an error.
-/

namespace Euvieouvi

abbrev PageSize := { n : Nat // 1 ≤ n ∧ n ≤ 1000 }

structure PageRequest where
  start : Nat
  size : PageSize

structure PageIssue where
  externalId : Option String
  title : Option String
  category : String
  message : String
deriving DecidableEq, Repr

structure Page where
  items : List ExternalMediaItem
  start : Nat
  size : Nat
  totalSize : Option Nat := none
  nextStart : Option Nat := none
  issues : List PageIssue := []

inductive PageError
  | mustAdvance
  | repeatedPage
  | withoutOffset
  | invalidSize
deriving DecidableEq, Repr

def PageError.text : PageError → String
  | .mustAdvance => "next_start must advance"
  | .repeatedPage => "Plex repeated a page without advancing its contents."
  | .withoutOffset => "Plex returned a page without the requested offset."
  | .invalidSize => "Plex returned an invalid page size."

namespace Page

/-- `Page.__post_init__`. -/
def checked (p : Page) : Except PageError Page :=
  if p.nextStart.any (· ≤ p.start) then .error .mustAdvance else .ok p

def hasMore (p : Page) : Bool := p.nextStart.isSome

end Page

structure ListedRow where
  externalId : String
  title : Option String := none
deriving DecidableEq, Repr

/-- What one call makes of the rows. -/
structure RowReader where
  mapRow : (row : ListedRow) →
    Except String { item : ExternalMediaItem // item.externalId = row.externalId }
  lookupError : ListedRow → Option String

/-- `_mapping_issue`. -/
def mappingIssue (row : ListedRow) (category error : String) : PageIssue where
  externalId := some row.externalId
  title := row.title
  category := category
  message :=
    let title := row.title.getD "?"
    String.ofList ((s!"externo={row.externalId} · título={title} · erro={error}".toList).take 1000)

namespace RowReader
variable (reader : RowReader) (row : ListedRow)

def item? : Option ExternalMediaItem :=
  match reader.mapRow row with
  | .ok item => some item.1
  | .error _ => none

def mappingIssue? : Option PageIssue :=
  match reader.mapRow row with
  | .ok _ => none
  | .error error => some (mappingIssue row "catalog_mapping" error)

/-- The issue of `_with_series_provider_ids`. -/
def lookupIssue? : Option PageIssue :=
  (reader.lookupError row).map (mappingIssue row "series_identifier_lookup")

end RowReader

/-- An answer of a server, with what it says about its position and its length. -/
structure MediaContainer where
  offset : Option Nat
  totalSize : Option Nat
  rows : List ListedRow

namespace PlexConnector

/-- The entry of `_last_pages` for the listing. -/
abbrev LastPage := Option (Nat × List String)

/-- `_page`. -/
def page (container : MediaContainer) (items : List ExternalMediaItem) (request : PageRequest)
    (consumedSize : Nat) :
    Except PageError Page :=
  if container.offset.any (· ≠ request.start) then .error .withoutOffset
  else if consumedSize < items.length ∨ request.size.1 < consumedSize then .error .invalidSize
  else Page.checked
    { items := items
      start := request.start
      size := items.length
      totalSize := container.totalSize
      nextStart := if consumedSize =
        request.size.1 then some (request.start + consumedSize) else none }

/-- `_remember_page`. -/
def rememberPage (last : LastPage) (start : Nat) (fingerprint : List String) :
    Except PageError LastPage :=
  if fingerprint ≠ [] ∧ last.any (fun previous => previous.1 ≠ start ∧ previous.2 = fingerprint)
    then .error .repeatedPage
  else .ok (some (start, fingerprint))

/-- `get_media_page`. -/
def getMediaPage (reader : RowReader) (container : MediaContainer) (request : PageRequest)
    (last : LastPage) :
    Except PageError (Page × LastPage) := do
  let items := container.rows.filterMap reader.item?
  let result ← page container items request container.rows.length
  let last ← rememberPage last request.start
    (items.map fun item : ExternalMediaItem => item.externalId)
  return ({ result with issues := container.rows.filterMap reader.mappingIssue? }, last)

end PlexConnector

namespace JellyfinConnector

/-- `get_media_page`. -/
def getMediaPage (reader : RowReader) (container : MediaContainer) (request : PageRequest) :
    Except PageError Page :=
  let items := container.rows.filterMap reader.item?
  let total := container.totalSize.getD container.rows.length
  Page.checked
    { items := items
      start := request.start
      size := items.length
      totalSize := some total
      nextStart := if request.start + container.rows.length <
        total then some (request.start + container.rows.length) else none
      issues := container.rows.flatMap fun row =>
        (reader.lookupIssue? row).toList ++ (reader.mappingIssue? row).toList }

end JellyfinConnector

/-- The listing of a library; Plex may leave out its position and its length. -/
structure MediaServer where
  connector : ConnectorType
  rows : List ListedRow
  nodup : (rows.map (·.externalId)).Nodup
  reportsOffset : Bool
  reportedTotal : Option Nat

namespace MediaServer
variable (server : MediaServer)

def answer (request : PageRequest) : MediaContainer where
  offset := if server.reportsOffset then some request.start else none
  totalSize := match server.connector with
    | .plex => server.reportedTotal
    | .jellyfin => some server.rows.length
  rows := (server.rows.drop request.start).take request.size.1

/-- `get_media_page` of the connector. -/
def getMediaPage (reader : RowReader) (request : PageRequest) (last : PlexConnector.LastPage) :
    Except PageError (Page × PlexConnector.LastPage) :=
  match server.connector with
  | .plex => PlexConnector.getMediaPage reader (server.answer request) request last
  | .jellyfin =>
    (JellyfinConnector.getMediaPage reader (server.answer request) request).map fun page =>
      (page, last)

end MediaServer

end Euvieouvi
