import Euvieouvi.Database
import Euvieouvi.Lib.Base64
import Euvieouvi.Lib.Cursors
import Euvieouvi.Lib.Keys
import Euvieouvi.Sync.ActiveRuns
import Mathlib.Data.List.Sort

/-!
# The collection endpoints

`/media`, `/watch-events`, `/watch-states` and `/sync-runs` of `api/routes.py` with the cursors of
`api/validation.py`. A request names filters, a limit and perhaps a cursor; the cursor carries the
id of the last row of a page and a fingerprint of the filters. The filters are taken as parsed, a
join with `DISTINCT` as the condition that a row to join exists; `like` is `ILIKE`.
-/

namespace Euvieouvi

/-- `hashlib.sha256(…).hexdigest()[:16]`. -/
abbrev Fingerprint := { text : String // ∀ c ∈ text.toList, c ∈ "0123456789abcdef".toList }

inductive Json
  | object (fields : List (String × Json))
  | integer (n : Int)
  | string (text : String)
  | other

structure ValidationError where
  field : String
  code : String
  message : String
deriving DecidableEq, Repr

def invalidCursor : ValidationError :=
  ⟨"cursor", "invalid_cursor", "Cursor is invalid for this query."⟩

def invalidInteger (field : String) : ValidationError :=
  ⟨field, "invalid_integer", "A valid integer is required."⟩

/-- `json.dumps({"id": last_id, "f": fingerprint}, separators=(",", ":")).encode()`. -/
def cursorBytes (id : Nat) (fp : Fingerprint) : List UInt8 :=
  ("\x7b\"id\":".toList ++ (toString id).toList ++ ",\"f\":\"".toList ++ fp.1.toList ++
    "\"\x7d".toList).map
    fun c => UInt8.ofNat c.toNat

/-- `json.loads`, of which only the text of a cursor is known. -/
structure JsonLoads where
  loads : List UInt8 → Option Json
  loads_cursorBytes : ∀ id fp,
    loads (cursorBytes id fp) = some (.object [("id", .integer id), ("f", .string fp.1)])

namespace JsonLoads

/-- The id and the fingerprint of the text of a cursor. -/
def readCursor (bytes : List UInt8) : Option Json :=
  let rest := (bytes.map fun b => Char.ofNat b.toNat).drop 6
  let fp := ((rest.dropWhile Char.isDigit).drop 6).takeWhile (· ≠ '"')
  some (.object [("id", .integer (Nat.ofDigitChars 10 (rest.takeWhile Char.isDigit) 0)),
    ("f", .string (String.ofList fp))])

theorem chars_of_bytes {text : List Char} (h : ∀ c ∈ text, c.toNat < 256) :
    (text.map fun c => UInt8.ofNat c.toNat).map (fun b => Char.ofNat b.toNat) = text := by
  rw [List.map_map]
  conv_rhs => rw [← List.map_id text]
  refine List.map_congr_left fun c hc => ?_
  have hbyte := h c hc
  show Char.ofNat (UInt8.ofNat c.toNat).toNat = c
  rw [UInt8.toNat_ofNat', Nat.mod_eq_of_lt hbyte, Char.ofNat_toNat]

theorem readCursor_cursorBytes (id : Nat) (fp : Fingerprint) :
    readCursor (cursorBytes id fp) = some (.object [("id", .integer id), ("f", .string fp.1)]) := by
  have hdigits : ∀ c ∈ (toString id).toList, c.isDigit = true := fun c hc => by
    by_contra hno
    exact not_mem_toString_nat (Bool.eq_false_iff.2 hno) id hc
  have hhex : ∀ c ∈ fp.1.toList, c.toNat < 256 ∧ c ≠ '"' := fun c hc =>
    of_decide_eq_true (List.all_eq_true.1 (by decide :
      ("0123456789abcdef".toList.all fun c => decide (c.toNat < 256 ∧ c ≠ '"')) = true) c
        (fp.2 c hc))
  have hbytes : ∀ text : List Char, (text.all fun c => decide (c.toNat < 256)) = true →
      ∀ c ∈ text, c.toNat < 256 :=
    fun text h c hc => of_decide_eq_true (List.all_eq_true.1 h c hc)
  unfold readCursor cursorBytes
  rw [chars_of_bytes]
  · simp only [List.append_assoc]
    rw [List.drop_left' (by decide : "\x7b\"id\":".toList.length = 6),
      List.takeWhile_append_of_pos hdigits,
      List.dropWhile_append_of_pos hdigits]
    have hfp : (",\"f\":\"".toList ++ (fp.1.toList ++ "\"\x7d".toList)).dropWhile Char.isDigit =
      ",\"f\":\"".toList ++ (fp.1.toList ++ "\"\x7d".toList) := rfl
    have hnone : (",\"f\":\"".toList ++ (fp.1.toList ++ "\"\x7d".toList)).takeWhile
        Char.isDigit = [] := rfl
    rw [hfp, hnone, List.append_nil, List.drop_left' (by decide : ",\"f\":\"".toList.length = 6),
      List.takeWhile_append_of_pos fun c hc => by simpa using (hhex c hc).2]
    have hend : "\"\x7d".toList.takeWhile (fun c => decide (c ≠ '"')) = [] := by decide
    rw [hend, List.append_nil, String.ofList_toList, toList_toString_nat,
      Nat.ofDigitChars_toDigits (by decide : 1 < 10) (by decide : 10 ≤ 10)]
  · intro c hc
    simp only [List.mem_append] at hc
    rcases hc with (((hc | hc) | hc) | hc) | hc
    · exact hbytes "\x7b\"id\":".toList (by decide) c hc
    · have hdigit := hdigits c hc
      simp only [Char.isDigit, Bool.and_eq_true, decide_eq_true_eq] at hdigit
      have hle : c.toNat ≤ 57 := hdigit.2
      omega
    · exact hbytes ",\"f\":\"".toList (by decide) c hc
    · exact (hhex c hc).1
    · exact hbytes "\"\x7d".toList (by decide) c hc

/-- Enough of `json.loads` to read cursors. -/
def plain : JsonLoads := ⟨readCursor, readCursor_cursorBytes⟩

end JsonLoads

def encodeCursor (id : Nat) (fp : Fingerprint) : String :=
  String.ofList (Base64.strip (Base64.encode (cursorBytes id fp)))

/-- `integer(value, "cursor", minimum=1)`. -/
def cursorInteger : Option Json → Except ValidationError Nat
  | some (.integer n) => if 1 ≤ n then .ok n.toNat else .error (invalidInteger "cursor")
  | _ => .error (invalidInteger "cursor")

def decodeCursor (json : JsonLoads) (value : Option String) (fp : Fingerprint) :
    Except ValidationError (Option Nat) :=
  match value with
  | none => .ok none
  | some value =>
    if value.toList.all (·.toNat < 128) then
      match (Base64.decode (Base64.pad value.toList)).bind json.loads with
      | some (.object fields) =>
        match fields.lookup "f" with
        | some (.string text) =>
          if fields.all (fun field => field.1 ∈ ["id", "f"]) && (fields.lookup "id").isSome &&
            text == fp.1 then
            (cursorInteger (fields.lookup "id")).map some
          else .error invalidCursor
        | _ => .error invalidCursor
      | _ => .error invalidCursor
    else .error invalidCursor

/-- A cursor gives its id back to a request with its fingerprint, and every other request refuses
it. -/
theorem decode_encodeCursor (json : JsonLoads) {id : Nat} (hid : 1 ≤ id) (fp fp' : Fingerprint) :
    decodeCursor json (some (encodeCursor id fp)) fp' = if fp =
      fp' then .ok (some id) else .error invalidCursor := by
  have hascii : (encodeCursor id fp).toList.all (·.toNat < 128) = true := by
    unfold encodeCursor
    rw [String.toList_ofList, List.all_eq_true]
    intro c hc
    exact decide_eq_true (Base64.ascii_encode _ c ((List.rdropWhile_prefix _ _).subset hc))
  unfold decodeCursor
  dsimp only
  rw [if_pos hascii]
  unfold encodeCursor
  rw [String.toList_ofList, Base64.decode_pad_strip, Option.bind_some, json.loads_cursorBytes]
  have hlookup : List.lookup "f" [("id", Json.integer id), ("f", Json.string fp.1)] =
      some (.string fp.1) := rfl
  dsimp only
  rw [hlookup]
  by_cases hfp : fp = fp'
  · have hid' : (1 : Int) ≤ id := by omega
    simp [hfp, cursorInteger, hid', Except.map]
  · have htext : fp.1 ≠ fp'.1 := fun h => hfp (Subtype.ext h)
    simp [hfp, htext]

/-- What `limit` returns. -/
abbrev PageLimit := { n : Nat // 1 ≤ n ∧ n ≤ 200 }

/-- What a request selects, in the order of its query, and on which side of a cursor it goes on. -/
structure Listing (α : Type) where
  rows : List α
  id : α → Nat
  descending : Bool

/-- `id < last` or `id > last`. -/
def afterId (descending : Bool) (last id : Nat) : Bool :=
  if descending then id < last else last < id

structure CollectionPage (α : Type) where
  items : List α
  nextCursor : Option String
  hasMore : Bool

namespace Listing
variable {α : Type} (listing : Listing α) (json : JsonLoads) (fp : Fingerprint) (limit : PageLimit)

/-- `_collection`. -/
def collection (items : List α) : CollectionPage α :=
  let hasMore : Bool := limit.1 < items.length
  let visible := items.take limit
  { items := visible
    nextCursor :=
      if hasMore then visible.getLast?.map fun x => encodeCursor (listing.id x) fp else none
    hasMore := hasMore }

/-- A request. -/
def request (cursor : Option String) : Except ValidationError (CollectionPage α) := do
  let last ← decodeCursor json cursor fp
  return listing.collection fp limit
    ((afterCursor listing.id (afterId listing.descending) last listing.rows).take (limit + 1))

/-- The rows of all pages from a cursor on. -/
def followPages : Nat → Option String → Option (List α)
  | 0, _ => none
  | fuel + 1, cursor =>
    match listing.request json fp limit cursor with
    | .error _ => none
    | .ok page => match page.nextCursor with
      | none => some page.items
      | some next => (followPages fuel (some next)).map (page.items ++ ·)

/-- Following the cursors ends. -/
def Ends : Prop := ∃ fuel rows, listing.followPages json fp limit fuel none = some rows

/-- Following the cursors returns every selected row once, in the order of the query. -/
def Complete : Prop := ∃ fuel, listing.followPages json fp limit fuel none = some listing.rows

/-- At each cut between two pages, the ids before it and after it lie on the two sides of its
cursor. -/
def Separated : Prop := CleanCuts listing.id (afterId listing.descending) limit.1 listing.rows

variable {listing}

theorem afterId_irrefl (descending : Bool) (c : Nat) : afterId descending c c = false := by
  cases descending <;> simp [afterId]

theorem afterId_trans (descending : Bool) (c d e : Nat) (h : afterId descending c d = true)
    (h' : afterId descending d e = true) :
    afterId descending c e = true := by
  cases descending <;> simp only [afterId, Bool.false_eq_true, if_false, if_true, decide_eq_true_eq]
    at h h' ⊢ <;> omega

theorem afterId_asymm (descending : Bool) (c d : Nat) (h : afterId descending c d = true) :
    afterId descending d c = false := by
  cases descending <;> simp only [afterId, Bool.false_eq_true, if_false, if_true, decide_eq_true_eq,
    decide_eq_false_iff_not] at h ⊢ <;>
    omega

/-- The requests are those of the cursors themselves. -/
theorem followPages_eq (hids : ∀ x ∈ listing.rows, 1 ≤ listing.id x) (fuel : Nat)
    {cursor : Option Nat} (hcursor : ∀ c ∈ cursor, 1 ≤ c) :
    listing.followPages json fp limit fuel (cursor.map (encodeCursor · fp)) =
      follow listing.id (afterId listing.descending) limit.1 listing.rows fuel cursor := by
  induction fuel generalizing cursor with
  | zero => rfl
  | succ fuel ih =>
    have hdecoded : decodeCursor json (cursor.map (encodeCursor · fp)) fp = .ok cursor := by
      cases cursor with
      | none => rfl
      | some c => exact (decode_encodeCursor json (hcursor c rfl) fp fp).trans (if_pos rfl)
    unfold followPages follow request
    rw [hdecoded]
    show (match (listing.collection fp limit
      ((afterCursor listing.id (afterId listing.descending) cursor listing.rows).take
        (limit.1 + 1))).nextCursor with
      | none => _
      | some next => _) = _
    unfold collection cursorPage
    dsimp only
    generalize hrows : (afterCursor listing.id (afterId listing.descending) cursor
      listing.rows).take (limit.1 + 1) = rows
    have hmem : ∀ x ∈ rows, 1 ≤ listing.id x := by
      intro x hx
      rw [← hrows] at hx
      have hx := List.mem_of_mem_take hx
      cases cursor with
      | none => exact hids x hx
      | some c => exact hids x (List.mem_filter.1 hx).1
    by_cases hmore : limit.1 < rows.length
    · rw [if_pos (decide_eq_true hmore), if_pos hmore]
      rcases hlast : (rows.take limit.1).getLast? with _ | x
      · rfl
      · have hpos := hmem x (List.mem_of_mem_take (List.mem_of_getLast? hlast))
        have hrest := @ih (some (listing.id x)) (by rintro c ⟨⟩; exact hpos)
        exact congrArg (Option.map _) hrest
    · rw [if_neg (by simpa using hmore), if_neg hmore]

theorem followPages_first (hids : ∀ x ∈ listing.rows, 1 ≤ listing.id x) (fuel : Nat) :
    listing.followPages json fp limit fuel none =
      follow listing.id (afterId listing.descending) limit.1 listing.rows fuel none := by
  have hnone : ∀ c ∈ (none : Option Nat), 1 ≤ c := fun c hc => by cases hc
  exact followPages_eq json fp limit hids fuel hnone

theorem ends (hids : ∀ x ∈ listing.rows, 1 ≤ listing.id x) : listing.Ends json fp limit := by
  obtain ⟨fuel, rows, h⟩ : ∃ fuel rows,
      follow listing.id (afterId listing.descending) limit.1 listing.rows fuel none = some rows :=
    follow_terminates (afterId_irrefl listing.descending) (afterId_trans listing.descending)
      limit.2.1 listing.rows
  exact ⟨fuel, rows, (followPages_first json fp limit hids fuel).trans h⟩

theorem complete_iff (hids : ∀ x ∈ listing.rows, 1 ≤ listing.id x) (hnodup : listing.rows.Nodup) :
    listing.Complete json fp limit ↔ listing.Separated limit := by
  have hfollow : ∀ fuel, listing.followPages json fp limit fuel none =
      follow listing.id (afterId listing.descending) limit.1 listing.rows fuel none := fun fuel =>
    followPages_first json fp limit hids fuel
  unfold Complete Separated
  simp only [hfollow]
  exact follow_eq_iff (afterId_trans listing.descending) limit.2.1 hnodup

/-- Rows in the order of their ids are separated by every cut. -/
theorem separated_of_sorted (h : listing.rows.Pairwise fun x y =>
      afterId listing.descending (listing.id x) (listing.id y) = true) :
    listing.Separated limit :=
  cleanCuts_of_pairwise (afterId_irrefl _) (afterId_asymm _) h

end Listing

/-! ### The endpoints -/

/-- A row of `watch_states` with its id. -/
structure WatchStateRow where
  id : Nat
  state : WatchState
deriving DecidableEq, Repr

structure SyncRunRow extends SyncRun where
  createdAt : Time
deriving DecidableEq, Repr

/-- The tables that the endpoints read; SQLite gives ids from 1 on. -/
structure ApiTables where
  db : Database
  states : Table WatchStateRow.id
  runs : Table (SyncRun.id ∘ SyncRunRow.toSyncRun)
  media_pos : ∀ m ∈ db.mediaItems.rows, 1 ≤ m.id
  events_pos : ∀ e ∈ db.watchEvents.rows, 1 ≤ e.id
  states_pos : ∀ s ∈ states.rows, 1 ≤ s.id
  runs_pos : ∀ r ∈ runs.rows, 1 ≤ r.id

structure MediaFilters where
  kind : Option MediaKind := none
  parentId : Option Nat := none
  year : Option Nat := none
  query : Option String := none
  libraryId : Option Nat := none
  available : Option Bool := none
  watched : Option Bool := none

structure EventFilters where
  mediaId : Option Nat := none
  sourceId : Option Nat := none
  completed : Option Bool := none
  libraryId : Option Nat := none
  kind : Option MediaKind := none

structure StateFilters where
  mediaId : Option Nat := none
  sourceId : Option Nat := none
  completed : Option Bool := none

structure RunFilters where
  sourceId : Option Nat := none
  status : Option SyncStatus := none

namespace ApiTables
variable (t : ApiTables) (like : String → String → Bool)

def referredTo (t : ApiTables) (item : Nat) (p : SourceMediaRef → Bool) : Bool :=
  t.db.sourceMediaRefs.rows.any fun r => r.mediaItemId == item && p r

def mediaMatches (f : MediaFilters) (m : MediaItem) : Bool :=
  f.kind.all (m.kind == ·) && f.parentId.all (m.parentId == some ·) &&
    f.year.all (m.year == some ·) &&
    f.query.all (like m.title s!"%{·}%") &&
      f.libraryId.all (fun l => t.referredTo m.id (·.libraryId == l)) &&
    f.available.all (fun a => t.referredTo m.id (·.available == a)) &&
    f.watched.all fun w => t.states.rows.any fun s => s.state.mediaItemId == m.id &&
      s.state.completed == w

/-- `/media`: in the order of the ids. -/
def mediaList (f : MediaFilters) : Listing MediaItem where
  rows := (t.db.mediaItems.rows.filter (t.mediaMatches like f)).insertionSort fun a b => a.id ≤ b.id
  id := MediaItem.id
  descending := false

def eventMatches (f : EventFilters) (e : WatchEvent) : Bool :=
  f.mediaId.all (e.mediaItemId == ·) && f.sourceId.all (e.sourceId == ·) &&
    f.completed.all (e.completed == ·) &&
    f.libraryId.all (fun l => t.referredTo e.mediaItemId (·.libraryId == l)) &&
    f.kind.all fun k => (t.db.mediaItems.get? e.mediaItemId).any (·.kind == k)

/-- `ORDER BY watched_at DESC, id DESC`. -/
def eventOrder (a b : WatchEvent) : Prop :=
  b.watchedAt < a.watchedAt ∨ a.watchedAt = b.watchedAt ∧ b.id ≤ a.id

instance (a b : WatchEvent) : Decidable (eventOrder a b) := by unfold eventOrder; infer_instance

/-- `/watch-events`. -/
def watchEventsList (f : EventFilters) : Listing WatchEvent where
  rows := (t.db.watchEvents.rows.filter (t.eventMatches f)).insertionSort eventOrder
  id := WatchEvent.id
  descending := true

def stateMatches (f : StateFilters) (s : WatchStateRow) : Bool :=
  f.mediaId.all (s.state.mediaItemId == ·) && f.sourceId.all (s.state.sourceId == ·) &&
    f.completed.all (s.state.completed == ·)

/-- `/watch-states`: in the order of the ids. -/
def watchStatesList (f : StateFilters) : Listing WatchStateRow where
  rows := (t.states.rows.filter (stateMatches f)).insertionSort fun a b => a.id ≤ b.id
  id := WatchStateRow.id
  descending := false

def runMatches (f : RunFilters) (r : SyncRunRow) : Bool :=
  f.sourceId.all (r.sourceId == ·) && f.status.all (r.status == ·)

/-- `ORDER BY created_at DESC, id DESC`. -/
def runOrder (a b : SyncRunRow) : Prop :=
  b.createdAt < a.createdAt ∨ a.createdAt = b.createdAt ∧ b.id ≤ a.id

instance (a b : SyncRunRow) : Decidable (runOrder a b) := by unfold runOrder; infer_instance

/-- `/sync-runs`. -/
def syncRunsList (f : RunFilters) : Listing SyncRunRow where
  rows := (t.runs.rows.filter (runMatches f)).insertionSort runOrder
  id r := r.id
  descending := true

theorem nodup_rows {α : Type} {key : α → Nat} (rows : Table key) (p : α → Bool) (r : α → α → Prop)
    [DecidableRel r] :
    ((rows.rows.filter p).insertionSort r).Nodup :=
  (List.perm_insertionSort r _).nodup_iff.2 ((List.Nodup.of_map key rows.nodup).filter p)

/-- Sorting rows by their ids leaves no two of the same id. -/
theorem pairwise_ids {α : Type} {key : α → Nat} (rows : Table key) (p : α → Bool) :
    ((rows.rows.filter p).insertionSort fun a b => key a ≤ key b).Pairwise fun a b =>
      afterId false (key a) (key b) = true := by
  have htotal : Std.Total fun a b : α => key a ≤ key b := ⟨fun a b => Nat.le_total _ _⟩
  have htrans : IsTrans α fun a b => key a ≤ key b := ⟨fun a b c => Nat.le_trans⟩
  have hsorted := List.pairwise_insertionSort (fun a b : α => key a ≤ key b) (rows.rows.filter p)
  have hnodup : (((rows.rows.filter p).insertionSort fun a b => key a ≤ key b).map key).Nodup :=
    ((List.perm_insertionSort _ _).map key).nodup_iff.2
      (rows.nodup.sublist (List.filter_sublist.map key))
  refine (hsorted.and (List.pairwise_map.1 hnodup)).imp fun ⟨hle, hne⟩ => ?_
  exact decide_eq_true (Nat.lt_of_le_of_ne hle hne)

theorem pos_of_mem {α : Type} {rows : List α} {p : α → Bool} {r : α → α → Prop} [DecidableRel r]
    {id : α → Nat}
    (h : ∀ x ∈ rows, 1 ≤ id x) : ∀ x ∈ (rows.filter p).insertionSort r, 1 ≤ id x := fun x hx =>
  h x (List.mem_filter.1 ((List.perm_insertionSort r _).mem_iff.1 hx)).1

/-- Following the cursors of each collection ends with every matching row, a cursor gives its id
back, and it is refused where the filters have another fingerprint. -/
structure CursorsComplete (json : JsonLoads) (fp : Fingerprint) (limit : PageLimit)
    (fm : MediaFilters) (fe : EventFilters) (fs : StateFilters) (fr : RunFilters) : Prop where
  media : (t.mediaList like fm).Ends json fp limit ∧ (t.mediaList like fm).Complete json fp limit
  events : (t.watchEventsList fe).Ends json fp limit ∧ (t.watchEventsList fe).Complete json fp limit
  states : (t.watchStatesList fs).Ends json fp limit ∧ (t.watchStatesList fs).Complete json fp limit
  runs : (t.syncRunsList fr).Ends json fp limit ∧ (t.syncRunsList fr).Complete json fp limit
  returned : ∀ id, 1 ≤ id → decodeCursor json (some (encodeCursor id fp)) fp = .ok (some id)
  refused : ∀ id fp', 1 ≤ id → fp ≠ fp' → decodeCursor json (some (encodeCursor id fp)) fp' =
    .error invalidCursor

/-- The cursors are complete exactly when the cuts of the two collections that are sorted by a date
separate the ids. -/
theorem cursorsComplete_iff (json : JsonLoads) (fp : Fingerprint) (limit : PageLimit)
    (fm : MediaFilters) (fe : EventFilters) (fs : StateFilters) (fr : RunFilters) :
    t.CursorsComplete like json fp limit fm fe fs fr ↔
      (t.watchEventsList fe).Separated limit ∧ (t.syncRunsList fr).Separated limit := by
  have hmedia : ∀ x ∈ (t.mediaList like fm).rows, 1 ≤ (t.mediaList like fm).id x :=
    pos_of_mem t.media_pos
  have hevents : ∀ x ∈ (t.watchEventsList fe).rows, 1 ≤ (t.watchEventsList fe).id x :=
    pos_of_mem t.events_pos
  have hstates : ∀ x ∈ (t.watchStatesList fs).rows, 1 ≤ (t.watchStatesList fs).id x :=
    pos_of_mem t.states_pos
  have hruns : ∀ x ∈ (t.syncRunsList fr).rows, 1 ≤ (t.syncRunsList fr).id x := pos_of_mem t.runs_pos
  have hevents_iff := Listing.complete_iff json fp limit hevents (nodup_rows t.db.watchEvents _ _)
  have hruns_iff := Listing.complete_iff json fp limit hruns (nodup_rows t.runs _ _)
  constructor
  · intro h
    exact ⟨hevents_iff.1 h.events.2, hruns_iff.1 h.runs.2⟩
  · rintro ⟨hseparated, hseparated'⟩
    refine ⟨⟨Listing.ends json fp limit hmedia, ?_⟩,
      ⟨Listing.ends json fp limit hevents, hevents_iff.2 hseparated⟩,
      ⟨Listing.ends json fp limit hstates, ?_⟩,
        ⟨Listing.ends json fp limit hruns, hruns_iff.2 hseparated'⟩,
      fun id hid => ?_, fun id fp' hid hne => ?_⟩
    · refine (Listing.complete_iff json fp limit hmedia (nodup_rows t.db.mediaItems _ _)).2 ?_
      exact Listing.separated_of_sorted limit (pairwise_ids t.db.mediaItems _)
    · refine (Listing.complete_iff json fp limit hstates (nodup_rows t.states _ _)).2 ?_
      exact Listing.separated_of_sorted limit (pairwise_ids t.states _)
    · rw [decode_encodeCursor json hid, if_pos rfl]
    · rw [decode_encodeCursor json hid, if_neg hne]

section Example

/-- An event that was stored after one that was watched later. -/
def backfilled : ApiTables where
  db := (Database.empty.insertWatchEvent ⟨1, 1, 1, none, "", 10, true, none, none, none, none,
    .synchronization, 0⟩).insertWatchEvent
    ⟨2, 1, 1, none, "", 5, true, none, none, none, none, .synchronization, 0⟩
  states := .empty
  runs := .empty
  media_pos := by decide
  events_pos := by decide
  states_pos := by decide
  runs_pos := by decide

/-- With one event a page, the second one is not after the cursor of the first. -/
theorem backfilled_event_is_skipped :
    ¬ backfilled.CursorsComplete (fun _ _ => true) .plain ⟨"", by simp⟩ ⟨1, by decide⟩ {}
    {} {} {} := by
  intro h
  have hseparated := (Listing.complete_iff _ _ _ (pos_of_mem backfilled.events_pos)
    (nodup_rows backfilled.db.watchEvents _ _)).1
    h.events.2
  have hcut :=
    hseparated [] ⟨1, 1, 1, none, "", 10, true, none, none, none, none, .synchronization, 0⟩
    [⟨2, 1, 1, none, "", 5, true, none, none, none, none, .synchronization, 0⟩] (by decide)
      (by simp) (by decide)
  have hfalse := hcut.2 _ List.mem_cons_self
  revert hfalse
  decide

end Example

end ApiTables

end Euvieouvi
