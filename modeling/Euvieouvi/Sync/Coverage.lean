import Euvieouvi.Sync.PagedMedia

/-!
# The media stage covers the listing

Each page that a request gets is a window of the listing, and the next request begins where it ends
(`MediaServer.getMediaPage_window`): Plex goes on after a page that is full, Jellyfin while its
total is not reached, and the memory of Plex holds a window of its own, so the guard against
repeated pages never fires. `PagedStage.Inv` says that the committed pages are the first windows and
that the stored cursor counts them.
-/

namespace Euvieouvi

namespace MediaServer
variable {server : MediaServer} {size : PageSize} {reader : RowReader} {j k : Nat}
  {last last' : PlexConnector.LastPage}
  {row : ListedRow} {page : Page}

theorem PageSize.pos (size : PageSize) : 0 < size.1 := size.2.1

/-- The ids of a window of the listing. -/
def windowIds (server : MediaServer) (size : PageSize) (k : Nat) : List String :=
  window size.1 k (server.rows.map (·.externalId))

theorem windowIds_eq : server.windowIds size k = (window size.1 k server.rows).map (·.externalId) :=
  window_map _

/-- The memory of a connector that has asked for windows up to `k`. -/
def Remembers (server : MediaServer) (size : PageSize) (k : Nat)
    (last : PlexConnector.LastPage) : Prop :=
  ∀ start fingerprint, last = some (start, fingerprint) → ∃ j ≤ k, start = j * size.1 ∧
    fingerprint ⊆ server.windowIds size j

theorem remembers_none : server.Remembers size k none := by
  intro start fingerprint h
  cases h

theorem Remembers.mono (h : server.Remembers size k last) (hkj : k ≤ j) :
    server.Remembers size j last := by
  intro start fingerprint hlast
  obtain ⟨i, hi, hstart⟩ := h start fingerprint hlast
  exact ⟨i, by omega, hstart⟩

theorem remembers_page {items : List ExternalMediaItem}
    (h : items.map (·.externalId) ⊆ server.windowIds size k) :
    server.Remembers size k (some (k * size.1, items.map (·.externalId))) := by
  rintro start fingerprint ⟨⟩
  exact ⟨k, le_refl k, rfl, h⟩

/-- The guard against repeated pages lets every window pass. -/
theorem rememberPage_window (hlast : server.Remembers size k last) {fingerprint : List String}
    (hsub : fingerprint ⊆ server.windowIds size k) :
    PlexConnector.rememberPage last (k * size.1) fingerprint =
      .ok (some (k * size.1, fingerprint)) := by
  unfold PlexConnector.rememberPage
  refine if_neg ?_
  rintro ⟨hne, hany⟩
  rw [Option.any_eq_true] at hany
  obtain ⟨⟨start, previous⟩, hprev, hdiff⟩ := hany
  simp only [decide_eq_true_eq] at hdiff
  obtain ⟨i, -, rfl, hin⟩ := hlast start previous hprev
  obtain ⟨x, hx⟩ := List.exists_mem_of_ne_nil fingerprint hne
  have hik : i ≠ k := fun heq => hdiff.1 (by rw [heq])
  exact window_disjoint server.nodup (PageSize.pos size) hik (hin (hdiff.2 ▸ hx)) (hsub hx)

/-- The page is the `k`-th window of the listing as the call has read it. -/
structure IsWindow (server : MediaServer) (size : PageSize) (reader : RowReader) (k : Nat)
    (page : Page) : Prop where
  items : page.items = (server.contents reader (window size.1 k server.rows)).items
  issues : page.issues = (server.contents reader (window size.1 k server.rows)).issues
  next : page.nextStart = some ((k + 1) * size.1) ∧ (k + 1) * size.1 ≤ server.rows.length ∨
    page.nextStart = none ∧ server.rows.length ≤ (k + 1) * size.1

theorem items_subset : (((window size.1 k server.rows).filterMap reader.item?).map (·.externalId)) ⊆
    server.windowIds size k := by
  intro x hx
  obtain ⟨item, hitem, rfl⟩ := List.mem_map.1 hx
  obtain ⟨row, hrow, hmapped⟩ := List.mem_filterMap.1 hitem
  rw [item?_externalId hmapped, windowIds_eq]
  exact List.mem_map_of_mem hrow

theorem checked_of_lt (h : ∀ next, page.nextStart = some next → page.start < next) :
    page.checked = .ok page := by
  unfold Page.checked
  refine if_neg ?_
  rw [Option.any_eq_true]
  rintro ⟨next, hnext, hle⟩
  have hlt := h next hnext
  simp only [decide_eq_true_eq] at hle
  omega

/-- One answer as the connector of Plex reads it. -/
theorem plex_window (hconnector : server.connector = .plex) (hk : k * size.1 ≤ server.rows.length)
    (hlast : server.Remembers size k last) :
    ∃ page last', PlexConnector.getMediaPage reader (server.answer ⟨k * size.1, size⟩)
    ⟨k * size.1, size⟩ last = .ok (page, last') ∧
      server.IsWindow size reader k page ∧ server.Remembers size k last' := by
  have hpos := PageSize.pos size
  have hsucc : (k + 1) * size.1 = k * size.1 + size.1 := Nat.succ_mul k size.1
  have hrows : (server.answer ⟨k * size.1, size⟩).rows = window size.1 k server.rows := rfl
  have hlen : (window size.1 k server.rows).length = min size.1 (server.rows.length - k * size.1) :=
    length_window
  have hitems := List.length_filterMap_le reader.item? (window size.1 k server.rows)
  have hoffset : ¬ (server.answer ⟨k * size.1, size⟩).offset.any (· ≠ k * size.1) = true := by
    unfold answer
    dsimp only
    split <;> simp
  unfold PlexConnector.getMediaPage PlexConnector.page
  rw [hrows]
  dsimp only
  rw [if_neg hoffset, if_neg (by omega), checked_of_lt]
  · dsimp only [bind, Except.bind]
    rw [rememberPage_window hlast items_subset]
    refine ⟨_, _, rfl, ⟨rfl, ?_, ?_⟩, remembers_page items_subset⟩
    · unfold contents
      rw [hconnector]
    · dsimp only
      by_cases hfull : (window size.1 k server.rows).length = size.1
      · rw [if_pos hfull, hfull]
        exact .inl ⟨by rw [hsucc], by omega⟩
      · rw [if_neg hfull]
        exact .inr ⟨rfl, by omega⟩
  · intro next hnext
    dsimp only at hnext ⊢
    split at hnext
    next hfull =>
      cases hnext
      omega
    next => cases hnext

/-- One answer as the connector of Jellyfin reads it. -/
theorem jellyfin_window (hconnector : server.connector = .jellyfin)
    (hk : k * size.1 ≤ server.rows.length) :
    ∃ page, JellyfinConnector.getMediaPage reader (server.answer ⟨k * size.1, size⟩)
    ⟨k * size.1, size⟩ = .ok page ∧
      server.IsWindow size reader k page := by
  have hpos := PageSize.pos size
  have hsucc : (k + 1) * size.1 = k * size.1 + size.1 := Nat.succ_mul k size.1
  have hrows : (server.answer ⟨k * size.1, size⟩).rows = window size.1 k server.rows := rfl
  have htotal : (server.answer ⟨k * size.1, size⟩).totalSize = some server.rows.length := by
    unfold answer
    dsimp only
    rw [hconnector]
  have hlen : (window size.1 k server.rows).length = min size.1 (server.rows.length - k * size.1) :=
    length_window
  unfold JellyfinConnector.getMediaPage
  rw [hrows, htotal]
  dsimp only [Option.getD_some]
  rw [checked_of_lt]
  · refine ⟨_, rfl, rfl, ?_, ?_⟩
    · unfold contents
      rw [hconnector]
    · dsimp only
      by_cases hmore : k * size.1 + (window size.1 k server.rows).length < server.rows.length
      · rw [if_pos hmore]
        exact .inl ⟨by rw [hsucc]; congr 1; omega, by omega⟩
      · rw [if_neg hmore]
        exact .inr ⟨rfl, by omega⟩
  · intro next hnext
    dsimp only at hnext ⊢
    split at hnext
    next hmore =>
      cases hnext
      omega
    next => cases hnext

/-- A request at a window inside the listing gets the window. -/
theorem getMediaPage_window (hk : k * size.1 ≤ server.rows.length)
    (hlast : server.Remembers size k last) :
    ∃ page last', server.getMediaPage reader ⟨k * size.1, size⟩ last = .ok (page, last') ∧
      server.IsWindow size reader k page ∧ server.Remembers size k last' := by
  unfold getMediaPage
  cases hconnector : server.connector with
  | plex => exact plex_window hconnector hk hlast
  | jellyfin =>
    obtain ⟨page, hpage, hwindow⟩ := @jellyfin_window server size reader k hconnector hk
    dsimp only
    rw [hpage]
    exact ⟨page, last, rfl, hwindow, hlast⟩

end MediaServer

namespace PagedStage
variable {server : MediaServer} {size : PageSize} {k : Nat} {s : PagedStage} {page : Page}
  {row : ListedRow}

/-- The row is in the window. -/
def lists (server : MediaServer) (size : PageSize) (row : ListedRow) (k : Nat) : Bool :=
  decide (row.externalId ∈ server.windowIds size k)

/-- The stored cursor stands after `k` windows. -/
def CursorAt (server : MediaServer) (size : PageSize) (k : Nat)
    (checkpoint : Option SyncCheckpoint) : Prop :=
  resumePosition checkpoint = ⟨.media, k * size.1⟩ ∧ k * size.1 ≤ server.rows.length ∨
    resumePosition checkpoint = ⟨.history, 0⟩ ∧ server.rows.length ≤ k * size.1

/-- Where an attempt may stand after `k` committed windows. -/
def PlacedAt (server : MediaServer) (size : PageSize) (k : Nat)
    (checkpoint : Option SyncCheckpoint) : StagePosition → Prop
  | .requesting start => start = k * size.1
  | .writing page issues items session => ∃ reader, server.IsWindow size reader k page ∧
      session.written.issues ++ issues = page.issues ∧ session.written.items ++ items = page.items ∧
        session.checkpoint = checkpoint
  | .committing page session =>
    ∃ reader, server.IsWindow size reader k page ∧ session.written = ⟨page.issues, page.items⟩ ∧
      ∃ now, session.checkpoint = markCheckpoint now (cursorAfter page) checkpoint
  | .left => True

/-- The committed pages are the first `k` windows. -/
structure Inv (server : MediaServer) (size : PageSize) (k : Nat) (s : PagedStage) : Prop where
  pages : ∀ row, s.pages.map (·.processes row) = (List.range k).map (lists server size row)
  cursor : CursorAt server size k s.checkpoint
  memory : server.Remembers size k s.last
  placed : ∀ p, s.position = some p → PlacedAt server size k s.checkpoint p
  stage : ∀ p, s.position = some p → ((resumePosition s.checkpoint).stage = .history ↔ p = .left)

theorem resumePosition_markCheckpoint (now : Time) (cursor : ScanCursor)
    (checkpoint : Option SyncCheckpoint) :
    resumePosition (markCheckpoint now cursor checkpoint) = cursor := by
  unfold resumePosition markCheckpoint
  simp

/-- The cursor of a window stands after it. -/
theorem cursorAt_markCheckpoint {reader : RowReader} (h : server.IsWindow size reader k page)
    (now : Time)
    (checkpoint : Option SyncCheckpoint) :
    CursorAt server size (k + 1) (markCheckpoint now (cursorAfter page) checkpoint) := by
  unfold CursorAt
  rw [resumePosition_markCheckpoint]
  unfold cursorAfter Page.hasMore
  rcases h.next with ⟨hnext, hle⟩ | ⟨hnext, hle⟩
  · rw [hnext]
    exact .inl ⟨rfl, hle⟩
  · rw [hnext]
    exact .inr ⟨rfl, hle⟩

theorem CursorAt.le_of_media (h : CursorAt server size k s.checkpoint)
    (hstage : (resumePosition s.checkpoint).stage = .media) :
    k * size.1 ≤ server.rows.length := by
  rcases h with ⟨-, hle⟩ | ⟨hres, -⟩
  · exact hle
  · rw [hres] at hstage
    cases hstage

theorem Inv.media (h : Inv server size k s) {p : StagePosition} (hp : s.position = some p)
    (hne : p ≠ .left) :
    (resumePosition s.checkpoint).stage = .media := by
  cases hstage : (resumePosition s.checkpoint).stage with
  | media => rfl
  | history => exact absurd ((h.stage p hp).1 hstage) hne

/-! ### Steps -/

theorem Inv.unstarted (checkpoint : Option SyncCheckpoint) :
    Inv server size 0 (unstarted checkpoint) where
  pages _ := rfl
  cursor := by
    refine .inl ⟨?_, by omega⟩
    rw [Nat.zero_mul]
    cases checkpoint with
    | none => rfl
    | some c =>
      unfold PagedStage.unstarted resumePosition
      simp
  memory := MediaServer.remembers_none
  placed _ hp := by cases hp
  stage _ hp := by cases hp

theorem Inv.interrupt (h : Inv server size k s) :
    Inv server size k { s with position := none } where
  pages := h.pages
  cursor := h.cursor
  memory := h.memory
  placed _ hp := by cases hp
  stage _ hp := by cases hp

theorem Inv.begin (h : Inv server size k s) (newConnector : Bool) :
    Inv server size k (s.begin newConnector) where
  pages := h.pages
  cursor := h.cursor
  memory := by
    cases newConnector with
    | false => exact h.memory
    | true => exact MediaServer.remembers_none
  placed p hp := by
    rcases h.cursor with ⟨hres, -⟩ | ⟨hres, -⟩
    all_goals
      unfold PagedStage.begin at hp
      dsimp only at hp
      rw [hres] at hp
      cases hp
    · rfl
    · trivial
  stage p hp := by
    rcases h.cursor with ⟨hres, -⟩ | ⟨hres, -⟩
    all_goals
      unfold PagedStage.begin at hp ⊢
      dsimp only at hp ⊢
      rw [hres] at hp ⊢
      cases hp
    · simp
    · simp

/-- A request is answered. -/
theorem Inv.request (h : Inv server size k s) {start : Nat}
    (hp : s.position = some (.requesting start)) (input : StageInput) :
    Inv server size k (s.advance server size input) ∧
      ∃ page session, (s.advance server size input).position =
        some (.writing page page.issues page.items session) := by
  have hmedia := h.media hp (by simp)
  obtain rfl : start = k * size.1 := h.placed _ hp
  obtain ⟨page, last, hpage, hwindow, hmemory⟩ :=
    @MediaServer.getMediaPage_window server size input.reader k _
      (h.cursor.le_of_media hmedia) h.memory
  have hadvance : s.advance server size input =
      { s with
        position := some (.writing page page.issues page.items { checkpoint := s.checkpoint }),
        last := last } := by
    unfold PagedStage.advance
    rw [hp]
    dsimp only
    rw [hpage]
  rw [hadvance]
  refine ⟨⟨h.pages, h.cursor, hmemory, ?_, ?_⟩, page, _, rfl⟩
  · rintro p ⟨⟩
    exact ⟨input.reader, hwindow, rfl, rfl, rfl⟩
  · rintro p ⟨⟩
    simp [hmedia]

/-- A write stays in the session. -/
theorem Inv.write (h : Inv server size k s) {issues : List PageIssue}
    {items : List ExternalMediaItem} {session : PageSession}
    (hp : s.position = some (.writing page issues items session)) (input : StageInput) :
    Inv server size k (s.advance server size input) := by
  have hmedia := h.media hp (by simp)
  obtain ⟨reader, hwindow, hissues, hitems, hcheckpoint⟩ := h.placed _ hp
  unfold PagedStage.advance
  rw [hp]
  rcases issues with - | ⟨issue, issues⟩
  · rcases items with - | ⟨item, items⟩
    · refine ⟨h.pages, h.cursor, h.memory, ?_, ?_⟩
      · rintro p ⟨⟩
        rw [List.append_nil] at hissues hitems
        exact ⟨reader, hwindow, by rw [← hissues, ← hitems], input.now, by rw [← hcheckpoint]⟩
      · rintro p ⟨⟩
        simp [hmedia]
    · refine ⟨h.pages, h.cursor, h.memory, ?_, ?_⟩
      · rintro p ⟨⟩
        exact ⟨reader, hwindow, hissues, by simpa using hitems, hcheckpoint⟩
      · rintro p ⟨⟩
        simp [hmedia]
  · refine ⟨h.pages, h.cursor, h.memory, ?_, ?_⟩
    · rintro p ⟨⟩
      exact ⟨reader, hwindow, by simpa using hissues, hitems, hcheckpoint⟩
    · rintro p ⟨⟩
      simp [hmedia]

theorem processes_window {reader : RowReader} (h : server.IsWindow size reader k page)
    (row : ListedRow) :
    StoredPage.processes ⟨page.issues, page.items⟩ row = lists server size row k := by
  rw [h.items, h.issues]
  refine Bool.eq_iff_iff.2 ?_
  unfold lists
  rw [decide_eq_true_iff, MediaServer.windowIds_eq]
  exact MediaServer.processes_contents

/-- A commit adds the next window. -/
theorem Inv.commit (h : Inv server size k s) {session : PageSession}
    (hp : s.position = some (.committing page session))
    (input : StageInput) : Inv server size (k + 1) (s.advance server size input) := by
  obtain ⟨reader, hwindow, hwritten, now, hcheckpoint⟩ := h.placed _ hp
  have hcursor := cursorAt_markCheckpoint hwindow now s.checkpoint
  have hstage : (resumePosition session.checkpoint).stage =
      if page.hasMore then .media else .history := by
    rw [hcheckpoint, resumePosition_markCheckpoint]
    rfl
  unfold PagedStage.advance
  rw [hp]
  refine ⟨fun row => ?_, ?_, h.memory.mono (by omega), ?_, ?_⟩
  · dsimp only
    rw [List.map_append, h.pages, List.range_succ, List.map_append, List.map_singleton,
      List.map_singleton, hwritten,
      processes_window hwindow]
  · dsimp only
    rw [hcheckpoint]
    exact hcursor
  · rintro p ⟨⟩
    unfold Page.hasMore
    rcases hwindow.next with ⟨hnext, -⟩ | ⟨hnext, -⟩
    · rw [hnext]
      rfl
    · rw [hnext]
      trivial
  · rintro p ⟨⟩
    dsimp only
    rw [hstage]
    cases page.hasMore <;> simp

theorem Inv.advance (h : Inv server size k s) (input : StageInput) :
    ∃ k, Inv server size k (s.advance server size input) := by
  rcases hp : s.position with - | ⟨start⟩ | ⟨page, issues, items, session⟩ | ⟨page, session⟩ | -
  · unfold PagedStage.advance
    rw [hp]
    exact ⟨k, h⟩
  · exact ⟨k, (h.request hp input).1⟩
  · exact ⟨k, h.write hp input⟩
  · exact ⟨k + 1, h.commit hp input⟩
  · unfold PagedStage.advance
    rw [hp]
    exact ⟨k, h⟩

theorem Inv.step (h : Inv server size k s) (e : StageEvent) :
    ∃ k, Inv server size k (s.step server size e) := by
  cases e with
  | begin newConnector =>
    unfold PagedStage.step
    dsimp only
    split
    · exact ⟨k, h.begin newConnector⟩
    · exact ⟨k, h⟩
  | advance input => exact h.advance input
  | interrupt => exact ⟨k, h.interrupt⟩

theorem inv_foldl (checkpoint : Option SyncCheckpoint) (es : List StageEvent) :
    ∃ k, Inv server size k
      (es.foldl (PagedStage.step server size) (PagedStage.unstarted checkpoint)) := by
  have hstart : ∃ k, Inv server size k (PagedStage.unstarted checkpoint) :=
    ⟨0, Inv.unstarted checkpoint⟩
  revert hstart
  generalize PagedStage.unstarted checkpoint = s
  induction es generalizing s with
  | nil => exact id
  | cons e es ih =>
    rintro ⟨k, h⟩
    exact ih _ (h.step e)

/-- Whatever the clock and the rows say, the attempt leaves the stage. -/
abbrev Leaves (server : MediaServer) (size : PageSize) : PagedStage → Prop :=
  Inevitable (fun s input => PagedStage.advance server size input s) fun s =>
    s.position = some .left

/-- The writes of a page lead to its commit. -/
theorem leaves_of_writing (hcommit : ∀ s, Inv server size k s →
      (∃ session, s.position = some (.committing page session)) → Leaves server size s)
    (issues : List PageIssue) (items : List ExternalMediaItem) :
    ∀ s, Inv server size k s → (∃ session, s.position = some (.writing page issues items session)) →
    Leaves server size s := by
  induction issues with
  | nil =>
    induction items with
    | nil =>
      rintro s h ⟨session, hp⟩
      refine .next fun input => hcommit _ (h.write hp input) ?_
      unfold PagedStage.advance
      rw [hp]
      exact ⟨_, rfl⟩
    | cons item items ih =>
      rintro s h ⟨session, hp⟩
      refine .next fun input => ih _ (h.write hp input) ?_
      unfold PagedStage.advance
      rw [hp]
      exact ⟨_, rfl⟩
  | cons issue issues ih =>
    rintro s h ⟨session, hp⟩
    refine .next fun input => ih _ (h.write hp input) ?_
    unfold PagedStage.advance
    rw [hp]
    exact ⟨_, rfl⟩

theorem leaves_of_committing
    (hrequest : ∀ s start, Inv server size (k + 1) s → s.position = some (.requesting start) →
      Leaves server size s)
    (h : Inv server size k s) {session : PageSession}
    (hp : s.position = some (.committing page session)) :
    Leaves server size s := by
  refine .next fun input => ?_
  have hnext := h.commit hp input
  have hadvance : (s.advance server size input).position =
      some (if page.hasMore then .requesting (page.nextStart.getD 0) else .left) := by
    unfold PagedStage.advance
    rw [hp]
  by_cases hmore : page.hasMore = true
  · rw [if_pos hmore] at hadvance
    exact hrequest _ _ hnext hadvance
  · rw [if_neg hmore] at hadvance
    exact .here hadvance

/-- By induction on what of the listing comes after the window. -/
theorem leaves_of_requesting (rest : Nat) : ∀ k, server.rows.length + 1 - k * size.1 ≤ rest →
    ∀ s start, Inv server size k s →
    s.position = some (.requesting start) → Leaves server size s := by
  induction rest with
  | zero =>
    intro k hrest s start h hp
    have hle := h.cursor.le_of_media (h.media hp (by simp))
    omega
  | succ rest ih =>
    intro k hrest s start h hp
    have hle := h.cursor.le_of_media (h.media hp (by simp))
    have hpos := MediaServer.PageSize.pos size
    have hsucc : (k + 1) * size.1 = k * size.1 + size.1 := Nat.succ_mul k size.1
    refine .next fun input => ?_
    obtain ⟨hwriting, page, session, hposition⟩ := h.request hp input
    exact leaves_of_writing (fun _ h ⟨_, hp⟩ => leaves_of_committing (ih (k + 1) (by omega)) h hp) _
      _ _ hwriting ⟨_, hposition⟩

theorem Inv.leaves (h : Inv server size k s) (hp : s.position ≠ none) : Leaves server size s := by
  have hrequest : ∀ k s start, Inv server size k s → s.position = some (.requesting start) →
      Leaves server size s :=
    fun k => leaves_of_requesting _ k (le_refl _)
  rcases hposition :
    s.position with - | ⟨start⟩ | ⟨page, issues, items, session⟩ | ⟨page, session⟩ | -
  · exact absurd hposition hp
  · exact hrequest k s start h hposition
  · exact leaves_of_writing (fun _ h ⟨_, hp⟩ => leaves_of_committing (hrequest (k + 1)) h hp) _ _ _
      h ⟨_, hposition⟩
  · exact leaves_of_committing (hrequest (k + 1)) h hposition
  · exact .here hposition

/-! ### What the pages cover -/

/-- A listed row is in one of the first `k` windows if it comes before their end. -/
theorem Inv.countP_pages (h : Inv server size k s) {i : Nat} (hi : i < server.rows.length) :
    s.pages.countP (·.processes server.rows[i]) = if i < k * size.1 then 1 else 0 := by
  have hmap := h.pages server.rows[i]
  have hi' : i < (server.rows.map (·.externalId)).length := by simpa using hi
  have hcount : s.pages.countP (·.processes server.rows[i]) =
      (List.range k).countP (lists server size server.rows[i]) := by
    have := congrArg (List.countP id) hmap
    rw [List.countP_map, List.countP_map] at this
    exact this
  rw [hcount]
  refine countP_windows server.nodup (MediaServer.PageSize.pos size) hi' fun j => ?_
  unfold lists MediaServer.windowIds
  rw [decide_eq_true_iff, List.getElem_map]

theorem Inv.any_pages (h : Inv server size k s) {i : Nat} (hi : i < server.rows.length) :
    s.pages.any (·.processes server.rows[i]) = true ↔ i < k * size.1 := by
  rw [List.any_eq_true, ← List.countP_pos_iff, h.countP_pages hi]
  split <;> omega

theorem Inv.start_eq (h : Inv server size k s)
    (hstage : (resumePosition s.checkpoint).stage = .media) :
    (resumePosition s.checkpoint).start = server.rows.countP fun row =>
      s.pages.any (·.processes row) := by
  have hle := h.cursor.le_of_media hstage
  rw [countP_of_index (fun i hi => h.any_pages hi) hle]
  rcases h.cursor with ⟨hres, -⟩ | ⟨hres, -⟩
  · rw [hres]
  · rw [hres] at hstage
    cases hstage

theorem Inv.processed_once (h : Inv server size k s)
    (hstage : (resumePosition s.checkpoint).stage = .history) :
    ∀ row ∈ server.rows, s.pages.countP (·.processes row) = 1 := by
  intro row hrow
  obtain ⟨i, hi, rfl⟩ := List.mem_iff_getElem.1 hrow
  rw [h.countP_pages hi, if_pos]
  rcases h.cursor with ⟨hres, -⟩ | ⟨-, hle⟩
  · rw [hres] at hstage
    cases hstage
  · omega

/-- The pages and the stored checkpoint change in one step, the commit of a page that is written as
a whole. -/
theorem Inv.step_commits (h : Inv server size k s) (e : StageEvent) :
    (s.step server size e).pages = s.pages ∧ (s.step server size e).checkpoint = s.checkpoint ∨
      ∃ page session now, s.position = some (.committing page session) ∧
        (s.step server size e).pages = s.pages ++ [⟨page.issues, page.items⟩] ∧
        (s.step server size e).checkpoint = markCheckpoint now (cursorAfter page) s.checkpoint := by
  cases e with
  | begin newConnector =>
    unfold PagedStage.step
    dsimp only
    split
    · exact .inl ⟨rfl, rfl⟩
    · exact .inl ⟨rfl, rfl⟩
  | interrupt => exact .inl ⟨rfl, rfl⟩
  | advance input =>
    unfold PagedStage.step PagedStage.advance
    dsimp only
    rcases hp : s.position with - | ⟨start⟩ | ⟨page, - | ⟨issue, issues⟩, - | ⟨item, items⟩,
      session⟩ | ⟨page, session⟩ | -
    case some.requesting =>
      dsimp only
      split
      · exact .inl ⟨rfl, rfl⟩
      · exact .inl ⟨rfl, rfl⟩
    case some.committing =>
      obtain ⟨-, -, hwritten, now, hcheckpoint⟩ := h.placed _ hp
      refine .inr ⟨page, session, now, rfl, ?_, hcheckpoint⟩
      dsimp only
      rw [hwritten]
    all_goals exact .inl ⟨rfl, rfl⟩

/-- After any attempts and interruptions, an attempt that goes on leaves the stage; while the stage
lasts the stored cursor is the number of processed rows, and when it is left each row is processed
by one committed page. A page is committed together with its cursor. -/
theorem covers (server : MediaServer) (size : PageSize) (checkpoint : Option SyncCheckpoint)
    (es : List StageEvent) :
    let s := es.foldl (step server size) (unstarted checkpoint)
    (s.position ≠ none → ∀ inputs : Nat → StageInput,
      ∃ m, (((List.range m).map inputs).foldl (fun s input => s.advance server size input)
        s).position = some .left) ∧
    ((resumePosition s.checkpoint).stage = .media →
      (resumePosition s.checkpoint).start = server.rows.countP fun row =>
        s.pages.any (·.processes row)) ∧
    (s.position = some .left → (resumePosition s.checkpoint).stage = .history) ∧
    ((resumePosition s.checkpoint).stage = .history → ∀ row ∈ server.rows,
      s.pages.countP (·.processes row) = 1) ∧
    ∀ e, (s.step server size e).pages = s.pages ∧ (s.step server size e).checkpoint = s.checkpoint ∨
      ∃ page session now, s.position = some (.committing page session) ∧
        (s.step server size e).pages = s.pages ++ [⟨page.issues, page.items⟩] ∧
        (s.step server size e).checkpoint = markCheckpoint now (cursorAfter page) s.checkpoint := by
  intro s
  obtain ⟨k, h⟩ : ∃ k, Inv server size k s := inv_foldl checkpoint es
  refine ⟨fun hp inputs => (h.leaves hp).exists_run inputs, h.start_eq, ?_, h.processed_once,
    h.step_commits⟩
  exact fun hp => (h.stage _ hp).2 rfl

end PagedStage

end Euvieouvi
