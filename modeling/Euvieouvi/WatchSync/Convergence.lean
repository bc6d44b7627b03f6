import Euvieouvi.WatchSync.Delivery
import Euvieouvi.WatchSync.Prepare

/-!
# A second propagation

What a propagation of which every call succeeds leaves to a second full scan in the same direction.
The candidates of a scan are about distinct groups, so each state that is written says what its
candidate told the server (`Told`), and every other state is as it was. Who was told a completion
knows it. Who was told a resume position may know a later one from an item without an available
reference, and a scan in both directions also takes an equal position for a reason to tell Plex
(`converges_iff`).
-/

namespace Euvieouvi

open Database

theorem foldl_max_le_iff {l : List Nat} {a n : Nat} :
    l.foldl max a ≤ n ↔ a ≤ n ∧ ∀ x ∈ l, x ≤ n := by
  induction l generalizing a with
  | nil => simp
  | cons x l ih => rw [List.foldl_cons, ih, List.forall_mem_cons, max_le_iff, and_assoc]

/-! ### What is written to a state -/

/-- The state says what the candidate told its server. -/
structure WatchState.Says (c : WatchSyncCandidate) (s : WatchState) : Prop where
  completed : s.completed = c.completed
  progressMs : c.completed = false → s.progressMs = c.progressMs

namespace Database
variable {db db' : Database} {now : Time} {c : WatchSyncCandidate} {cs : List WatchSyncCandidate}
  {k k' : Nat × Nat}

theorem says_assign {s : WatchState} (hs : c.completed = false → s.completed = false) :
    (c.assign now s).Says c := by
  unfold WatchSyncCandidate.assign
  dsimp only
  split
  next hc => exact ⟨hc.symm, fun h => absurd (hc.symm.trans h) (by decide)⟩
  next hc =>
    have hopen := hs (by simpa using hc)
    rw [if_neg (by simp [hopen])]
    exact ⟨by simpa [hopen] using hc, fun _ => rfl⟩

theorem says_assignAll {s : WatchState} (hcs : ∀ c' ∈ cs, c' = c) (hs : s.Says c) :
    (WatchSyncCandidate.assignAll now cs s).Says c := by
  induction cs generalizing s with
  | nil => exact hs
  | cons c' cs ih =>
    obtain rfl := hcs c' List.mem_cons_self
    refine ih (fun d hd => hcs d (List.mem_cons_of_mem _ hd)) (s := c'.assign now s)
      (says_assign fun h => ?_)
    rw [hs.completed, h]

/-- The candidate is in the catalog. -/
def Told (c : WatchSyncCandidate) (k : Nat × Nat) (db : Database) : Prop :=
  ∃ s, db.watchStates.get? k = some s ∧ s.Says c

/-- The candidate tells nothing that the state excludes. -/
def Open (c : WatchSyncCandidate) (k : Nat × Nat) (db : Database) : Prop :=
  c.completed = false → ∀ s, db.watchStates.get? k = some s → s.completed = false

theorem Told.open (h : Told c k db) : Open c k db := by
  obtain ⟨s, hs, htells⟩ := h
  intro hc s' hs'
  obtain rfl : s = s' := Option.some_inj.1 (hs.symm.trans hs')
  rw [htells.completed, hc]

theorem get?_recordState_of_ne (hk : k ≠ k') :
    (recordState now cs db k').watchStates.get? k = db.watchStates.get? k := by
  unfold recordState
  split
  next c rest hnone htouch =>
    rw [watchStates_insertWatchState, Table.get?_insert_ne]
    have hc : c ∈ cs.filter fun c => k' ∈ c.keys := by rw [htouch]; exact List.mem_cons_self
    have hkey := (WatchSyncCandidate.assignAll now rest).key_apply (c.newState now k'.1)
    rw [hkey, key_newState (by simpa using (List.mem_filter.1 hc).2)]
    exact hk.symm
  next =>
    rw [get?_saveWatchState]
    cases hs : db.watchStates.get? k with
    | none => rfl
    | some s =>
      have hkey : s.key = k := Table.key_of_get? hs
      simp [hkey, hk]

theorem get?_foldl_recordState {keys : List (Nat × Nat)} (hk : k ∉ keys) :
    (keys.foldl (recordState now cs) db).watchStates.get? k = db.watchStates.get? k := by
  induction keys generalizing db with
  | nil => rfl
  | cons k' keys ih =>
    rw [List.mem_cons, not_or] at hk
    exact (ih hk.2).trans (get?_recordState_of_ne hk.1)

/-- What no candidate of a batch is about stays. -/
theorem get?_recordSuccesses (hk : ∀ c ∈ cs, k ∉ c.keys) :
    (db.recordSuccesses now cs).watchStates.get? k = db.watchStates.get? k := by
  refine get?_foldl_recordState fun hmem => ?_
  obtain ⟨c, hc, hkc⟩ := List.mem_flatMap.1 (List.mem_dedup.1 hmem)
  exact hk c hc hkc

theorem told_recordState (hc : c ∈ cs) (hk : k ∈ c.keys) (hcs : ∀ c' ∈ cs, k ∈ c'.keys → c' = c)
    (hopen : Open c k db) :
    Told c k (recordState now cs db k) := by
  have hmem : c ∈ cs.filter fun c => k ∈ c.keys := List.mem_filter.2 ⟨hc, by simpa using hk⟩
  have hall : ∀ c' ∈ cs.filter fun c => k ∈ c.keys, c' = c := by
    intro c' hc'
    obtain ⟨hc', hk'⟩ := List.mem_filter.1 hc'
    exact hcs c' hc' (by simpa using hk')
  unfold recordState Told
  generalize (cs.filter fun c => k ∈ c.keys) = touching at hmem hall ⊢
  obtain ⟨first, rest, rfl⟩ := List.exists_cons_of_ne_nil (List.ne_nil_of_mem hmem)
  obtain rfl := hall first List.mem_cons_self
  have hrest : ∀ c' ∈ rest, c' = first := fun c' hc' => hall c' (List.mem_cons_of_mem _ hc')
  cases hs : db.watchStates.get? k with
  | none =>
    have hnew : (WatchSyncCandidate.assignAll now rest (first.newState now k.1)).key = k :=
      ((WatchSyncCandidate.assignAll now rest).key_apply _).trans (key_newState hk)
    have htells : (WatchSyncCandidate.assignAll now rest (first.newState now k.1)).Says first :=
      says_assignAll hrest ⟨rfl, fun _ => rfl⟩
    refine ⟨_, ?_, htells⟩
    rw [watchStates_insertWatchState]
    nth_rewrite 2 [← hnew]
    exact Table.get?_insert_self (by rw [hnew]; exact hs)
  | some s =>
    have htells : (WatchSyncCandidate.assignAll now (first :: rest) s).Says first :=
      @says_assignAll _ first rest _ hrest (says_assign fun h => hopen h s hs)
    rw [get?_saveWatchState, hs]
    refine ⟨_, rfl, ?_⟩
    dsimp only
    split
    · exact ⟨htells.completed, htells.progressMs⟩
    next hsame =>
      rw [not_and_not_right.1 hsame (Table.key_of_get? hs)] at htells
      exact htells

/-- A batch in which only the candidate is about the key. -/
theorem told_recordSuccesses (hc : c ∈ cs) (hk : k ∈ c.keys) (hcs : ∀ c' ∈ cs, k ∈ c'.keys → c' = c)
    (hopen : Open c k db) :
    Told c k (db.recordSuccesses now cs) := by
  have hmem : k ∈ (cs.flatMap WatchSyncCandidate.keys).dedup :=
    List.mem_dedup.2 (List.mem_flatMap.2 ⟨c, hc, hk⟩)
  have hnodup := List.nodup_dedup (cs.flatMap WatchSyncCandidate.keys)
  unfold recordSuccesses
  obtain ⟨before, after, hsplit⟩ := List.append_of_mem hmem
  rw [hsplit] at hnodup ⊢
  have hbefore : k ∉ before :=
    fun h => (List.nodup_append.1 hnodup).2.2 k h k List.mem_cons_self rfl
  have hafter : k ∉ after := (List.nodup_cons.1 (List.nodup_append.1 hnodup).2.1).1
  rw [List.foldl_append, List.foldl_cons]
  have htold : Told c k (recordState now cs (before.foldl (recordState now cs) db) k) := by
    refine told_recordState hc hk hcs fun h s hs => hopen h s ?_
    rwa [get?_foldl_recordState hbefore] at hs
  obtain ⟨s, hs, htells⟩ := htold
  exact ⟨s, (get?_foldl_recordState hafter).trans hs, htells⟩

/-! ### The batches of a run -/

/-- The transactions of `_record_successes`, one after the other. -/
def recordBatches (batches : List (Time × List WatchSyncCandidate)) (db : Database) : Database :=
  batches.foldl (fun db batch => db.recordSuccesses batch.1 batch.2) db

theorem get?_recordBatches {batches : List (Time × List WatchSyncCandidate)}
    (hk : ∀ c ∈ batches.flatMap Prod.snd, k ∉ c.keys) :
    (db.recordBatches batches).watchStates.get? k = db.watchStates.get? k := by
  induction batches generalizing db with
  | nil => rfl
  | cons batch batches ih =>
    rw [List.flatMap_cons, List.forall_mem_append] at hk
    exact (ih hk.2).trans (get?_recordSuccesses hk.1)

theorem told_recordBatches {batches : List (Time × List WatchSyncCandidate)} (hk : k ∈ c.keys)
    (hcs : ∀ c' ∈ batches.flatMap Prod.snd, k ∈ c'.keys → c' = c)
    (h : Told c k db ∨ c ∈ batches.flatMap Prod.snd ∧ Open c k db) :
    Told c k (db.recordBatches batches) := by
  induction batches generalizing db with
  | nil =>
    rcases h with h | ⟨h, -⟩
    · exact h
    · cases h
  | cons batch batches ih =>
    rw [List.flatMap_cons] at hcs h
    rw [List.forall_mem_append] at hcs
    refine ih hcs.2 ?_
    have hopen : Open c k db := by
      rcases h with h | ⟨-, h⟩
      exacts [h.open, h]
    by_cases hc : c ∈ batch.2
    · exact .inl (told_recordSuccesses hc hk hcs.1 hopen)
    -- nothing of this batch is about the key
    · have hsame : (db.recordSuccesses batch.1 batch.2).watchStates.get? k =
          db.watchStates.get? k :=
        get?_recordSuccesses fun c' hc' hk' => hc (hcs.1 c' hc' hk' ▸ hc')
      rcases h with ⟨s, hs, htells⟩ | ⟨hmem, -⟩
      · exact .inl ⟨s, hsame.trans hs, htells⟩
      · refine .inr ⟨(List.mem_append.1 hmem).resolve_left hc, fun h s hs => hopen h s ?_⟩
        rwa [hsame] at hs

end Database

namespace WatchSyncRun
variable {db : Database} {s : WatchSyncRun} {c : WatchSyncCandidate}

/-- What is written and what waits are the candidates so far. -/
def Batched (db : Database) (cs : List WatchSyncCandidate) (s : WatchSyncRun) : Prop :=
  s.ended = none ∧ ∃ batches, s.db = db.recordBatches batches ∧
    batches.flatMap Prod.snd ++ s.pending.map Prod.snd = cs

theorem Batched.record {cs : List WatchSyncCandidate} (h : Batched db cs s) (now : Time) :
    Batched db cs (s.record now) := by
  obtain ⟨hended, batches, hdb, hcs⟩ := h
  refine ⟨hended, batches ++ [(now, s.pending.map Prod.snd)], ?_, ?_⟩
  · show s.db.recordSuccesses now _ = _
    unfold recordBatches
    rw [List.foldl_append, hdb]
    rfl
  · rw [← hcs]
    simp [WatchSyncRun.record]

theorem deliver_successful (now : Time) (ts : List WatchSyncTarget) (i : Nat) (d : Delivery) :
    ({ recordedAt := now } : Handling).deliver c ts i d =
      { d with
        called := d.called + if c.completed || c.progressMs.isSome then ts.length else 0
        successful := d.successful + ts.length } := by
  induction ts generalizing i d with
  | nil => simp [Handling.deliver]
  | cons t ts ih =>
    unfold Handling.deliver
    split
    next hcalls => simp [ih, hcalls]; omega
    next hcalls => simp [ih, hcalls]; omega

theorem Batched.step {cs : List WatchSyncCandidate} (h : Batched db cs s) (hc : c.targets ≠ [])
    (now : Time) :
    Batched db (cs ++ [c]) (s.step (c, { recordedAt := now })) := by
  obtain ⟨hended, batches, hdb, hcs⟩ := h
  have hdelivered : s.deliver c { recordedAt := now } = _ :=
    deliver_successful now c.targets 0 { db := s.db }
  have hfailed : (s.deliver c { recordedAt := now }).failed = false := by
    rw [hdelivered]
    have := List.length_pos_of_ne_nil hc
    simp only [Delivery.failed, Bool.false_or, beq_eq_false_iff_ne, ne_eq]
    omega
  have hsucceeded : Batched db (cs ++ [c]) (s.succeed (s.deliver c { recordedAt := now }) c) := by
    refine ⟨hended, batches, ?_, ?_⟩
    · rw [hdelivered]; exact hdb
    · rw [← hcs]
      simp [succeed, receive]
  dsimp only [WatchSyncRun.step]
  rw [hended, if_neg (by decide), if_neg (by decide), hfailed, if_neg (by decide)]
  split
  · exact hsucceeded.record now
  · exact hsucceeded

/-- A run of which every call succeeds, with the clock at each transaction. -/
def successful (clock : Nat → Time) (cs : List WatchSyncCandidate) (db : Database) : WatchSyncRun :=
  run false db
    (cs.zipIdx.map fun x => (x.1, { recordedAt := clock x.2 })) { recordedAt := clock cs.length }

/-- Such a run writes all its candidates, batch by batch. -/
theorem successful_db (clock : Nat → Time) {cs : List WatchSyncCandidate}
    (hcs : ∀ c ∈ cs, c.targets ≠ []) (db : Database) :
    ∃ batches, batches.flatMap Prod.snd = cs ∧
    (successful clock cs db).db = db.recordBatches batches := by
  have hloop : ∀ (rest done : List WatchSyncCandidate) (i : Nat) (s : WatchSyncRun),
      (∀ c ∈ rest, c.targets ≠ []) → Batched db done s →
      Batched db (done ++ rest) (((rest.zipIdx i).map fun x =>
        (x.1, ({ recordedAt := clock x.2 } : Handling))).foldl WatchSyncRun.step s) := by
    intro rest
    induction rest with
    | nil => intro done i s _ hs; simpa using hs
    | cons c rest ih =>
      intro done i s hrest hs
      have h := ih (done ++ [c]) (i + 1) _ (fun d hd => hrest d (List.mem_cons_of_mem _ hd))
        (hs.step (hrest c List.mem_cons_self) (clock i))
      simpa using h
  have hstart : Batched db [] (start false db) := ⟨rfl, [], rfl, rfl⟩
  have hloop := hloop cs [] 0 _ hcs hstart
  unfold successful run finish
  rw [hloop.1, if_neg (by decide)]
  split
  next hpending =>
    obtain ⟨-, batches, hdb, hflat⟩ := hloop
    rw [hpending] at hflat
    exact ⟨batches, by simpa using hflat, hdb⟩
  next =>
    obtain ⟨-, batches, hdb, hflat⟩ := hloop.record (clock cs.length)
    exact ⟨batches, by simpa [WatchSyncRun.record] using hflat, hdb⟩

end WatchSyncRun

namespace Database
variable {db db' db'' : Database} {pair : WatchPair} {direction : Direction}
  {scope : Option (List Nat)} {group : List Nat} {item : Nat}
  {type : ConnectorType} {d : PropagationDecision} {c : WatchSyncCandidate}

/-- Nothing was written but watch states, and what the triggers note of them. -/
structure StatesWritten (db db' : Database) : Prop where
  frame : Frame [.watchStates, .dirtyItems] db db'
  plexUser : db'.plexUserSetting = db.plexUserSetting

namespace StatesWritten

theorem refl (db : Database) : StatesWritten db db := ⟨.refl db, rfl⟩

theorem trans (h : StatesWritten db db') (h' : StatesWritten db' db'') : StatesWritten db db'' :=
  ⟨h.frame.trans h'.frame, h'.plexUser.trans h.plexUser⟩

theorem plexUserSetting_activityTrigger (items : List Nat) (db : Database) :
    (db.activityTrigger items).plexUserSetting = db.plexUserSetting := by
  cases items <;> rfl

theorem recordState (now : Time) (cs : List WatchSyncCandidate) (k : Nat × Nat) :
    StatesWritten db (recordState now cs db k) := by
  refine ⟨recordState_frame now cs db k, ?_⟩
  unfold Database.recordState
  split
  · unfold insertWatchState
    split
    · rfl
    · exact plexUserSetting_activityTrigger _ _
  · exact plexUserSetting_activityTrigger _ _

theorem recordSuccesses (now : Time) (cs : List WatchSyncCandidate) :
    StatesWritten db (db.recordSuccesses now cs) := by
  unfold Database.recordSuccesses
  generalize (cs.flatMap WatchSyncCandidate.keys).dedup = keys
  induction keys generalizing db with
  | nil => exact .refl db
  | cons k keys ih => exact (recordState now cs k).trans ih

theorem recordBatches (batches : List (Time × List WatchSyncCandidate)) :
    StatesWritten db (db.recordBatches batches) := by
  unfold Database.recordBatches
  induction batches generalizing db with
  | nil => exact .refl db
  | cons batch batches ih => exact (recordSuccesses batch.1 batch.2).trans ih

theorem pair? (h : StatesWritten db db') (service : WatchSyncService) :
    service.pair? db' = service.pair? db := by
  have hsources : db'.sources = db.sources := h.frame .sources (by decide)
  have henabled : ∀ type, db'.enabledSource type = db.enabledSource type := by
    intro type
    unfold enabledSource
    rw [hsources]
  unfold WatchSyncService.pair?
  simp only [henabled, h.plexUser]

theorem scannedRefs (h : StatesWritten db db') :
    db'.scannedRefs pair scope = db.scannedRefs pair scope := by
  have hrefs : db'.sourceMediaRefs = db.sourceMediaRefs := h.frame .sourceMediaRefs (by decide)
  unfold Database.scannedRefs
  rw [hrefs]

theorem groupRefs (h : StatesWritten db db') :
    db'.groupRefs pair scope group type = db.groupRefs pair scope group type := by
  unfold Database.groupRefs
  rw [h.scannedRefs]

theorem matchingItemGroups (h : StatesWritten db db') (items : List Nat) :
    db'.matchingItemGroups items = db.matchingItemGroups items := by
  refine matchingItemGroups_congr ?_ items
  have hitems : db'.mediaItems = db.mediaItems := h.frame .mediaItems (by decide)
  have hsources : db'.sources = db.sources := h.frame .sources (by decide)
  have hrefs : db'.sourceMediaRefs = db.sourceMediaRefs := h.frame .sourceMediaRefs (by decide)
  have hpaths : db'.mediaFilePaths = db.mediaFilePaths := h.frame .mediaFilePaths (by decide)
  have hids : db'.mediaIdentifiers = db.mediaIdentifiers := h.frame .mediaIdentifiers (by decide)
  unfold identityRows
  rw [hitems, hsources, hrefs, hpaths, hids]

theorem scannedGroups (h : StatesWritten db db') :
    db'.scannedGroups pair scope = db.scannedGroups pair scope := by
  unfold Database.scannedGroups scannedItems
  simp only [h.scannedRefs, h.matchingItemGroups, h.groupRefs]

end StatesWritten

/-- The server has an available reference of the item, which the scan of the group has read. -/
def Referenced (db : Database) (pair : WatchPair) (group : List Nat) (type : ConnectorType)
    (item : Nat) : Prop :=
  ∃ r ∈ db.groupRefs pair none group type, r.mediaItemId = item

instance (db : Database) (pair : WatchPair) (group : List Nat) (type : ConnectorType) (item : Nat) :
    Decidable (db.Referenced pair group type item) := by
  unfold Referenced; infer_instance

theorem mem_keys_candidate {k : Nat × Nat} :
    k ∈ (db.candidate pair none group d).keys ↔ db.Referenced pair group d.target k.1 ∧
    k.2 = pair.id d.target := by
  unfold WatchSyncCandidate.keys candidate Referenced
  simp only [List.mem_map, List.mem_mergeSort, exists_exists_and_eq_and]
  constructor
  · rintro ⟨r, hr, rfl⟩
    exact ⟨⟨r, hr, rfl⟩, rfl⟩
  · rintro ⟨⟨r, hr, hi⟩, hs⟩
    exact ⟨r, hr, Prod.ext hi hs.symm⟩

theorem Referenced.mem (h : db.Referenced pair group type item) : item ∈ group := by
  obtain ⟨r, hr, rfl⟩ := h
  have := (List.mem_filter.1 hr).2
  simp only [Bool.and_eq_true, List.contains_iff_mem] at this
  exact this.2

/-- A scanned group is known to both servers. -/
theorem exists_referenced (hg : group ∈ db.scannedGroups pair none) (type : ConnectorType) :
    ∃ item, db.Referenced pair group type item := by
  have hboth := (List.mem_filter.1 hg).2
  simp only [Bool.and_eq_true, Bool.not_eq_true', List.isEmpty_eq_false_iff] at hboth
  have hne : db.groupRefs pair none group type ≠ [] := by
    cases type with
    | plex => exact hboth.1
    | jellyfin => exact hboth.2
  obtain ⟨r, hr⟩ := List.exists_mem_of_ne_nil _ hne
  exact ⟨r.mediaItemId, r, hr, rfl⟩

theorem WatchPair.id_injective (hids : pair.id .plex ≠ pair.id .jellyfin) :
    Function.Injective pair.id := by
  intro t t' h
  cases t <;> cases t'
  exacts [rfl, absurd h hids, absurd h.symm hids, rfl]

/-- The candidates that are about an item on a server come from its group. -/
theorem candidate_of_key (hids : pair.id .plex ≠ pair.id .jellyfin)
    (hg : group ∈ db.scannedGroups pair none) (hi : item ∈ group)
    (hc : c ∈ (db.prepareIn pair direction none).candidates) (hk : (item, pair.id type) ∈ c.keys) :
    ∃ d, db.groupDecision pair direction group = some d ∧ c = db.candidate pair none group d ∧
    d.target = type ∧
      db.Referenced pair group type item := by
  obtain ⟨group', hg', d, hd, rfl⟩ := mem_candidates.1 hc
  obtain ⟨hreferenced, hsource⟩ := mem_keys_candidate.1 hk
  obtain rfl := matchingItemGroups_disjoint (List.mem_filter.1 hg).1
    (List.mem_filter.1 hg').1 hi hreferenced.mem
  obtain rfl := WatchPair.id_injective hids hsource
  exact ⟨d, hd, rfl, rfl, hreferenced⟩

/-- Each candidate of the scan is in the catalog, and no other state was written. -/
structure Propagated (pair : WatchPair) (direction : Direction) (db db' : Database) : Prop where
  written : StatesWritten db db'
  told : ∀ c ∈ (db.prepareIn pair direction none).candidates, ∀ k ∈ c.keys, Told c k db'
  kept : ∀ k, (∀ c ∈ (db.prepareIn pair direction none).candidates, k ∉ c.keys) →
    db'.watchStates.get? k = db.watchStates.get? k

theorem propagated (hids : pair.id .plex ≠ pair.id .jellyfin) (clock : Nat → Time) :
    Propagated pair direction db
      (WatchSyncRun.successful clock (db.prepareIn pair direction none).candidates db).db := by
  have htargets : ∀ c ∈ (db.prepareIn pair direction none).candidates, c.targets ≠ [] := by
    intro c hc hnone
    obtain ⟨group, hg, d, -, rfl⟩ := mem_candidates.1 hc
    obtain ⟨item, hreferenced⟩ := exists_referenced hg d.target
    have hkey := mem_keys_candidate (k := (item, pair.id d.target)).2 ⟨hreferenced, rfl⟩
    unfold WatchSyncCandidate.keys at hkey
    rw [hnone] at hkey
    cases hkey
  obtain ⟨batches, hflat, hdb⟩ := WatchSyncRun.successful_db clock htargets db
  rw [hdb]
  refine ⟨.recordBatches batches, fun c hc k hk => ?_, fun k hk => get?_recordBatches (hflat ▸ hk)⟩
  obtain ⟨group, hg, d, hd, rfl⟩ := mem_candidates.1 hc
  obtain ⟨item, source⟩ := k
  obtain ⟨hreferenced, rfl⟩ := mem_keys_candidate.1 hk
  refine told_recordBatches hk (fun c' hc' hk' => ?_) (.inr ⟨hflat ▸ hc, fun hopen s hs => ?_⟩)
  · obtain ⟨d', hd', rfl, -, -⟩ := candidate_of_key hids hg hreferenced.mem (hflat ▸ hc') hk'
    rw [Option.some_inj.1 (hd.symm.trans hd')]
  · exact (candidates_keep_completed hd hopen).2 d.target item hreferenced.mem s hs

section Second
variable (h : Propagated pair direction db db') (hids : pair.id .plex ≠ pair.id .jellyfin)
  (hg : group ∈ db.scannedGroups pair none)
include h hids hg

/-- What the decision about the group does not tell stays. -/
theorem Propagated.unwritten (hi : item ∈ group)
    (hno : ∀ d, db.groupDecision pair direction group = some d → d.target = type →
      ¬ db.Referenced pair group type item) :
    db'.watched pair type item = db.watched pair type item ∧
    db'.partialProgress pair type item = db.partialProgress pair type item := by
  have hstate : db'.watchStates.get? (item, pair.id type) =
      db.watchStates.get? (item, pair.id type) := by
    refine h.kept _ fun c hc hk => ?_
    obtain ⟨d, hd, -, htarget, hreferenced⟩ := candidate_of_key hids hg hi hc hk
    exact hno d hd htarget hreferenced
  have hevents : db'.watchEvents = db.watchEvents := h.written.frame .watchEvents (by decide)
  unfold watched partialProgress userCompletions
  rw [hstate, hevents]
  exact ⟨rfl, rfl⟩

omit hids in
/-- What the decision tells is known. -/
theorem Propagated.told_state (hd : db.groupDecision pair direction group = some d)
    (hr : db.Referenced pair group d.target item) :
    ((db'.watched pair d.target item).isSome = d.completed) ∧
      (d.completed = false → db'.partialProgress pair d.target item = d.progressMs.getD 0) := by
  have hc : db.candidate pair none group d ∈ (db.prepareIn pair direction none).candidates :=
    mem_candidates.2 ⟨group, hg, d, hd, rfl⟩
  obtain ⟨s, hs, htells⟩ := h.told _ hc (item, pair.id d.target) (mem_keys_candidate.2 ⟨hr, rfl⟩)
  have hcompleted : s.completed = d.completed := htells.completed
  unfold watched partialProgress
  rw [hs]
  dsimp only
  rw [hcompleted]
  cases hdc : d.completed with
  | true => simp
  | false => simp [htells.progressMs hdc, candidate]

end Second

section Decisions
variable {watched : ConnectorType → Option Time} {progress : ConnectorType → Nat}

theorem propagationDecision_completed (h : propagationDecision direction watched progress = some d)
    (hd : d.completed = true) :
    (watched d.target.other).isSome = true := by
  unfold propagationDecision at h
  split at h
  next requested =>
    split at h
    next hw =>
      cases h
      cases requested <;> exact hw.1
    split at h
    · cases h
    split at h
    · cases h
    cases h; cases hd
  next =>
    split at h
    next hw => cases h; exact hw.1
    split at h
    next hw => cases h; exact hw.2
    split at h
    · cases h
    split at h
    · cases h; cases hd
    split at h
    · cases h; cases hd
    · cases h

theorem propagationDecision_of_watched (h : ∀ type, (watched type).isSome = true) :
    propagationDecision direction watched progress = none := by
  unfold propagationDecision
  cases direction with
  | none => simp [h, ← Option.not_isSome]
  | some requested => simp [h, ← Option.not_isSome]

/-- A decision about a resume position, when nobody has completed anything. -/
theorem propagationDecision_of_unwatched (h : ∀ type, watched type = none) :
    propagationDecision direction watched progress =
    match direction with
    | some .plex =>
      if progress .plex = 0 ∨ progress .plex =
        progress .jellyfin then none else some ⟨.jellyfin, some (progress .plex), false⟩
    | some .jellyfin =>
      if progress .jellyfin = 0 ∨
        0 < progress .plex then none else some ⟨.plex, some (progress .jellyfin), false⟩
    | none =>
      if 0 < progress .plex ∧
        progress .plex ≠ progress .jellyfin then some ⟨.jellyfin, some (progress .plex), false⟩
      else if 0 < progress .jellyfin then some ⟨.plex, some (progress .jellyfin), false⟩
      else none := by
  unfold propagationDecision
  cases direction with
  | none => simp [h]
  | some requested =>
    cases requested with
    | plex => simp [h, ConnectorType.other]
    | jellyfin =>
      simp only [h, ConnectorType.other, Option.isSome_none, Option.isNone_none, Bool.false_eq_true,
        false_and, false_or, true_and, if_false]
      by_cases hplex : 0 < progress .plex
      · simp [hplex]
      · have hzero : progress .plex = 0 := by omega
        simp [hzero]

end Decisions

/-! ### Convergence -/

/-- Nobody has completed an item of the group. -/
def Unwatched (db : Database) (pair : WatchPair) (group : List Nat) : Prop :=
  ∀ type, db.watchedBySource pair group type = none

/-- The servers agree about the group: both have completed it, or nobody has and their positions are
equal. -/
def Agree (db : Database) (pair : WatchPair) (group : List Nat) : Prop :=
  (∀ type, (db.watchedBySource pair group type).isSome = true) ∨
    db.Unwatched pair group ∧
      db.progressBySource pair group .plex = db.progressBySource pair group .jellyfin

/-- A propagation of the group leaves nothing to the next one in the same direction. -/
def Calm (db : Database) (pair : WatchPair) (direction : Direction) (group : List Nat) : Prop :=
  db.Unwatched pair group → match direction with
    | some .jellyfin => True
    | some .plex =>
      0 < db.progressBySource pair group .plex →
        ∀ item ∈ group, ¬ db.Referenced pair group .jellyfin item →
        db.partialProgress pair .jellyfin item ≤ db.progressBySource pair group .plex
    | none => ∀ type, db.progressBySource pair group type = 0

theorem progressBySource_le_iff {n : Nat} : db.progressBySource pair group type ≤ n ↔
    ∀ item ∈ group, db.partialProgress pair type item ≤ n := by
  unfold progressBySource
  rw [foldl_max_le_iff, List.forall_mem_map]
  exact and_iff_right (Nat.zero_le n)

theorem partialProgress_le (hi : item ∈ group) :
    db.partialProgress pair type item ≤ db.progressBySource pair group type :=
  progressBySource_le_iff.1 le_rfl item hi

/-- A group that is left alone is calm. -/
theorem calm_of_groupDecision (hd : db.groupDecision pair direction group = none) :
    db.Calm pair direction group := by
  intro hunwatched
  unfold groupDecision at hd
  rw [propagationDecision_of_unwatched hunwatched] at hd
  match direction with
  | some .jellyfin => trivial
  | some .plex =>
    intro hpos item hi _
    dsimp only at hd
    split at hd
    next hcond =>
      have hle : db.partialProgress pair .jellyfin item ≤
          db.progressBySource pair group .jellyfin := partialProgress_le hi
      rcases hcond with hzero | hequal
      · omega
      · omega
    · cases hd
  | none =>
    dsimp only at hd
    split at hd
    · cases hd
    next hplex =>
      split at hd
      · cases hd
      next hjellyfin =>
        intro type
        cases type with
        | plex => omega
        | jellyfin => omega

section After
variable (h : Propagated pair direction db db') (hids : pair.id .plex ≠ pair.id .jellyfin)
  (hg : group ∈ db.scannedGroups pair none)
include h hids hg

/-- What is known of the group on a server that was not told anything. -/
theorem Propagated.untold (hno : ∀ d, db.groupDecision pair direction group = some d →
      d.target ≠ type) :
    db'.watchedBySource pair group type = db.watchedBySource pair group type ∧
      db'.progressBySource pair group type = db.progressBySource pair group type := by
  have hsame : ∀ item ∈ group, db'.watched pair type item = db.watched pair type item ∧
      db'.partialProgress pair type item = db.partialProgress pair type item :=
    fun item hi => h.unwritten hids hg hi fun d hd htarget => absurd htarget (hno d hd)
  unfold watchedBySource progressBySource
  rw [List.map_congr_left fun item hi => (hsame item hi).1, List.map_congr_left fun item hi =>
    (hsame item hi).2]
  exact ⟨rfl, rfl⟩

omit hids in
theorem Propagated.told_completion (hd : db.groupDecision pair direction group = some d)
    (hc : d.completed = true) :
    (db'.watchedBySource pair group d.target).isSome = true := by
  obtain ⟨item, hr⟩ := exists_referenced hg d.target
  have hwatched := (h.told_state hg hd hr).1
  rw [Option.isSome_iff_ne_none]
  intro hnone
  rw [watched_of_watchedBySource hnone hr.mem, hc] at hwatched
  cases hwatched

theorem Propagated.told_position {p : Nat} (hd : db.groupDecision pair direction group = some d)
    (hc : d.completed = false)
    (hp : d.progressMs = some p) : db'.watchedBySource pair group d.target = none ∧
    p ≤ db'.progressBySource pair group d.target ∧
      (db'.progressBySource pair group d.target ≤ p ↔
        ∀ item ∈ group, ¬ db.Referenced pair group d.target item →
          db.partialProgress pair d.target item ≤ p) := by
  have hunwatched := (propagationDecision_progress hd hc).2 d.target
  have htold : ∀ item, db.Referenced pair group d.target item →
      db'.watched pair d.target item = none ∧
      db'.partialProgress pair d.target item = p := by
    intro item hr
    obtain ⟨hwatched, hprogress⟩ := h.told_state hg hd hr
    rw [hc, Option.isSome_eq_false_iff, Option.isNone_iff_eq_none] at hwatched
    exact ⟨hwatched, by rw [hprogress hc, hp]; rfl⟩
  have hkept : ∀ item ∈ group, ¬ db.Referenced pair group d.target item →
      db'.watched pair d.target item = none ∧
        db'.partialProgress pair d.target item = db.partialProgress pair d.target item := by
    intro item hi hr
    have hsame : db'.watched pair d.target item = db.watched pair d.target item ∧
        db'.partialProgress pair d.target item = db.partialProgress pair d.target item :=
      h.unwritten hids hg hi fun _ _ _ => hr
    exact ⟨hsame.1.trans (watched_of_watchedBySource hunwatched hi), hsame.2⟩
  refine ⟨?_, ?_, ?_⟩
  · refine latestOf_eq_none.2 fun x hx => ?_
    obtain ⟨item, hi, rfl⟩ := List.mem_map.1 hx
    by_cases hr : db.Referenced pair group d.target item
    exacts [(htold item hr).1, (hkept item hi hr).1]
  · obtain ⟨item, hr⟩ := exists_referenced hg d.target
    rw [← (htold item hr).2]
    exact partialProgress_le hr.mem
  · rw [progressBySource_le_iff]
    refine forall₂_congr fun item hi => ?_
    by_cases hr : db.Referenced pair group d.target item
    · simp [hr, (htold item hr).2]
    · simp [hr, (hkept item hi hr).2]

omit h hids hg in
theorem eq_or_eq_other (type t : ConnectorType) : type = t ∨ type = t.other := by
  cases type <;> cases t <;> decide

/-- The server that is not told anything stays as it is. -/
theorem Propagated.untold_other {d : PropagationDecision}
    (hd : db.groupDecision pair direction group = some d) :
    db'.watchedBySource pair group d.target.other = db.watchedBySource pair group d.target.other ∧
      db'.progressBySource pair group d.target.other =
        db.progressBySource pair group d.target.other := by
  have hother : d.target.other ≠ d.target := by cases d.target <;> decide
  exact h.untold hids hg fun d' hd' => by
    rw [← Option.some_inj.1 (hd.symm.trans hd')]; exact hother.symm

theorem Propagated.groupDecision_of_completion {d : PropagationDecision}
    (hd : db.groupDecision pair direction group = some d)
    (hc : d.completed = true) : db'.groupDecision pair direction group = none ↔
    db.Calm pair direction group := by
  obtain ⟨hwatched, -⟩ := h.untold_other hids hg hd
  have hsource := propagationDecision_completed hd hc
  have htarget := h.told_completion hg hd hc
  have hboth : ∀ type, (db'.watchedBySource pair group type).isSome = true := by
    intro type
    rcases eq_or_eq_other type d.target with htype | htype
    · rw [htype]; exact htarget
    · rw [htype, hwatched]; exact hsource
  refine iff_of_true (propagationDecision_of_watched hboth) fun hunwatched => ?_
  rw [hunwatched] at hsource
  cases hsource

theorem Propagated.groupDecision_of_position {d : PropagationDecision}
    (hd : db.groupDecision pair direction group = some d)
    (hc : d.completed = false) : db'.groupDecision pair direction group = none ↔
    db.Calm pair direction group := by
  obtain ⟨hwatched, hprogress⟩ := h.untold_other hids hg hd
  obtain ⟨⟨p, hp, hpos⟩, hunwatched⟩ := propagationDecision_progress hd hc
  obtain ⟨htarget, hle, hiff⟩ := h.told_position hids hg hd hc hp
  have hnone : db'.Unwatched pair group := by
    intro type
    rcases eq_or_eq_other type d.target with htype | htype
    · rw [htype]; exact htarget
    · rw [htype, hwatched]; exact hunwatched _
  have hcalm : db.Calm pair direction group ↔ _ := forall_prop_of_true hunwatched
  rw [hcalm]
  unfold groupDecision at hd ⊢
  rw [propagationDecision_of_unwatched hunwatched] at hd
  rw [propagationDecision_of_unwatched hnone]
  match direction with
  | some .plex =>
    dsimp only at hd ⊢
    split at hd
    · cases hd
    · cases hd
      obtain rfl := Option.some_inj.1 hp
      dsimp only [ConnectorType.other] at hprogress hle hiff ⊢
      rw [hprogress, forall_prop_of_true hpos, ← hiff, ite_eq_left_iff, not_or]
      constructor
      · intro hdec
        by_contra hlt
        cases hdec ⟨by omega, by omega⟩
      · rintro hle' ⟨-, hne⟩
        omega
  | some .jellyfin =>
    dsimp only at hd ⊢
    split at hd
    · cases hd
    · cases hd
      obtain rfl := Option.some_inj.1 hp
      dsimp only [ConnectorType.other] at hprogress hle ⊢
      exact iff_of_true (if_pos (.inr (by omega))) trivial
  | none =>
    -- whoever was told a position has one now, and so there is always somebody to tell
    have hsource : db.progressBySource pair group d.target.other = p := by
      dsimp only at hd
      split at hd
      · cases hd; exact Option.some_inj.1 hp
      · split at hd
        · cases hd; exact Option.some_inj.1 hp
        · cases hd
    rw [hsource] at hprogress
    have hpositive : ∀ type, 0 < db'.progressBySource pair group type := by
      intro type
      rcases eq_or_eq_other type d.target with htype | htype
      · rw [htype]; omega
      · rw [htype, hprogress]; exact hpos
    refine iff_of_false (fun hdec => ?_) fun hzero => ?_
    · dsimp only at hdec
      rw [if_pos (hpositive .jellyfin)] at hdec
      split at hdec <;> cases hdec
    · have := hzero d.target.other
      omega

/-- The second scan leaves a group alone exactly when it is calm. -/
theorem Propagated.groupDecision_iff : db'.groupDecision pair direction group = none ↔
    db.Calm pair direction group := by
  cases hd : db.groupDecision pair direction group with
  | none =>
    have hsame : ∀ type, db'.watchedBySource pair group type = db.watchedBySource pair group type ∧
        db'.progressBySource pair group type = db.progressBySource pair group type :=
      fun type => h.untold hids hg fun d hd' => by rw [hd] at hd'; cases hd'
    refine iff_of_true ?_ (calm_of_groupDecision hd)
    unfold groupDecision at hd ⊢
    rw [funext fun type => (hsame type).1, funext fun type => (hsame type).2, hd]
  | some d =>
    cases hc : d.completed with
    | true => exact h.groupDecision_of_completion hids hg hd hc
    | false => exact h.groupDecision_of_position hids hg hd hc

end After

/-- A calm group about which the servers agree is left alone. -/
theorem groupDecision_of_agree (ha : db.Agree pair group) (hc : db.Calm pair direction group) :
    db.groupDecision pair direction group = none := by
  unfold groupDecision
  rcases ha with hwatched | ⟨hunwatched, hequal⟩
  · exact propagationDecision_of_watched hwatched
  · rw [propagationDecision_of_unwatched hunwatched]
    match direction with
    | some .plex => exact if_pos (.inr hequal)
    | some .jellyfin => exact if_pos (by rw [hequal]; omega)
    | none =>
      have hzero : ∀ type, db.progressBySource pair group type = 0 := hc hunwatched
      simp [hzero]

theorem candidates_eq_nil_iff : (db.prepareIn pair direction scope).candidates = [] ↔
    ∀ group ∈ db.scannedGroups pair scope, db.groupDecision pair direction group = none := by
  unfold prepareIn
  simp only [List.filterMap_eq_nil_iff, Option.map_eq_none_iff]

end Database

namespace WatchSyncService
variable (service : WatchSyncService) (direction : Direction) (clock : Nat → Time) (db : Database)

/-- The candidates of a scan of the whole catalog. -/
def fullScan : List WatchSyncCandidate :=
  match service.pair? db with
  | some pair => (db.prepareIn pair direction none).candidates
  | none => []

/-- The database after a full scan and a run of which every call succeeds. -/
def propagate : Database := (WatchSyncRun.successful clock (service.fullScan direction db) db).db

variable {service direction clock db}

theorem prepare_candidates {now : Time}
    (h : ∀ pair, service.pair? db = some pair → (db.incrementalScope pair direction now).1 = none) :
    (service.prepare db direction now).candidates = service.fullScan direction db := by
  unfold prepare fullScan
  cases hpair : service.pair? db with
  | none => rfl
  | some pair =>
    dsimp only
    rw [h pair hpair]

/-- The two servers are of different types. -/
theorem ids_ne {pair : WatchPair} (h : service.pair? db = some pair) :
    pair.id .plex ≠ pair.id .jellyfin := by
  unfold pair? at h
  simp only [Option.bind_eq_bind, Option.bind_eq_some_iff, Option.pure_def, Option.some_inj] at h
  obtain ⟨plex, hplex, jellyfin, hjellyfin, -, -, -, -, rfl⟩ := h
  have hmem : ∀ {type : ConnectorType} {s : Source}, db.enabledSource type = some s →
      s ∈ db.sources.rows ∧ s.connectorType = type := by
    intro type s hs
    obtain ⟨hrow, hkeep⟩ := List.mem_filter.1 (List.mem_of_getLast? hs)
    rw [Bool.and_eq_true, beq_iff_eq] at hkeep
    exact ⟨hrow, hkeep.2⟩
  obtain ⟨hrow, htype⟩ := hmem hplex
  obtain ⟨hrow', htype'⟩ := hmem hjellyfin
  intro hids
  have hsame : plex = jellyfin := db.sources.eq_of_key_eq hrow hrow' hids
  rw [hsame, htype'] at htype
  cases htype

variable (service direction clock db) in
/-- Propagation converges: after a run of which every call succeeds a second full scan finds nothing
to tell, and where the servers agree nothing is told in the first place. -/
structure Converges : Prop where
  quiet : service.fullScan direction (service.propagate direction clock db) = []
  agreed : ∀ pair, service.pair? db = some pair → ∀ group ∈ db.scannedGroups pair none,
    db.Agree pair group →
    db.groupDecision pair direction group = none

theorem fullScan_propagate {pair : WatchPair} (hpair : service.pair? db = some pair) :
    service.fullScan direction (service.propagate direction clock db) = [] ↔
      ∀ group ∈ db.scannedGroups pair none, db.Calm pair direction group := by
  have hids := ids_ne hpair
  have hscan : service.fullScan direction db = (db.prepareIn pair direction none).candidates := by
    unfold fullScan
    rw [hpair]
  have hpropagated : Propagated pair direction db (service.propagate direction clock db) := by
    unfold propagate
    rw [hscan]
    exact propagated hids clock
  generalize service.propagate direction clock db = db' at hpropagated ⊢
  unfold fullScan
  rw [hpropagated.written.pair?, hpair]
  dsimp only
  rw [candidates_eq_nil_iff, hpropagated.written.scannedGroups]
  exact forall₂_congr fun group hg => hpropagated.groupDecision_iff hids hg

end WatchSyncService

/-- Propagation converges exactly when every group that nobody has completed is calm: Jellyfin to
Plex always; Plex to Jellyfin unless Jellyfin has a later position at an item without an available
reference; both ways unless there is a position at all. -/
theorem converges_iff (service : WatchSyncService) (direction : Direction) (clock : Nat → Time)
    (db : Database) :
    service.Converges direction clock db ↔ ∀ pair, service.pair? db = some pair →
    ∀ group ∈ db.scannedGroups pair none,
      (∀ type, db.watchedBySource pair group type = none) →
        match direction with
        | some .jellyfin => True
        | some .plex => 0 < db.progressBySource pair group .plex →
          ∀ item ∈ group, (¬ ∃ r ∈ db.groupRefs pair none group .jellyfin, r.mediaItemId = item) →
            db.partialProgress pair .jellyfin item ≤ db.progressBySource pair group .plex
        | none => ∀ type, db.progressBySource pair group type = 0 := by
  constructor
  · intro h pair hpair
    exact (WatchSyncService.fullScan_propagate hpair).1 h.quiet
  · intro h
    refine ⟨?_, fun pair hpair group hg ha => groupDecision_of_agree ha (h pair hpair group hg)⟩
    cases hpair : service.pair? db with
    | some pair => exact (WatchSyncService.fullScan_propagate hpair).2 (h pair hpair)
    | none =>
      have hscan : service.fullScan direction db = [] := by
        unfold WatchSyncService.fullScan
        rw [hpair]
      unfold WatchSyncService.propagate
      rw [hscan]
      show service.fullScan direction db = []
      exact hscan

section Example

def resumingService : WatchSyncService := ⟨.plain, fun _ => some "b"⟩

/-- A movie that is on both servers, with the same resume position. -/
def resumedOnBoth : Database :=
  { Database.empty with
    settings := { plexUserId := some "a" }
    sources := (Table.empty.insert { id := 1, connectorType := .plex }).insert
      { id := 2, connectorType := .jellyfin }
    mediaItems := .insert .empty { id := 1, kind := .movie }
    sourceMediaRefs := (Table.empty.insert
      { id := 1, sourceId := 1, libraryId := 1, mediaItemId := 1, externalId := "p" }).insert
      { id := 2, sourceId := 2, libraryId := 2, mediaItemId := 1, externalId := "j" }
    watchStates := (Table.empty.insert
      { mediaItemId := 1, sourceId := 1, completed := false, progressMs := some 5,
        observedAt := 0 }).insert
      { mediaItemId := 1, sourceId := 2, completed := false, progressMs := some 5,
        observedAt := 0 } }

/-- A scan in both directions tells Plex the position that both servers have, and tells it again the
next time. -/
theorem equal_positions_propagate :
    ∃ service clock db, ¬ WatchSyncService.Converges service none clock db := by
  refine ⟨resumingService, fun _ => 1, resumedOnBoth, fun h => ?_⟩
  have hagain : resumingService.fullScan none
      (resumingService.propagate none (fun _ => 1) resumedOnBoth) ≠ [] := by
    decide +kernel
  exact hagain h.quiet

end Example

end Euvieouvi
