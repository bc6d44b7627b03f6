import Mathlib.Data.List.MinMax
import Mathlib.Data.Prod.Lex
import Mathlib.Data.String.Basic
import Euvieouvi.Lib.Keys
import Euvieouvi.Projection.Partition

/-!
# Keys of the catalog entries

The text below the digest of a group key consists of fields between NUL characters. Where titles and
identifiers hold none, the kind and the second field determine how many fields a raw key has, and a
disambiguated key has one more, which names the item. So no disambiguated key is a raw key, and no
two of them are equal (`nodup_groupKeys`).
-/

namespace Euvieouvi

def NulFree (text : List Char) : Prop := '\x00' ∉ text

instance (text : List Char) : Decidable (NulFree text) :=
  inferInstanceAs (Decidable ('\x00' ∉ text))

/-- Normalization and case folding make NUL out of no other character. -/
structure PyLib.KeepsNulFree (py : PyLib) : Prop where
  nfkd : ∀ text, NulFree text.toList → NulFree (py.nfkd text).toList
  casefold : ∀ text, NulFree text.toList → NulFree (py.casefold text).toList

/-- No title and no identifier holds a NUL. -/
structure IdentityRows.TextsNulFree (rows : IdentityRows) : Prop where
  titles : ∀ m ∈ rows.mediaItems.rows, NulFree m.title.toList
  identifiers : ∀ r ∈ rows.mediaIdentifiers.rows, NulFree r.externalId.toList

theorem PyLib.KeepsNulFree.normalizedTitle {py : PyLib} (hpy : py.KeepsNulFree) {title : String}
    (h : NulFree title.toList) : NulFree (py.normalizedTitle title).toList := by
  refine hpy.casefold _ ?_
  unfold NulFree
  rw [String.toList_intercalate]
  refine not_mem_intercalate (by decide) fun part hpart hnul => ?_
  obtain ⟨word, hword, rfl⟩ := List.mem_map.1 hpart
  obtain ⟨chars, hchars, rfl⟩ := List.mem_map.1 hword
  rw [String.toList_ofList] at hnul
  have hmem := mem_of_mem_splitOnP (List.mem_filter.1 hchars).1 hnul
  rw [String.toList_ofList] at hmem
  exact hpy.nfkd _ h (List.mem_filter.1 hmem).1

theorem toLower_ne_nul {c : Char} (h : c ≠ '\x00') : c.toLower ≠ '\x00' := by
  intro hl
  unfold Char.toLower at hl
  split at hl
  next hu =>
    have hval : c.val + ('a'.val - 'A'.val) = 0 := congrArg Char.val hl
    have hle : c.val.toNat ≤ 90 := hu.2
    have hge : 65 ≤ c.val.toNat := hu.1
    have hnat := congrArg UInt32.toNat hval
    rw [UInt32.toNat_add] at hnat
    have h32 : ('a'.val - 'A'.val).toNat = 32 := by decide
    have h0 : (0 : UInt32).toNat = 0 := rfl
    omega
  next => exact h hl

theorem PyLib.plain_keepsNulFree : PyLib.plain.KeepsNulFree where
  nfkd _ h := h
  casefold text h hnul := by
    have hmem : '\x00' ∈ (String.ofList (text.toList.map Char.toLower)).toList := hnul
    rw [String.toList_ofList] at hmem
    obtain ⟨c, hc, heq⟩ := List.mem_map.1 hmem
    exact toLower_ne_nul (fun hc' => h (hc' ▸ hc)) heq

namespace IdentityRows
variable {rows : IdentityRows} {py : PyLib}

def fallbackFields (rows : IdentityRows) (py : PyLib) (i : Nat) : List (List Char) :=
  match rows.mediaItems.get? i with
  | none => [[]]
  | some row =>
    let title := (py.normalizedTitle row.title).toList
    match row.kind with
    | .episode | .album | .track =>
      ["parent:".toList ++ (toString (row.parentId.getD 0)).toList, title]
    | _ => [title]

def yearField (rows : IdentityRows) (i : Nat) : List Char :=
  match rows.yearOf i with
  | some (n + 1) => (toString (n + 1)).toList
  | _ => []

def kindField (rows : IdentityRows) (i : Nat) : List Char :=
  (((rows.kindOf i).map (·.value)).getD "").toList

def rawFields (rows : IdentityRows) (py : PyLib) (group : List Nat) : List (List Char) :=
  let canonical := rows.canonicalOf group
  match rows.firstIdentity group with
  | some (provider, externalId) => [rows.kindField canonical, provider.toList, externalId.toList]
  | none =>
    [rows.kindField canonical, "title".toList] ++ rows.fallbackFields py canonical ++
      [rows.yearField canonical]

def itemField (i : Nat) : List Char := "item:".toList ++ (toString i).toList

/-- The number of fields of a raw key with these first two. -/
def fieldCount (kind second : List Char) : Nat :=
  if second = "title".toList then
    if kind = "episode".toList ∨ kind = "album".toList ∨ kind = "track".toList then 5 else 4
  else 3

theorem toList_fallbackIdentity (i : Nat) :
    (rows.fallbackIdentity py i).toList = ['\x00'].intercalate (rows.fallbackFields py i) := by
  unfold fallbackIdentity fallbackFields
  cases rows.mediaItems.get? i with
  | none => rfl
  | some row =>
    cases hk : row.kind <;>
      simp only [hk, List.intercalate_cons_cons, List.intercalate_singleton,
        String.toList_append] <;> rfl

theorem intercalate_append_intercalate {α : Type} {sep : List α} {l l' : List (List α)} (h : l ≠ [])
    (h' : l' ≠ []) :
    sep.intercalate (l ++ l') = sep.intercalate l ++ sep ++ sep.intercalate l' := by
  induction l with
  | nil => exact absurd rfl h
  | cons f l ih =>
    cases l with
    | nil =>
      obtain ⟨g, l', rfl⟩ := List.exists_cons_of_ne_nil h'
      rw [List.singleton_append, List.intercalate_cons_cons, List.intercalate_singleton]
    | cons f' l =>
      rw [List.cons_append, List.cons_append, List.intercalate_cons_cons, ← List.cons_append,
        ih (by simp),
        List.intercalate_cons_cons]
      simp only [List.append_assoc]

theorem fallbackFields_ne_nil (i : Nat) : rows.fallbackFields py i ≠ [] := by
  unfold fallbackFields
  cases rows.mediaItems.get? i with
  | none => simp
  | some row => cases hk : row.kind <;> simp only [hk] <;> exact List.cons_ne_nil _ _

theorem toList_rawKey (group : List Nat) :
    (rows.rawKey py group).toList = ['\x00'].intercalate (rows.rawFields py group) := by
  unfold rawKey rawFields
  cases rows.firstIdentity group with
  | some identity =>
    obtain ⟨provider, externalId⟩ := identity
    simp only [List.intercalate_cons_cons, List.intercalate_singleton, String.toList_append,
      List.append_assoc]
    rfl
  | none =>
    have hyear : (match rows.yearOf (rows.canonicalOf group) with
        | some (n + 1) => toString (n + 1)
        | _ => "").toList = rows.yearField (rows.canonicalOf group) := by
      unfold yearField
      rcases rows.yearOf (rows.canonicalOf group) with _ | _ | n <;> rfl
    rw [intercalate_append_intercalate (by simp) (by simp), intercalate_append_intercalate (by simp)
      (fallbackFields_ne_nil _)]
    have htitle : (toString "\x00title\x00").toList =
        ['\x00'] ++ "title".toList ++ ['\x00'] := by decide
    simp only [List.intercalate_cons_cons, List.intercalate_singleton, String.toList_append, htitle]
    rw [← hyear, ← toList_fallbackIdentity]
    simp only [List.append_assoc]
    rfl

/-- What the identities of a group are sorted by. -/
def identityKey (identity : String × String) : Nat ×ₗ String :=
  toLex (providerPriority identity.1, identity.2)

theorem firstIdentity_eq_argmin (group : List Nat) :
    rows.firstIdentity group = (group.flatMap rows.identifiersOf).argmin identityKey := by
  unfold firstIdentity List.argmin
  congr 1
  funext best identity
  cases best with
  | none => rfl
  | some b =>
    show (if _ then some identity else some b) =
      if identityKey identity < identityKey b then some identity else some b
    refine if_congr ?_ rfl rfl
    unfold identityKey
    rw [Prod.Lex.toLex_lt_toLex]

theorem firstIdentity_mem {group : List Nat} {identity : String × String}
    (h : rows.firstIdentity group = some identity) :
    ∃ i ∈ group, identity ∈ rows.identifiersOf i := by
  rw [firstIdentity_eq_argmin] at h
  exact List.mem_flatMap.1 (List.argmin_mem h)

theorem mem_identifiersOf {i : Nat} {identity : String × String} :
    identity ∈ rows.identifiersOf i ↔
      ∃ r ∈ rows.stableIdentifiers, r.mediaItemId = i ∧ (r.provider, r.externalId) = identity := by
  unfold identifiersOf
  simp only [List.mem_eraseDups, List.mem_map, List.mem_filter, beq_iff_eq, and_assoc]

theorem provider_of_mem_identifiersOf {i : Nat} {identity : String × String}
    (h : identity ∈ rows.identifiersOf i) :
    identity.1 ∈ stableProviders := by
  obtain ⟨r, hr, -, rfl⟩ := mem_identifiersOf.1 h
  simpa using (Bool.and_eq_true_iff.1 (List.mem_filter.1 hr).2).1

/-! ### No key twice -/

theorem nulFree_kindField (i : Nat) : NulFree (rows.kindField i) := by
  unfold NulFree kindField
  cases rows.kindOf i with
  | none => decide
  | some kind => cases kind <;> decide

theorem nulFree_itemField (i : Nat) : NulFree (itemField i) := by
  unfold NulFree itemField
  rw [List.mem_append]
  rintro (h | h)
  · exact absurd h (by decide)
  · exact not_mem_toString_nat rfl i h

theorem nulFree_yearField (i : Nat) : NulFree (rows.yearField i) := by
  unfold NulFree yearField
  rcases rows.yearOf i with _ | _ | n
  exacts [List.not_mem_nil, List.not_mem_nil, not_mem_toString_nat rfl _]

theorem nulFree_fallbackFields (hpy : py.KeepsNulFree) (h : rows.TextsNulFree) (i : Nat) :
    ∀ f ∈ rows.fallbackFields py i, NulFree f := by
  unfold fallbackFields
  cases hrow : rows.mediaItems.get? i with
  | none => intro f hf; rw [List.mem_singleton.1 hf]; exact List.not_mem_nil
  | some row =>
    have htitle := hpy.normalizedTitle (h.titles row (Table.mem_of_get? hrow))
    have hparent : NulFree ("parent:".toList ++ (toString (row.parentId.getD 0)).toList) := by
      unfold NulFree
      rw [List.mem_append]
      rintro (h | h)
      · exact absurd h (by decide)
      · exact not_mem_toString_nat rfl _ h
    cases hk : row.kind <;> simp only [hk] <;> intro f hf <;>
      simp only [List.mem_cons, List.not_mem_nil, or_false] at hf <;>
        rcases hf with rfl | rfl <;> assumption

theorem nulFree_rawFields (hpy : py.KeepsNulFree) (h : rows.TextsNulFree) (group : List Nat) :
    ∀ f ∈ rows.rawFields py group, NulFree f := by
  unfold rawFields
  cases hfirst : rows.firstIdentity group with
  | some identity =>
    obtain ⟨i, -, hmem⟩ := firstIdentity_mem hfirst
    have hprovider : NulFree identity.1.toList := by
      have hall : ∀ provider ∈ stableProviders, NulFree provider.toList := by unfold NulFree; decide
      exact hall _ (provider_of_mem_identifiersOf hmem)
    have hexternal : NulFree identity.2.toList := by
      obtain ⟨r, hr, -, rfl⟩ := mem_identifiersOf.1 hmem
      exact h.identifiers r (List.mem_filter.1 hr).1
    intro f hf
    simp only [List.mem_cons, List.not_mem_nil, or_false] at hf
    rcases hf with rfl | rfl | rfl
    exacts [nulFree_kindField _, hprovider, hexternal]
  | none =>
    intro f hf
    simp only [List.mem_append, List.mem_cons, List.not_mem_nil, or_false] at hf
    rcases hf with ((rfl | rfl) | hf) | rfl
    · exact nulFree_kindField _
    · exact (by decide : '\x00' ∉ "title".toList)
    · exact nulFree_fallbackFields hpy h _ f hf
    · exact nulFree_yearField _

/-- The first two fields of a raw key say how many it has. -/
theorem rawFields_shape (py : PyLib) {group : List Nat} (hne : group ≠ [])
    (hcatalog : ∀ i ∈ group, i ∈ rows.catalogIds) :
    ∃ kind second rest, rows.rawFields py group = kind :: second :: rest ∧
      (kind :: second :: rest).length = fieldCount kind second := by
  unfold rawFields
  cases hfirst : rows.firstIdentity group with
  | some identity =>
    obtain ⟨i, -, hmem⟩ := firstIdentity_mem hfirst
    have hprovider : identity.1.toList ≠ "title".toList := by
      have hall : ∀ provider ∈ stableProviders, provider.toList ≠ "title".toList := by decide
      exact hall _ (provider_of_mem_identifiersOf hmem)
    exact ⟨_, _, _, rfl, (if_neg hprovider).symm⟩
  | none =>
    refine ⟨_, _, _, rfl, ?_⟩
    have hcanonical : rows.canonicalOf group ∈ rows.catalogIds := hcatalog _ (canonicalOf_mem hne)
    obtain ⟨m, hm, -⟩ := kindOf_of_mem_catalogIds hcanonical
    have hkind : rows.kindField (rows.canonicalOf group) = m.kind.value.toList := by
      unfold kindField kindOf
      rw [hm]; rfl
    unfold fallbackFields fieldCount
    rw [hkind, hm, if_pos rfl]
    cases hk : m.kind <;> simp only [hk] <;> rfl

/-- The text below a disambiguated key. -/
def itemKey (rows : IdentityRows) (py : PyLib) (group : List Nat) : String :=
  s!"{rows.rawKey py group}\x00item:{rows.canonicalOf group}"

def digestKey (py : PyLib) (text : String) : String := s!"v{projectionVersion}:" ++ py.sha256 text

theorem toList_itemKey (group : List Nat) :
    (rows.itemKey py group).toList =
      ['\x00'].intercalate (rows.rawFields py group ++ [itemField (rows.canonicalOf group)]) := by
  have hne : rows.rawFields py group ≠ [] := by
    unfold rawFields
    cases rows.firstIdentity group <;> simp
  have hitem : (toString "\x00item:").toList = ['\x00'] ++ "item:".toList := by decide
  unfold itemKey
  simp only [intercalate_append_intercalate hne (List.cons_ne_nil _ _), List.intercalate_singleton,
    String.toList_append, hitem]
  rw [← toList_rawKey]
  unfold itemField
  simp only [List.append_assoc]
  rfl

theorem digestKey_inj (hsha : Function.Injective py.sha256) {a b : String}
    (h : digestKey py a = digestKey py b) : a = b :=
  hsha ((String.append_right_inj _).1 h)

section Distinct
variable (hpy : py.KeepsNulFree) (h : rows.TextsNulFree)
include hpy h

theorem rawKey_ne_itemKey {g g' : List Nat} (hg : rows.GroupOk g) (hg' : rows.GroupOk g') :
    rows.rawKey py g ≠ rows.itemKey py g' := by
  intro heq
  obtain ⟨kind, second, rest, hshape, hcount⟩ := rawFields_shape py hg.nonempty hg.catalog
  obtain ⟨kind', second', rest', hshape', hcount'⟩ := rawFields_shape py hg'.nonempty hg'.catalog
  have htext := congrArg String.toList heq
  rw [toList_rawKey, toList_itemKey] at htext
  have hitem : ∀ f ∈ rows.rawFields py g' ++ [itemField (rows.canonicalOf g')], NulFree f := by
    intro f hf
    rcases List.mem_append.1 hf with hf | hf
    · exact nulFree_rawFields hpy h g' f hf
    · exact List.mem_singleton.1 hf ▸ nulFree_itemField _
  have hfields :=
    intercalate_inj (nulFree_rawFields hpy h g) hitem (by rw [hshape]; simp) (by simp) htext
  rw [hshape, hshape'] at hfields
  obtain ⟨rfl, rfl, hrest⟩ : kind = kind' ∧ second = second' ∧
      rest = rest' ++ [itemField (rows.canonicalOf g')] := by
    simpa using hfields
  rw [hrest, ← hcount'] at hcount
  simp at hcount

theorem canonicalOf_eq_of_itemKey {g g' : List Nat} (heq : rows.itemKey py g = rows.itemKey py g') :
    rows.canonicalOf g = rows.canonicalOf g' := by
  have hfree : ∀ g, ∀ f ∈ rows.rawFields py g ++ [itemField (rows.canonicalOf g)], NulFree f := by
    intro g f hf
    rcases List.mem_append.1 hf with hf | hf
    · exact nulFree_rawFields hpy h g f hf
    · exact List.mem_singleton.1 hf ▸ nulFree_itemField _
  have htext := congrArg String.toList heq
  rw [toList_itemKey, toList_itemKey] at htext
  have hfields := intercalate_inj (hfree g) (hfree g') (by simp) (by simp) htext
  have hlast : itemField (rows.canonicalOf g) = itemField (rows.canonicalOf g') := by
    have := congrArg List.getLast? hfields
    simpa using this
  exact toString_nat_inj (List.append_cancel_left hlast)

end Distinct

theorem groupKeys_snd : (rows.groupKeys py).map Prod.snd =
    freshKeys (fun g => digestKey py (rows.rawKey py g)) (fun g => digestKey py (rows.itemKey py g))
    [] (rows.groups py) := by
  unfold groupKeys
  generalize rows.groups py = groups
  suffices hgen : ∀ (groups : List (List Nat)) (acc : List (Nat × String) × List String),
      (groups.foldl _ acc).1.map Prod.snd = acc.1.map Prod.snd ++
        freshKeys (fun g => digestKey py (rows.rawKey py g))
          (fun g => digestKey py (rows.itemKey py g)) acc.2 groups by
    exact hgen groups ([], [])
  intro groups
  induction groups with
  | nil => intro acc; simp [freshKeys]
  | cons g groups ih =>
    intro acc
    rw [List.foldl_cons, ih, freshKeys, List.map_append, List.append_assoc]
    have hkey :
        (if acc.2.contains (digestKey py (rows.rawKey py g)) then digestKey py (rows.itemKey py g)
        else digestKey py (rows.rawKey py g)) =
        freshKey (fun g => digestKey py (rows.rawKey py g))
          (fun g => digestKey py (rows.itemKey py g)) acc.2 g := by
      unfold freshKey
      simp only [List.contains_iff_mem]
    rw [← hkey]
    rfl

/-- No two entries have the same key. -/
theorem nodup_groupKeys (hsha : Function.Injective py.sha256) (hpy : py.KeepsNulFree)
    (h : rows.TextsNulFree) :
    ((rows.groupKeys py).map Prod.snd).Nodup := by
  rw [groupKeys_snd]
  refine (freshKeys_nodup (fun g hg g' hg' heq => ?_) ?_ (fun _ _ => List.not_mem_nil)).1
  · exact rawKey_ne_itemKey hpy h (groupOk hg) (groupOk hg') (digestKey_inj hsha heq)
  · have hcanonical := nodup_canonicalOf rows py
    rw [List.Nodup, List.pairwise_map] at hcanonical ⊢
    exact hcanonical.imp fun hne heq =>
      hne (canonicalOf_eq_of_itemKey hpy h (digestKey_inj hsha heq))

end IdentityRows

end Euvieouvi
