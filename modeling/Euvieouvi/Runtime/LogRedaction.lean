import Euvieouvi.Lib.MaskReading
import Mathlib.Data.Bool.AllAny
import Mathlib.Data.List.Sublists

/-!
# Redaction of log texts

`redact_text` (`logging.py`), which masks the credentials of a text before it is logged. Three
expressions are applied one after the other, each to what the one before has left. A key is all the
letters that can belong to one (`keyed_iff`), so the expressions are patterns with a lead.
-/

namespace Euvieouvi

namespace LogRedaction

/-- What `\s` matches. -/
def blanks : List Char :=
  ['\t', '\n', '\u000b', '\u000c', '\r', '\u001c', '\u001d', '\u001e', '\u001f', ' ', '\u0085',
    '\u00a0', '\u1680',
    '\u2000', '\u2001', '\u2002', '\u2003', '\u2004', '\u2005', '\u2006', '\u2007', '\u2008',
      '\u2009', '\u200a',
    '\u2028', '\u2029', '\u202f', '\u205f', '\u3000']

def isBlank (c : Char) : Bool := blanks.contains c

def isNewline (c : Char) : Bool := c == '\r' || c == '\n'

/-- The letter of an expression that a character matches under `re.IGNORECASE`: besides the ASCII
letters, four others match one. -/
def fold (c : Char) : Char :=
  if 'A' ≤ c ∧ c ≤ 'Z' then Char.ofNat (c.toNat + 32)
  else if c = '\u0130' ∨ c = '\u0131' then 'i'
  else if c = '\u212a' then 'k'
  else if c = '\u017f' then 's'
  else c

/-- An alternative of names, ignoring case, and what has to follow. -/
def keyed {β : Type} (names : List (List Char)) (follow : List Char → List Char → Option β)
    (t : List Char) : Option β :=
  names.findSome? fun name =>
    if (t.take name.length).map fold =
      name then follow (t.take name.length) (t.drop name.length) else none

/-- `\s*[=:]\s*`. -/
def separator (key rest : List Char) : Option (List Char × List Char) :=
  match rest.dropWhile isBlank with
  | e :: x =>
    if e = '=' ∨ e = ':' then some (key ++ (rest.takeWhile isBlank ++ e :: x.takeWhile isBlank),
      x.dropWhile isBlank) else none
  | [] => none

/-- `=`. -/
def equals (key rest : List Char) : Option (List Char × List Char) :=
  match rest with
  | e :: x => if e = '=' then some (key ++ [e], x) else none
  | [] => none

/-- The names of `[?&](?:x-plex-token|token|secret|api[_-]?key)=`. -/
def parameterNames : List (List Char) :=
  ["x-plex-token", "token", "secret", "api_key", "api-key", "apikey"].map String.toList

/-- `x-plex-token|authorization|secret|token|api[_-]?key`. -/
def secretNames : List (List Char) :=
  ["x-plex-token", "authorization", "secret", "token", "api_key", "api-key", "apikey"].map
    String.toList

def authorizationNames : List (List Char) := ["authorization".toList]

def parameter (t : List Char) : Option (List Char × List Char) :=
  match t with
  | q :: rest =>
    if q = '?' ∨ q = '&' then (keyed parameterNames equals rest).map fun (k, x) =>
      (q :: k, x) else none
  | [] => none

/-- The characters of the names. -/
def keyLetters : List Char := "abcdefghijklmnopqrstuvwxyz-_".toList

def isKeyLetter (c : Char) : Bool := keyLetters.contains (fold c)

def symbols : List Char := "=:?&#,;[]01".toList

theorem not_isKeyLetter {c : Char} (h : c ∈ symbols ∨ isBlank c = true) :
    isKeyLetter c = false := by
  have hall : ∀ c ∈ symbols ++ blanks, isKeyLetter c = false :=
    List.all_iff_forall_prop.1 (by decide +kernel)
  refine hall c (List.mem_append.2 (h.imp_right fun hb => ?_))
  simpa [isBlank] using hb

structure Names (names : List (List Char)) : Prop where
  ne_nil : [] ∉ names
  letters : ∀ name ∈ names, ∀ c ∈ name, c ∈ keyLetters

theorem Names.of_all {names : List (List Char)} (hne : [] ∉ names)
    (h : ∀ name ∈ names, name.all (· ∈ keyLetters) = true) :
    Names names :=
  ⟨hne, fun name hname => List.all_iff_forall_prop.1 (h name hname)⟩

theorem secretNames_names : Names secretNames := .of_all (by decide +kernel) (by decide +kernel)

theorem parameterNames_names : Names parameterNames :=
  .of_all (by decide +kernel) (by decide +kernel)

theorem authorizationNames_names : Names authorizationNames :=
  .of_all (by decide +kernel) (by decide +kernel)

section Keyed
variable {β : Type} {names : List (List Char)} {follow : List Char → List Char → Option β}
  {t key rest k x a b : List Char} {v : β}

theorem isKeyLetter_of_fold (h : Names names) (hkey : key.map fold ∈ names) :
    ∀ c ∈ key, isKeyLetter c = true := by
  intro c hc
  have hmem := h.letters _ hkey (fold c) (List.mem_map_of_mem hc)
  unfold isKeyLetter
  rwa [List.contains_iff_mem]

/-- The key is all the letters that can belong to one, as no letter follows it. -/
theorem keyed_iff (h : Names names)
    (hfollow : ∀ key rest v, follow key rest = some v → ∀ c ∈ rest.head?, isKeyLetter c = false) :
    keyed names follow t = some v ↔
      (t.takeWhile isKeyLetter).map fold ∈ names ∧ follow (t.takeWhile isKeyLetter)
      (t.dropWhile isKeyLetter) = some v := by
  have hone : ∀ name ∈ names, ∀ v, (if (t.take name.length).map fold = name then
      follow (t.take name.length) (t.drop name.length) else none) = some v →
        (t.takeWhile isKeyLetter).map fold ∈ names ∧
          follow (t.takeWhile isKeyLetter) (t.dropWhile isKeyLetter) = some v := by
    intro name hname v hv
    split at hv
    next heq =>
      have hkey :=
        takeWhile_append_stop (isKeyLetter_of_fold h (by rw [heq]; exact hname)) (hfollow _ _ _ hv)
      rw [List.take_append_drop] at hkey
      rw [hkey.1, hkey.2, heq]
      exact ⟨hname, hv⟩
    next => cases hv
  constructor
  · intro hkeyed
    obtain ⟨name, hname, hv⟩ := List.exists_of_findSome?_eq_some hkeyed
    exact hone name hname v hv
  · rintro ⟨hname, hv⟩
    cases hkeyed : keyed names follow t with
    | some v' =>
      obtain ⟨name, hname', hv'⟩ := List.exists_of_findSome?_eq_some hkeyed
      rw [← (hone name hname' v' hv').2, hv]
    | none =>
      have hnone := List.findSome?_eq_none_iff.1 hkeyed _ hname
      have htake : t.take ((t.takeWhile isKeyLetter).map fold).length =
          t.takeWhile isKeyLetter := by
        rw [List.length_map]
        exact List.prefix_iff_eq_take.1 (List.takeWhile_prefix _) |>.symm
      have hdrop : t.drop ((t.takeWhile isKeyLetter).map fold).length =
          t.dropWhile isKeyLetter := by
        have happend := List.takeWhile_append_dropWhile (p := isKeyLetter) (l := t)
        rw [List.length_map]
        generalize t.takeWhile isKeyLetter = key at happend ⊢
        generalize t.dropWhile isKeyLetter = rest at happend ⊢
        rw [← happend]
        exact List.drop_left
      rw [htake, hdrop, if_pos rfl, hv] at hnone
      cases hnone

theorem separator_iff : separator key rest = some (k, x) ↔ ∃ w e w', rest = w ++ e :: (w' ++ x) ∧
    k = key ++ (w ++ e :: w') ∧
    (∀ c ∈ w, isBlank c = true) ∧ (e = '=' ∨ e = ':') ∧ (∀ c ∈ w', isBlank c = true) ∧
    ∀ c ∈ x.head?, isBlank c = false := by
  constructor
  · intro h
    unfold separator at h
    split at h
    next e y hrest =>
      split at h
      next he =>
        cases h
        have happend := List.takeWhile_append_dropWhile (p := isBlank) (l := rest)
        refine ⟨rest.takeWhile isBlank, e, y.takeWhile isBlank, ?_, rfl, fun c hc =>
          List.mem_takeWhile_imp hc, he,
          fun c hc => List.mem_takeWhile_imp hc, head_dropWhile isBlank y⟩
        rw [List.takeWhile_append_dropWhile, ← hrest, happend]
      next => cases h
    next => cases h
  · rintro ⟨w, e, w', rfl, rfl, hw, he, hw', hx⟩
    have heblank : ¬ isBlank e = true := by rcases he with rfl | rfl <;> decide
    have hdrop := takeWhile_append_stop hw' hx
    unfold separator
    rw [List.dropWhile_append_of_pos hw, List.takeWhile_append_of_pos hw,
      List.dropWhile_cons_of_neg heblank,
      List.takeWhile_cons_of_neg heblank]
    dsimp only
    rw [if_pos he, hdrop.1, hdrop.2, List.append_nil]

theorem separator_append (a key rest : List Char) :
    separator (a ++ key) rest = (separator key rest).map fun (k, x) => (a ++ k, x) := by
  unfold separator
  split
  · split
    · rw [List.append_assoc]
      rfl
    · rfl
  · rfl

theorem separator_head (key rest : List Char) (v : List Char × List Char)
    (h : separator key rest = some v) :
    ∀ c ∈ rest.head?, isKeyLetter c = false := by
  obtain ⟨w, e, w', rfl, -, hw, he, -⟩ := separator_iff.1 h
  intro c hc
  cases w with
  | nil =>
    cases hc
    exact not_isKeyLetter (.inl (by rcases he with rfl | rfl <;> decide))
  | cons c' w =>
    cases hc
    exact not_isKeyLetter (.inr (hw _ List.mem_cons_self))

theorem equals_head (key rest : List Char) (v : List Char × List Char)
    (h : equals key rest = some v) :
    ∀ c ∈ rest.head?, isKeyLetter c = false := by
  unfold equals at h
  split at h
  next e x =>
    split at h
    next he =>
      rintro c ⟨⟩
      exact not_isKeyLetter (.inl (by rw [he]; decide))
    next => cases h
  next => rintro c ⟨⟩

/-! ### Credentials -/

/-- A key, and the sign between blanks that follows it. -/
theorem credential_iff (h : Names names) : keyed names separator t = some (k, x) ↔
    ∃ key w e w', t = k ++ x ∧
    k = key ++ (w ++ e :: w') ∧ key.map fold ∈ names ∧ (∀ c ∈ w, isBlank c = true) ∧
    (e = '=' ∨ e = ':') ∧
    (∀ c ∈ w', isBlank c = true) ∧ ∀ c ∈ x.head?, isBlank c = false := by
  rw [keyed_iff h separator_head, separator_iff]
  constructor
  · rintro ⟨hname, w, e, w', hrest, rfl, hw, he, hw', hx⟩
    refine ⟨_, w, e, w', ?_, rfl, hname, hw, he, hw', hx⟩
    have happend := List.takeWhile_append_dropWhile (p := isKeyLetter) (l := t)
    rw [hrest] at happend
    exact happend.symm.trans (by simp)
  · rintro ⟨key, w, e, w', rfl, rfl, hname, hw, he, hw', hx⟩
    have hsep : separator key (w ++ e :: (w' ++ x)) = some (key ++ (w ++ e :: w'), x) :=
      separator_iff.2 ⟨w, e, w', rfl, rfl, hw, he, hw', hx⟩
    have hkey := takeWhile_append_stop (isKeyLetter_of_fold h hname) (separator_head _ _ _ hsep)
    have ht : key ++ (w ++ e :: w') ++ x = key ++ (w ++ e :: (w' ++ x)) := by simp
    rw [ht, hkey.1, hkey.2]
    exact ⟨hname, w, e, w', rfl, rfl, hw, he, hw', hx⟩

theorem head_of_key (h : Names names) (hname : key.map fold ∈ names) :
    ∃ c key', key = c :: key' ∧ isKeyLetter c = true := by
  cases key with
  | nil => exact absurd hname h.ne_nil
  | cons c key => exact ⟨c, key, rfl, isKeyLetter_of_fold h hname c List.mem_cons_self⟩

theorem isBlank_of_isKeyLetter {c : Char} (hc : isKeyLetter c = true) : isBlank c = false := by
  by_contra hblank
  rw [not_isKeyLetter (.inr (Bool.not_eq_false _ ▸ hblank))] at hc
  cases hc

theorem credential_solid (h : Names names) (hlead : keyed names separator t = some (k, x)) :
    ∃ c k', k = c :: k' ∧ isBlank c = false := by
  obtain ⟨key, w, e, w', -, rfl, hname, -⟩ := (credential_iff h).1 hlead
  obtain ⟨c, key', rfl, hc⟩ := head_of_key h hname
  exact ⟨c, _, rfl, isBlank_of_isKeyLetter hc⟩

theorem credential_append (h : Names names) (hlead : keyed names separator (k ++ x) = some (k, x))
    (y : List Char) :
    keyed names separator (k ++ y) = some (k ++ y.takeWhile isBlank, y.dropWhile isBlank) := by
  obtain ⟨key, w, e, w', -, rfl, hname, hw, he, hw', -⟩ := (credential_iff h).1 hlead
  refine (credential_iff h).2 ⟨key, w, e, w' ++ y.takeWhile isBlank, ?_, by
    simp, hname, hw, he, fun c hc => ?_, head_dropWhile _ _⟩
  · simp [List.takeWhile_append_dropWhile]
  · rcases List.mem_append.1 hc with hc | hc
    · exact hw' c hc
    · exact List.mem_takeWhile_imp hc

/-- What follows the letters of a key is no such letter, up to the value. -/
theorem credential_tail {w w' : List Char} {e : Char} (hw : ∀ c ∈ w, isBlank c = true)
    (he : e = '=' ∨ e = ':')
    (hw' : ∀ c ∈ w', isBlank c = true) : ∀ c ∈ w ++ e :: w', isKeyLetter c = false := by
  intro c hc
  rcases List.mem_append.1 hc with hc | hc
  · exact not_isKeyLetter (.inr (hw c hc))
  · rcases List.mem_cons.1 hc with rfl | hc
    · exact not_isKeyLetter (.inl (by rcases he with rfl | rfl <;> decide))
    · exact not_isKeyLetter (.inr (hw' c hc))

theorem credential_overlap {k₁ x₁ : List Char} (h : Names names)
    (hwhole : keyed names separator (a ++ b) = some (k₁, x₁))
    (hlead : keyed names separator b = some (k, x)) (hlength : a.length < k₁.length) :
    k₁ = a ++ k := by
  obtain ⟨key₁, w, e, w', happend, rfl, hname₁, hw, he, hw', -⟩ := (credential_iff h).1 hwhole
  have hkey₁ := isKeyLetter_of_fold h hname₁
  have htail := credential_tail hw he hw'
  obtain ⟨c, b', rfl, hc⟩ : ∃ c b', b = c :: b' ∧ isKeyLetter c = true := by
    obtain ⟨key, _, _, _, hb, rfl, hname, -⟩ := (credential_iff h).1 hlead
    obtain ⟨c, key', rfl, hc⟩ := head_of_key h hname
    exact ⟨c, _, hb, hc⟩
  -- The inner key begins inside the outer one: no letter of a key follows that.
  obtain ⟨key₂, rfl⟩ : ∃ key₂, key₁ = a ++ key₂ := by
    rw [List.append_assoc] at happend
    rcases List.append_eq_append_iff.1 happend with ⟨d, rfl, -⟩ | ⟨d, rfl, hd⟩
    · exact ⟨d, rfl⟩
    · cases d with
      | nil => exact ⟨[], by simp⟩
      | cons c' d =>
        exfalso
        have hmem : c ∈ w ++ e :: w' := by
          rw [List.length_append, List.length_append] at hlength
          rcases List.append_eq_append_iff.1 hd with ⟨d', hd', -⟩ | ⟨d', hd', hcb⟩
          · rw [hd'] at hlength
            simp only [List.length_append] at hlength
            omega
          · cases d' with
            | nil =>
              rw [List.append_nil] at hd'
              rw [hd'] at hlength
              omega
            | cons c'' d' =>
              obtain ⟨rfl, -⟩ := List.cons.inj hcb
              rw [hd']
              simp
        rw [htail c hmem] at hc
        cases hc
  have ha : ∀ c ∈ a, isKeyLetter c = true := fun c hc => hkey₁ c (List.mem_append_left _ hc)
  have hsep := ((keyed_iff h separator_head).1 hwhole).2
  have hsep' := ((keyed_iff h separator_head).1 hlead).2
  rw [List.takeWhile_append_of_pos ha, List.dropWhile_append_of_pos ha, separator_append, hsep',
    Option.map_some,
    Option.some_inj, Prod.mk.injEq] at hsep
  exact hsep.1.symm

end Keyed

theorem parameter_iff {t k x : List Char} : parameter t = some (k, x) ↔ ∃ q key, t = k ++ x ∧
    k = q :: (key ++ ['=']) ∧
    (q = '?' ∨ q = '&') ∧ key.map fold ∈ parameterNames := by
  have hequals : ∀ {key rest k x}, equals key rest = some (k, x) ↔ rest = '=' :: x ∧
      k = key ++ ['='] := by
    intro key rest k x
    unfold equals
    split
    next e y =>
      constructor
      · intro h
        split at h
        next he =>
          cases h
          rw [he]
          exact ⟨rfl, rfl⟩
        next => cases h
      · rintro ⟨heq, rfl⟩
        obtain ⟨rfl, rfl⟩ := List.cons.inj heq
        exact if_pos rfl
    next => exact iff_of_false (fun h => by cases h) fun h => by cases h.1
  cases t with
  | nil =>
    refine iff_of_false (fun h => by cases h) ?_
    rintro ⟨q, key, h, rfl, -⟩
    cases h
  | cons q rest =>
    unfold parameter
    dsimp only
    constructor
    · intro h
      split at h
      next hq =>
        obtain ⟨⟨k', x'⟩, hkeyed, heq⟩ := Option.map_eq_some_iff.1 h
        cases heq
        obtain ⟨hname, hfollow⟩ := (keyed_iff parameterNames_names equals_head).1 hkeyed
        obtain ⟨hrest, rfl⟩ := hequals.1 hfollow
        refine ⟨q, _, ?_, rfl, hq, hname⟩
        have happend := List.takeWhile_append_dropWhile (p := isKeyLetter) (l := rest)
        rw [hrest] at happend
        exact congrArg (q :: ·) (happend.symm.trans (by simp))
      next => cases h
    · rintro ⟨q', key, h, rfl, hq, hname⟩
      obtain ⟨rfl, hrest⟩ := List.cons.inj h
      have hrest : rest = key ++ '=' :: x := hrest.trans (by simp)
      have hkey := takeWhile_append_stop (f := isKeyLetter) (r := '=' :: x)
        (isKeyLetter_of_fold parameterNames_names hname)
        fun c hc => by cases hc; decide
      have hkeyed : keyed parameterNames equals (key ++ '=' :: x) = some (key ++ ['='], x) := by
        rw [keyed_iff parameterNames_names equals_head, hkey.1, hkey.2]
        exact ⟨hname, hequals.2 ⟨rfl, rfl⟩⟩
      rw [if_pos hq, hrest, hkeyed]
      rfl

/-- `_AUTHORIZATION_VALUE`. -/
def authorizationValue : Pattern Char where
  lead := keyed authorizationNames separator
  gap := isBlank
  run c := !isNewline c
  append_of_lead h := by
    obtain ⟨_, _, _, _, ht, -⟩ := (credential_iff authorizationNames_names).1 h
    exact ht
  solid_of_lead := credential_solid authorizationNames_names
  lead_append := credential_append authorizationNames_names
  overlap := credential_overlap authorizationNames_names
  kind := by
    refine .inl fun c hc => ?_
    cases hnewline : isNewline c with
    | false => rfl
    | true =>
      rcases Bool.or_eq_true_iff.1 hnewline with hnewline | hnewline
      · rw [eq_of_beq hnewline] at hc
        cases hc
      · rw [eq_of_beq hnewline] at hc
        cases hc

/-- `[^\s,;&]`. -/
def isSecretValue (c : Char) : Bool := !(isBlank c || c == ',' || c == ';' || c == '&')

/-- The first of `_SECRET_PATTERNS`. -/
def secretValue : Pattern Char where
  lead := keyed secretNames separator
  gap := isBlank
  run := isSecretValue
  append_of_lead h := by
    obtain ⟨_, _, _, _, ht, -⟩ := (credential_iff secretNames_names).1 h
    exact ht
  solid_of_lead := credential_solid secretNames_names
  lead_append := credential_append secretNames_names
  overlap := credential_overlap secretNames_names
  kind := .inr fun c hc => by simp [isSecretValue, hc]

/-- `[^&#\s]`. -/
def isParameterValue (c : Char) : Bool := !(isBlank c || c == '&' || c == '#')

/-- The second of `_SECRET_PATTERNS`. -/
def parameterValue : Pattern Char where
  lead := parameter
  gap _ := false
  run := isParameterValue
  append_of_lead h := by
    obtain ⟨_, _, ht, -⟩ := parameter_iff.1 h
    exact ht
  solid_of_lead h := by
    obtain ⟨q, key, -, rfl, -⟩ := parameter_iff.1 h
    exact ⟨q, _, rfl, rfl⟩
  lead_append h y := by
    obtain ⟨q, key, -, hk, hq, hname⟩ := parameter_iff.1 h
    refine parameter_iff.2 ⟨q, key, ?_, ?_, hq, hname⟩
    · cases y <;> simp
    · cases y <;> simp [hk]
  overlap := by
    intro a b k₁ x₁ k x hwhole hlead hlength
    obtain ⟨q, key, happend, rfl, -, hname⟩ := parameter_iff.1 hwhole
    obtain ⟨q', key', rfl, rfl, hq', -⟩ := parameter_iff.1 hlead
    cases a with
    | nil =>
      rw [List.nil_append, hlead, Option.some_inj, Prod.mk.injEq] at hwhole
      exact hwhole.1.symm
    | cons c a =>
      -- No sign that begins a parameter is in one.
      exfalso
      obtain ⟨-, happend⟩ := List.cons.inj happend
      have hmem : q' ∈ key ++ ['='] := by
        rcases List.append_eq_append_iff.1 happend with ⟨d, hd, hrest⟩ | ⟨d, hd, -⟩
        · cases d with
          | nil =>
            rw [List.append_nil] at hd
            rw [hd] at hlength
            simp at hlength
          | cons c' d =>
            obtain ⟨rfl, -⟩ := List.cons.inj hrest
            rw [hd]
            simp
        · rw [hd] at hlength
          simp only [List.length_cons, List.length_append] at hlength
          omega
      rcases List.mem_append.1 hmem with hmem | hmem
      · have hletter := isKeyLetter_of_fold parameterNames_names hname q' hmem
        rw [not_isKeyLetter (.inl (by rcases hq' with rfl | rfl <;> decide))] at hletter
        cases hletter
      · rw [List.mem_singleton.1 hmem] at hq'
        revert hq'
        decide
  kind := .inr fun c hc => by cases hc

def mark : List Char := "REDACTED]".toList

/-- `redact_text`. -/
def redactText (value : List Char) : List Char :=
  parameterValue.sub ('[' :: mark)
    (secretValue.sub ('[' :: mark) (authorizationValue.sub ('[' :: mark) value))

end LogRedaction

end Euvieouvi
