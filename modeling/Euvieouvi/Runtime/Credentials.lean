import Euvieouvi.Database

/-!
# Stored credentials

`credentials.py`: secrets of sources and sensitive settings are encrypted when they are saved, and a
migration encrypts what older versions stored. A value that begins with `enc:v1:` counts as
encrypted, whoever wrote it: such a secret is stored as it is. `Fernet` is the cipher of
`cryptography`; `nonce` stands for the time and the random bytes of a call.
-/

namespace Euvieouvi

/-- `_PREFIX`. -/
def encryptedPrefix : List Char := "enc:v1:".toList

/-- `SENSITIVE_SETTING_KEYS`. -/
def sensitiveSettingKeys : List String :=
  ["metadata.tmdb.token", "webhook.plex.token", "webhook.jellyfin.token"]

structure Fernet where
  /-- `encrypt(value.encode("utf-8")).decode("ascii")`. -/
  encrypt : Nat → String → String
  /-- `decrypt(token.encode("ascii")).decode("utf-8")`; `none` for an invalid token or text. -/
  decrypt : String → Option String

/-- Decryption inverts encryption. -/
def Fernet.Inverts (fernet : Fernet) : Prop :=
  ∀ nonce value, fernet.decrypt (fernet.encrypt nonce value) = some value

inductive ConfigurationError
  | notConfigured
  | misconfigured
  | cannotDecrypt
deriving DecidableEq, Repr

def ConfigurationError.text : ConfigurationError → String
  | notConfigured => "Credential encryption is not configured."
  | misconfigured => "Credential encryption is not configured correctly."
  | cannotDecrypt => "Stored credentials cannot be decrypted with this installation's master key."

/-- The configured key and the cipher that `Fernet(key)` makes of it, if it is a key. -/
structure Installation where
  credentialEncryptionKey : Option String
  fernet : String → Option Fernet

def isEncrypted (value : String) : Bool := encryptedPrefix.isPrefixOf value.toList

namespace Installation
variable (installation : Installation)

/-- `_cipher`. -/
def cipher : Except ConfigurationError Fernet :=
  match installation.credentialEncryptionKey.filter (· ≠ "") with
  | none => .error .notConfigured
  | some key => match installation.fernet key with
    | none => .error .misconfigured
    | some fernet => .ok fernet

def encrypted (fernet : Fernet) (nonce : Nat) (value : String) : String :=
  String.ofList (encryptedPrefix ++ (fernet.encrypt nonce value).toList)

def encryptText (nonce : Nat) (value : String) : Except ConfigurationError String :=
  if isEncrypted value then .ok value
  else do return encrypted (← installation.cipher) nonce value

def decryptText (value : String) : Except ConfigurationError String :=
  if isEncrypted value then do
    match (← installation.cipher).decrypt
      (String.ofList (value.toList.drop encryptedPrefix.length)) with
    | some text => return text
    | none => throw .cannotDecrypt
  else .ok value

end Installation

structure Setting where
  key : String
  value : String
deriving DecidableEq, Repr

/-- The tables with credentials. -/
structure CredentialRows where
  sources : Table Source.id
  settings : Table Setting.key

/-- Where a secret is kept: the secret of a source, or the value of a setting. -/
inductive SecretPlace
  | source (id : Nat)
  | setting (key : String)
deriving DecidableEq, Repr

def SecretPlace.Sensitive : SecretPlace → Prop
  | source _ => True
  | setting key => key ∈ sensitiveSettingKeys

/-- `source.secret = …`. -/
def Source.assignSecret (f : Source → String) : Assignment Source.id where
  apply s := { s with secret := f s }

/-- `setting.value = …`. -/
def Setting.assignValue (f : Setting → String) : Assignment Setting.key where
  apply s := { s with value := f s }

namespace CredentialRows
variable (installation : Installation) (nonce : Nat) (rows : CredentialRows)

/-- `setting_value`. -/
def settingValue (setting : Option Setting) : Except ConfigurationError (Option String) :=
  match setting with
  | none => .ok none
  | some setting =>
    if setting.key ∈ sensitiveSettingKeys then some <$> installation.decryptText setting.value
      else .ok (some setting.value)

def saveSettingValue (key value : String) : Except ConfigurationError CredentialRows := do
  let persisted ← if key ∈ sensitiveSettingKeys then installation.encryptText nonce value
    else .ok value
  return { rows with
    settings :=
      if rows.settings.contains key then rows.settings.update (·.key == key)
        (Setting.assignValue fun _ => persisted)
      else rows.settings.insert ⟨key, persisted⟩ }

/-- A source is stored with a secret: a new row, or a new secret of the old one. -/
def saveSourceSecret (source : Source) (secret : String) :
    Except ConfigurationError CredentialRows := do
  let persisted ← installation.encryptText nonce secret
  return { rows with
    sources :=
      if rows.sources.contains source.id then rows.sources.update (·.id == source.id)
        (Source.assignSecret fun _ => persisted)
      else rows.sources.insert { source with secret := persisted } }

def legacySource (source : Source) : Bool := !isEncrypted source.secret

def legacySetting (setting : Setting) : Bool :=
  decide (setting.key ∈ sensitiveSettingKeys) && !isEncrypted setting.value

/-- `migrate_persisted_credentials`: the rows and the numbers of sources and settings that it has
encrypted. -/
def migratePersistedCredentials (nonces : SecretPlace → Nat) :
    Except ConfigurationError (CredentialRows × Nat × Nat) :=
  let counts := (rows.sources.rows.countP legacySource, rows.settings.rows.countP legacySetting)
  if counts = (0, 0) then .ok (rows, counts)
  else do
    let fernet ← installation.cipher
    return ({
      sources := rows.sources.update legacySource
        (Source.assignSecret fun s =>
          Installation.encrypted fernet (nonces (.source s.id)) s.secret)
      settings := rows.settings.update legacySetting
        (Setting.assignValue fun s =>
          Installation.encrypted fernet (nonces (.setting s.key)) s.value) }, counts)

/-- One migration after the other. -/
def migrateAll (runs : List (SecretPlace → Nat)) : Except ConfigurationError CredentialRows :=
  runs.foldlM
    (fun rows nonces => Prod.fst <$> rows.migratePersistedCredentials installation nonces) rows

/-- The text that is stored in a place. -/
def atRest : SecretPlace → Option String
  | .source id => (rows.sources.get? id).map (·.secret)
  | .setting key => (rows.settings.get? key).map (·.value)

/-- What is read from a place: `decrypt_text(source.secret)` or `setting_value(setting)`. -/
def read : SecretPlace → Except ConfigurationError (Option String)
  | .source id => match rows.sources.get? id with
    | some source => some <$> installation.decryptText source.secret
    | none => .ok none
  | .setting key => settingValue installation (rows.settings.get? key)

/-- A secret is saved in a place. A source that is not there yet is stored as the row `source`. -/
def save (source : Nat → Source) : SecretPlace → String → Except ConfigurationError CredentialRows
  | .source id, secret =>
    rows.saveSourceSecret installation nonce { source id with id := id } secret
  | .setting key, secret => rows.saveSettingValue installation nonce key secret

end CredentialRows

/-! ### Round trips -/

theorem isEncrypted_encrypted (fernet : Fernet) (nonce : Nat) (value : String) :
    isEncrypted (Installation.encrypted fernet nonce value) = true := by
  unfold isEncrypted Installation.encrypted
  rw [String.toList_ofList, List.isPrefixOf_iff_prefix]
  exact List.prefix_append _ _

namespace Installation
variable {installation : Installation} {nonce : Nat} {value stored : String} {fernet : Fernet}

/-- The cipher of the installation gives back what it has encrypted. -/
def Inverts (installation : Installation) : Prop :=
  ∀ fernet, installation.cipher = .ok fernet → fernet.Inverts

theorem decryptText_of_legacy (h : isEncrypted value = false) :
    installation.decryptText value = .ok value := by
  unfold decryptText
  rw [h]
  rfl

theorem decryptText_encrypted (hc : installation.cipher = .ok fernet) (hinv : fernet.Inverts) :
    installation.decryptText (encrypted fernet nonce value) = .ok value := by
  unfold decryptText
  rw [isEncrypted_encrypted, if_pos rfl, hc]
  have hrest : String.ofList ((encrypted fernet nonce value).toList.drop encryptedPrefix.length) =
      fernet.encrypt nonce value := by
    rw [encrypted, String.toList_ofList, List.drop_left, String.ofList_toList]
  show (match fernet.decrypt
      (String.ofList ((encrypted fernet nonce value).toList.drop encryptedPrefix.length)) with
    | some text => pure text
    | none => throw ConfigurationError.cannotDecrypt : Except ConfigurationError String) = .ok value
  rw [hrest, hinv nonce value]
  rfl

/-- What `encrypt_text` stores: the text itself if it looks encrypted, and its ciphertext
otherwise. -/
theorem encryptText_eq_ok : installation.encryptText nonce value = .ok stored ↔
    isEncrypted value = true ∧ stored = value ∨
      isEncrypted value = false ∧ ∃ fernet, installation.cipher = .ok fernet ∧
      stored = encrypted fernet nonce value := by
  unfold encryptText
  cases isEncrypted value with
  | true => simp [eq_comm]
  | false =>
    cases installation.cipher with
    | error e => simp [bind, Except.bind]
    | ok fernet => simp [bind, Except.bind, pure, Except.pure, eq_comm]

end Installation

namespace CredentialRows
variable {installation : Installation} {nonce : Nat} {rows rows' : CredentialRows}
  {nonces : SecretPlace → Nat} {place : SecretPlace}
  {stored : String}

theorem read_eq (hplace : place.Sensitive) : rows.read installation place =
    match rows.atRest place with
    | some stored => some <$> installation.decryptText stored
    | none => .ok none := by
  cases place with
  | source id =>
    simp only [read, atRest]
    cases rows.sources.get? id <;> rfl
  | setting key =>
    simp only [read, atRest, settingValue]
    cases hs : rows.settings.get? key with
    | none => rfl
    | some s =>
      have hkey : s.key ∈ sensitiveSettingKeys := (Table.key_of_get? hs) ▸ hplace
      simp [hkey]

theorem get?_sources_migrated {fernet : Fernet} {id : Nat} {s : Source}
    (hs : rows.sources.get? id = some s) :
    ((rows.sources.update legacySource
      (Source.assignSecret fun s =>
        Installation.encrypted fernet (nonces (.source s.id)) s.secret)).get? id).map (·.secret) =
      some (if isEncrypted s.secret then s.secret else Installation.encrypted fernet
        (nonces (.source id)) s.secret) := by
  have hid := Table.key_of_get? hs
  rw [Table.get?_update, hs]
  cases he : isEncrypted s.secret <;> simp [legacySource, Source.assignSecret, hid, he]

theorem get?_settings_migrated {fernet : Fernet} {key : String} {s : Setting}
    (hkey : key ∈ sensitiveSettingKeys) (hs : rows.settings.get? key = some s) :
    ((rows.settings.update legacySetting
      (Setting.assignValue fun s =>
        Installation.encrypted fernet (nonces (.setting s.key)) s.value)).get? key).map (·.value) =
      some (if isEncrypted s.value then s.value else Installation.encrypted fernet
        (nonces (.setting key)) s.value) := by
  have hk := Table.key_of_get? hs
  rw [Table.get?_update, hs]
  cases he : isEncrypted s.value <;> simp [legacySetting, Setting.assignValue, hkey, hk, he]

/-- A secret in plain text is counted. -/
theorem legacy_counted (hplace : place.Sensitive) (hstored : rows.atRest place = some stored)
    (hlegacy : isEncrypted stored = false) :
    (rows.sources.rows.countP legacySource, rows.settings.rows.countP legacySetting) ≠ (0, 0) := by
  intro h
  obtain ⟨hsources, hsettings⟩ := Prod.mk.inj h
  cases place with
  | source id =>
    obtain ⟨s, hs, rfl⟩ := Option.map_eq_some_iff.1 hstored
    exact List.countP_eq_zero.1 hsources s (Table.mem_of_get? hs) (by simp [legacySource, hlegacy])
  | setting key =>
    obtain ⟨s, hs, rfl⟩ := Option.map_eq_some_iff.1 hstored
    have hkey : s.key ∈ sensitiveSettingKeys := (Table.key_of_get? hs) ▸ hplace
    exact List.countP_eq_zero.1 hsettings s (Table.mem_of_get? hs)
      (by simp [legacySetting, hlegacy, hkey])

/-- A migration encrypts what is stored in plain text and leaves everything else as it is. -/
theorem atRest_migrate {counts : Nat × Nat} (hplace : place.Sensitive)
    (h : rows.migratePersistedCredentials installation nonces = .ok (rows', counts))
    (hstored : rows.atRest place = some stored) :
    isEncrypted stored = true ∧ rows'.atRest place = some stored ∨
      isEncrypted stored = false ∧ ∃ fernet, installation.cipher = .ok fernet ∧
        rows'.atRest place = some (Installation.encrypted fernet (nonces place) stored) := by
  unfold migratePersistedCredentials at h
  dsimp only at h
  split at h
  next hzero =>
    cases h
    refine .inl ⟨?_, hstored⟩
    by_contra hlegacy
    exact legacy_counted hplace hstored (Bool.eq_false_iff.2 hlegacy) hzero
  next =>
    cases hc : installation.cipher with
    | error e => rw [hc] at h; cases h
    | ok fernet =>
      rw [hc] at h
      obtain ⟨hrows, -⟩ := Prod.mk.inj (Except.ok.inj h)
      have hafter : rows'.atRest place = some (if isEncrypted stored then stored
          else Installation.encrypted fernet (nonces place) stored) := by
        rw [← hrows]
        cases place with
        | source id =>
          obtain ⟨s, hs, rfl⟩ := Option.map_eq_some_iff.1 hstored
          exact get?_sources_migrated hs
        | setting key =>
          obtain ⟨s, hs, rfl⟩ := Option.map_eq_some_iff.1 hstored
          exact get?_settings_migrated hplace hs
      cases he : isEncrypted stored with
      | true => exact .inl ⟨rfl, by rw [hafter, he]; rfl⟩
      | false => exact .inr ⟨rfl, fernet, rfl, by rw [hafter, he]; rfl⟩

/-- A migration changes nothing of what is read. -/
theorem read_migrate {counts : Nat × Nat} (hinv : installation.Inverts) (hplace : place.Sensitive)
    (h : rows.migratePersistedCredentials installation nonces = .ok (rows', counts))
    (hstored : rows.atRest place = some stored) :
    rows'.read installation place = rows.read installation place := by
  rw [read_eq hplace, read_eq hplace, hstored]
  rcases atRest_migrate hplace h hstored with ⟨-, hafter⟩ | ⟨hlegacy, fernet, hc, hafter⟩
  · rw [hafter]
  · rw [hafter]
    show some <$> installation.decryptText _ = some <$> installation.decryptText _
    rw [Installation.decryptText_encrypted hc (hinv fernet hc),
      Installation.decryptText_of_legacy hlegacy]

/-- Migrations change nothing of what is read, nor of a text that is encrypted. -/
theorem read_migrateAll (hinv : installation.Inverts) (hplace : place.Sensitive)
    {runs : List (SecretPlace → Nat)}
    (h : rows.migrateAll installation runs = .ok rows')
    (hstored : rows.atRest place = some stored) :
    rows'.read installation place = rows.read installation place ∧
      ∃ stored', rows'.atRest place = some stored' ∧
      (isEncrypted stored = true → stored' = stored) := by
  induction runs generalizing rows stored with
  | nil =>
    cases h
    exact ⟨rfl, stored, hstored, fun _ => rfl⟩
  | cons nonces runs ih =>
    cases hm : rows.migratePersistedCredentials installation nonces with
    | error e =>
      rw [migrateAll, List.foldlM_cons, hm] at h
      cases h
    | ok result =>
      obtain ⟨rows₁, counts⟩ := result
      rw [migrateAll, List.foldlM_cons, hm] at h
      have hread := read_migrate hinv hplace hm hstored
      rcases atRest_migrate hplace hm hstored with ⟨-, hafter⟩ | ⟨hlegacy, fernet, -, hafter⟩
      · obtain ⟨hrest, hkept⟩ := ih h hafter
        exact ⟨hrest.trans hread, hkept⟩
      · obtain ⟨hrest, stored', hstored', -⟩ := ih h hafter
        exact ⟨hrest.trans hread, stored', hstored', fun he => by rw [hlegacy] at he; cases he⟩

/-- What is stored in a place is what `encrypt_text` makes of the secret. -/
theorem atRest_save {source : Nat → Source} {secret : String} (hplace : place.Sensitive)
    (h : rows.save installation nonce source place secret = .ok rows') :
    ∃ stored, installation.encryptText nonce secret = .ok stored ∧
    rows'.atRest place = some stored := by
  cases he : installation.encryptText nonce secret with
  | error e =>
    cases place with
    | source id => simp [save, saveSourceSecret, he, bind, Except.bind] at h
    | setting key =>
      simp [save, saveSettingValue, show key ∈ sensitiveSettingKeys from hplace, he, bind,
        Except.bind] at h
  | ok stored =>
    refine ⟨stored, rfl, ?_⟩
    cases place with
    | source id =>
      simp only [save, saveSourceSecret, he, bind, Except.bind, pure, Except.pure,
        Except.ok.injEq] at h
      subst h
      dsimp only [atRest]
      split
      next hc =>
        obtain ⟨s, hs⟩ := Option.isSome_iff_exists.1 hc
        rw [Table.get?_update, hs]
        simp [Source.assignSecret, Table.key_of_get? hs]
      next hc =>
        have hnone :
            rows.sources.get? (Source.id { source id with id := id, secret := stored }) = none := by
          simpa [Table.contains] using hc
        exact congrArg (Option.map (·.secret)) (Table.get?_insert_self hnone)
    | setting key =>
      simp only [save, saveSettingValue, if_pos (show key ∈ sensitiveSettingKeys from hplace), he,
        bind, Except.bind, pure, Except.pure,
        Except.ok.injEq] at h
      subst h
      dsimp only [atRest]
      split
      next hc =>
        obtain ⟨s, hs⟩ := Option.isSome_iff_exists.1 hc
        rw [Table.get?_update, hs]
        simp [Setting.assignValue, Table.key_of_get? hs]
      next hc =>
        have hnone : rows.settings.get? (Setting.key ⟨key, stored⟩) = none := by
          simpa [Table.contains] using hc
        exact congrArg (Option.map (·.value)) (Table.get?_insert_self hnone)

end CredentialRows

/-- Whatever is done with the secret, it comes back as it was, and the text that is stored is not
the secret itself. -/
structure SecretKept (installation : Installation) (secret : String) : Prop where
  text : ∀ nonce stored, installation.encryptText nonce secret = .ok stored →
    installation.decryptText stored = .ok secret ∧ stored ≠ secret
  rows : ∀ (rows rows₁ rows₂ : CredentialRows) source place nonce runs, place.Sensitive →
    rows.save installation nonce source place secret = .ok rows₁ →
      rows₁.migrateAll installation runs = .ok rows₂ →
    rows₂.read installation place = .ok (some secret) ∧ ∀ stored, rows₂.atRest place = some stored →
      stored ≠ secret

/-- A text that does not look encrypted is encrypted, and decrypted again to what it was. -/
theorem encryptText_kept {installation : Installation} (hinv : installation.Inverts)
    {secret stored : String} {nonce : Nat}
    (hplain : isEncrypted secret = false) (h : installation.encryptText nonce secret = .ok stored) :
    isEncrypted stored = true ∧ installation.decryptText stored = .ok secret ∧ stored ≠ secret := by
  rcases Installation.encryptText_eq_ok.1 h with ⟨he, -⟩ | ⟨-, fernet, hc, rfl⟩
  · rw [hplain] at he
    cases he
  · have he := isEncrypted_encrypted fernet nonce secret
    refine ⟨he, Installation.decryptText_encrypted hc (hinv fernet hc), fun heq => ?_⟩
    rw [heq, hplain] at he
    cases he

/-- Exactly the secrets that do not begin with `enc:v1:` are kept: such a text is taken for one that
is encrypted already. -/
theorem secret_kept_iff (installation : Installation) (hinv : installation.Inverts)
    (secret : String) :
    SecretKept installation secret ↔ isEncrypted secret = false := by
  refine ⟨fun h => Bool.eq_false_iff.2 fun he => ?_, fun hplain =>
    ⟨fun nonce stored hstored => ?_, ?_⟩⟩
  · exact (h.text 0 secret (Installation.encryptText_eq_ok.2 (.inl ⟨he, rfl⟩))).2 rfl
  · exact (encryptText_kept hinv hplain hstored).2
  · intro rows rows₁ rows₂ source place nonce runs hplace hsave hruns
    obtain ⟨stored, hstored, hat⟩ := CredentialRows.atRest_save hplace hsave
    obtain ⟨he, hdecrypt, hne⟩ := encryptText_kept hinv hplain hstored
    obtain ⟨hread, stored', hat', hsame⟩ := CredentialRows.read_migrateAll hinv hplace hruns hat
    refine ⟨?_, fun t ht => ?_⟩
    · rw [hread, CredentialRows.read_eq hplace, hat]
      show some <$> installation.decryptText stored = _
      rw [hdecrypt]
      rfl
    · rw [hat'] at ht
      cases ht
      rw [hsame he]
      exact hne

/-- A cipher whose tokens are the texts behind a fixed beginning. -/
def plainFernet : Fernet where
  encrypt _ value := "gAAAAA" ++ value
  decrypt token := if "gAAAAA".toList.isPrefixOf token.toList then some
    (String.ofList (token.toList.drop 6)) else none

def keyedInstallation : Installation := ⟨some "key", fun _ => some plainFernet⟩

theorem keyedInstallation_inverts : keyedInstallation.Inverts := by
  intro fernet h
  cases h
  intro nonce value
  have hstart : "gAAAAA".toList.isPrefixOf (plainFernet.encrypt nonce value).toList = true := by
    rw [List.isPrefixOf_iff_prefix]
    show _ <+: ("gAAAAA" ++ value).toList
    rw [String.toList_append]
    exact List.prefix_append _ _
  show (if "gAAAAA".toList.isPrefixOf (plainFernet.encrypt nonce value).toList =
    true then _ else none) = _
  rw [if_pos hstart]
  show some (String.ofList (("gAAAAA" ++ value).toList.drop 6)) = some value
  rw [String.toList_append, List.drop_left' (by decide), String.ofList_toList]

theorem token_kept : SecretKept keyedInstallation "token" :=
  (secret_kept_iff keyedInstallation keyedInstallation_inverts "token").2 (by decide)

/-- A secret that looks encrypted is stored as it is. -/
theorem encrypted_looking_secret_stored :
    keyedInstallation.Inverts ∧ ¬ SecretKept keyedInstallation "enc:v1:token" := by
  refine ⟨keyedInstallation_inverts, fun h => ?_⟩
  have hstored : keyedInstallation.encryptText 0 "enc:v1:token" = .ok "enc:v1:token" :=
    Installation.encryptText_eq_ok.2 (.inl ⟨by decide, rfl⟩)
  exact (h.text 0 _ hstored).2 rfl

end Euvieouvi
