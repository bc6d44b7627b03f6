import Euvieouvi.Python

/-!
# External images

`ensure_external_cached`, `_download_external` and `_validate_external_url` (`media_images.py`).
Each server answers as it likes, knowing all requests so far; a redirect names the next URL.
`urlsplit` and `urljoin` (`urllib.parse`) raise `ValueError` or return; the client of `httpx`
returns a response, raises an `httpx.HTTPError`, or finds no URL in the text (`httpx.InvalidURL`,
which is none). What a stream brings beyond the limit is not read.
-/

namespace Euvieouvi

/-- The parts of a URL that are looked at. -/
structure SplitUrl where
  scheme : String
  username : Option String := none
  password : Option String := none
  hostname : Option String := none
  path : String := ""
  fragment : String := ""
deriving DecidableEq, Repr

/-- A `ValueError` of the library is its text. -/
structure UrlLib where
  urlsplit : String → Except String SplitUrl
  urljoin : String → String → Except String String
  lower : String → String

inductive ImageError
  /-- `ValueError`. -/
  | value (text : String)
  /-- `httpx.InvalidURL`. -/
  | invalidUrl
  /-- `KeyError`. -/
  | key (text : String)
  /-- `OSError`. -/
  | disk
deriving DecidableEq, Repr

structure ImageResponse where
  statusCode : Nat
  location : Option String := none
  contentType : Option String := none
  chunks : List (List UInt8) := []
  /-- The stream ends; otherwise it fails after the chunks. -/
  complete : Bool := true
deriving DecidableEq, Repr

inductive ImageAnswer
  | response (r : ImageResponse)
  | httpError
  | invalidUrl
deriving DecidableEq, Repr

/-- What the contacted servers answer to the last of these requests. -/
abbrev ImageServers := List String → ImageAnswer

/-- `_EXTENSIONS`. -/
def imageExtension : String → Option String
  | "image/jpeg" => some ".jpg"
  | "image/png" => some ".png"
  | "image/webp" => some ".webp"
  | _ => none

/-- `_MAX_EXTERNAL_BYTES`. -/
def maxExternalBytes : Nat := 5 * 1024 * 1024

/-- A text that is there and not empty. -/
def filled (text : Option String) : Bool := text.any (· ≠ "")

namespace UrlLib
variable (lib : UrlLib)

/-- `_validate_external_url`. -/
def validateExternalUrl (url : String) : Except ImageError Unit :=
  match lib.urlsplit url with
  | .error text => .error (.value text)
  | .ok parsed =>
    let host := lib.lower (parsed.hostname.getD "")
    if parsed.scheme ≠ "https" ∨ filled parsed.username ∨ filled parsed.password ∨
      parsed.fragment ≠ "" then
      .error (.value "External image URL is not allowed")
    else if host = "image.tmdb.org" ∧ "/t/p/w500/".toList <+: parsed.path.toList then .ok ()
    else if host = "coverartarchive.org" ∧ "/release/".toList <+: parsed.path.toList then .ok ()
    else if host = "archive.org" ∨ ".archive.org".toList <:+ host.toList then .ok ()
    else .error (.value "External image host is not allowed")

/-- The loop over the chunks, with what it has got. -/
def readChunks (complete : Bool) : List (List UInt8) → List UInt8 → Except ImageError (List UInt8)
  | [], got =>
    if !complete then .error (.value "External image request failed")
    else if got = [] then .error (.value "External image was empty")
    else .ok got
  | chunk :: chunks, got =>
    if maxExternalBytes < got.length + chunk.length then .error
      (.value "External image exceeded the size limit")
    else readChunks complete chunks (got ++ chunk)

def isRedirect (statusCode : Nat) : Bool := statusCode ∈ [301, 302, 303, 307, 308]

/-- `content_type.split(";", 1)[0].lower()`. -/
def mimeTypeOf (contentType : Option String) : String :=
  lib.lower (String.ofList ((contentType.getD "").toList.takeWhile (· ≠ ';')))

/-- A response that is no redirect. -/
def readImage (r : ImageResponse) : Except ImageError (List UInt8 × String) :=
  if ¬ (200 ≤ r.statusCode ∧ r.statusCode < 300) then .error
    (.value "External image request failed")
  else
    let mimeType := lib.mimeTypeOf r.contentType
    if imageExtension mimeType =
      none then .error (.value "External image returned an unsupported MIME type")
    else do return (← readChunks r.complete r.chunks [], mimeType)

/-- What comes of a download, and the requests that were made for it. -/
structure Download where
  result : Except ImageError (List UInt8 × String)
  requests : List String

/-- The loop of `_download_external`: how many rounds are left, the requests so far and the current
URL. -/
def download (servers : ImageServers) : Nat → List String → String → Download
  | 0, requests, _ => ⟨.error (.value "External image redirect limit exceeded"), requests⟩
  | rounds + 1, requests, current =>
    match lib.validateExternalUrl current with
    | .error e => ⟨.error e, requests⟩
    | .ok () =>
      match servers (requests ++ [current]) with
      | .invalidUrl => ⟨.error .invalidUrl, requests ++ [current]⟩
      | .httpError => ⟨.error (.value "External image request failed"), requests ++ [current]⟩
      | .response r =>
        if isRedirect r.statusCode then
          match r.location.filter (· ≠ "") with
          | none =>
            ⟨.error (.value "External image redirect omitted its destination"),
              requests ++ [current]⟩
          | some location =>
            match lib.urljoin current location with
            | .error text => ⟨.error (.value text), requests ++ [current]⟩
            | .ok next => download servers rounds (requests ++ [current]) next
        else ⟨lib.readImage r, requests ++ [current]⟩

/-- `_download_external`. -/
def downloadExternal (servers : ImageServers) (url : String) : Download :=
  lib.download servers 4 [] url

end UrlLib

/-! ### What a download keeps to -/

namespace UrlLib
variable {lib : UrlLib} {servers : ImageServers} {rounds : Nat} {requests : List String}
  {current url : String}

theorem readChunks_ok {complete : Bool} {chunks : List (List UInt8)} {got content : List UInt8}
    (hgot : got.length ≤ maxExternalBytes) (h : readChunks complete chunks got = .ok content) :
    content ≠ [] ∧ content.length ≤ maxExternalBytes := by
  induction chunks generalizing got with
  | nil =>
    unfold readChunks at h
    split at h
    · cases h
    split at h
    · cases h
    next hne =>
      cases h
      exact ⟨hne, hgot⟩
  | cons chunk chunks ih =>
    rw [readChunks] at h
    split at h
    · cases h
    next hsize => exact ih (by rw [List.length_append]; exact Nat.not_lt.1 hsize) h

theorem readChunks_error {complete : Bool} {chunks : List (List UInt8)} {got : List UInt8}
    {e : ImageError} (h : readChunks complete chunks got = .error e) : ∃ text, e = .value text := by
  induction chunks generalizing got with
  | nil =>
    unfold readChunks at h
    split at h
    · cases h; exact ⟨_, rfl⟩
    split at h
    · cases h; exact ⟨_, rfl⟩
    · cases h
  | cons chunk chunks ih =>
    rw [readChunks] at h
    split at h
    · cases h; exact ⟨_, rfl⟩
    · exact ih h

theorem readImage_ok {r : ImageResponse} {content : List UInt8} {mimeType : String}
    (h : lib.readImage r = .ok (content, mimeType)) :
    content ≠ [] ∧ (imageExtension mimeType).isSome = true ∧ content.length ≤ maxExternalBytes := by
  unfold readImage at h
  dsimp only at h
  split at h
  · cases h
  split at h
  · cases h
  next hmime =>
    cases hc : readChunks r.complete r.chunks [] with
    | error e => rw [hc] at h; cases h
    | ok got =>
      rw [hc] at h
      cases h
      obtain ⟨hne, hsize⟩ := readChunks_ok (Nat.zero_le _) hc
      exact ⟨hne, Option.isSome_iff_ne_none.2 hmime, hsize⟩

theorem readImage_error {r : ImageResponse} {e : ImageError} (h : lib.readImage r = .error e) :
    ∃ text, e = .value text := by
  unfold readImage at h
  dsimp only at h
  split at h
  · cases h; exact ⟨_, rfl⟩
  split at h
  · cases h; exact ⟨_, rfl⟩
  cases hc : readChunks r.complete r.chunks [] with
  | error e' =>
    rw [hc] at h
    cases h
    exact readChunks_error hc
  | ok got => rw [hc] at h; cases h

theorem validateExternalUrl_error {e : ImageError} (h : lib.validateExternalUrl url = .error e) :
    ∃ text, e = .value text := by
  unfold validateExternalUrl at h
  split at h
  · cases h; exact ⟨_, rfl⟩
  dsimp only at h
  split_ifs at h <;> cases h <;> exact ⟨_, rfl⟩

/-- The client takes for a URL what `urlsplit` does. -/
def Parses (lib : UrlLib) (servers : ImageServers) : Prop :=
  ∀ requests url parsed, lib.urlsplit url = .ok parsed → servers (requests ++ [url]) ≠ .invalidUrl

theorem urlsplit_of_valid (h : lib.validateExternalUrl url = .ok ()) :
    ∃ parsed, lib.urlsplit url = .ok parsed := by
  unfold validateExternalUrl at h
  split at h
  · cases h
  next parsed hparsed => exact ⟨parsed, hparsed⟩

/-- A round of the loop ends it, or it was a redirect and the loop goes on with one more allowed
request. -/
theorem download_succ (lib : UrlLib) (servers : ImageServers) (rounds : Nat)
    (requests : List String) (current : String) :
    (∃ text, lib.download servers (rounds + 1) requests current =
      ⟨.error (.value text), requests⟩) ∨
    lib.validateExternalUrl current = .ok () ∧
      ((∃ text, lib.download servers (rounds + 1) requests current =
        ⟨.error (.value text), requests ++ [current]⟩) ∨
      servers (requests ++ [current]) = .invalidUrl ∧
        lib.download servers (rounds + 1) requests current =
          ⟨.error .invalidUrl, requests ++ [current]⟩ ∨
      (∃ r, lib.download servers (rounds + 1) requests current =
        ⟨lib.readImage r, requests ++ [current]⟩) ∨
      ∃ next, lib.download servers (rounds + 1) requests current =
        lib.download servers rounds (requests ++ [current]) next) := by
  rw [download]
  cases hv : lib.validateExternalUrl current with
  | error e =>
    obtain ⟨text, rfl⟩ := validateExternalUrl_error hv
    exact .inl ⟨text, rfl⟩
  | ok u =>
    refine .inr ⟨rfl, ?_⟩
    dsimp only
    cases servers (requests ++ [current]) with
    | invalidUrl => exact .inr (.inl ⟨rfl, rfl⟩)
    | httpError => exact .inl ⟨_, rfl⟩
    | response r =>
      dsimp only
      split
      · split
        · exact .inl ⟨_, rfl⟩
        · split
          · exact .inl ⟨_, rfl⟩
          · exact .inr (.inr (.inr ⟨_, rfl⟩))
      · exact .inr (.inr (.inl ⟨r, rfl⟩))

/-- What holds of a download whose loop began with these requests and had this many rounds left. -/
structure KeepsTo (lib : UrlLib) (servers : ImageServers) (limit : Nat) (d : Download) : Prop where
  allowed : ∀ url ∈ d.requests, lib.validateExternalUrl url = .ok ()
  bounded : d.requests.length ≤ limit
  image : ∀ content mimeType, d.result = .ok (content, mimeType) →
    content ≠ [] ∧ (imageExtension mimeType).isSome = true ∧ content.length ≤ maxExternalBytes
  error : lib.Parses servers → ∀ e, d.result = .error e → ∃ text, e = .value text

/-- The invariant of the loop: the requests so far were allowed, and with the rounds left they stay
within the limit. -/
theorem keepsTo_download (limit : Nat)
    (hallowed : ∀ url ∈ requests, lib.validateExternalUrl url = .ok ())
    (hlimit : requests.length + rounds ≤ limit) :
    lib.KeepsTo servers limit (lib.download servers rounds requests current) := by
  have hvalue : ∀ (requests : List String) text,
      (∀ url ∈ requests, lib.validateExternalUrl url = .ok ()) → requests.length ≤ limit →
      lib.KeepsTo servers limit ⟨.error (.value text), requests⟩ := fun _ text ha hl =>
    ⟨ha, hl, fun _ _ h => (by cases h), fun _ e h => ⟨text, by cases h; rfl⟩⟩
  induction rounds generalizing requests current with
  | zero => exact hvalue _ _ hallowed hlimit
  | succ rounds ih =>
    rcases download_succ lib servers rounds requests current with ⟨text, h⟩ | ⟨hvalid, h⟩
    · rw [h]
      exact hvalue _ _ hallowed (by omega)
    have hallowed' : ∀ url ∈ requests ++ [current], lib.validateExternalUrl url = .ok () := by
      intro url hurl
      rcases List.mem_append.1 hurl with hurl | hurl
      · exact hallowed url hurl
      · rw [List.mem_singleton.1 hurl]
        exact hvalid
    have hlimit' : (requests ++ [current]).length + rounds ≤ limit := by
      rw [List.length_append, List.length_singleton]
      omega
    rcases h with ⟨text, h⟩ | ⟨hinvalid, h⟩ | ⟨r, h⟩ | ⟨next, h⟩
    · rw [h]
      exact hvalue _ _ hallowed' (by omega)
    · rw [h]
      refine ⟨hallowed', by dsimp only; omega, fun _ _ h => (by cases h), fun hparses => ?_⟩
      obtain ⟨parsed, hparsed⟩ := urlsplit_of_valid hvalid
      exact absurd hinvalid (hparses requests current parsed hparsed)
    · rw [h]
      exact ⟨hallowed', by
        dsimp only; omega, fun _ _ h => readImage_ok h, fun _ _ h => readImage_error h⟩
    · rw [h]
      exact ih hallowed' hlimit'

end UrlLib

/-- The row of an image and the files of the cache directory. -/
structure ImageCache where
  image : MediaImage
  files : List (String × List UInt8)

namespace ImageCache

def hasFile (cache : ImageCache) (name : String) : Bool := cache.files.any (·.1 == name)

/-- `_store`; `writable` tells whether the temporary file can be written and put in place. -/
def store (writable : Bool) (now : Time) (content : List UInt8) (mimeType extension digest : String)
    (cache : ImageCache) :
    Except ImageError String × ImageCache :=
  let filename := digest ++ extension
  if !writable then (.error .disk, cache)
  else (.ok filename, {
    image := { cache.image with
      localFilename := some filename
      mimeType := some mimeType
      cacheStatus := "cached"
      cachedAt := some now }
    files := (filename, content) :: cache.files.filter (·.1 != filename) })

/-- The digest of an external image, the name of its file. -/
def externalDigest (py : PyLib) (image : MediaImage) (url : String) : String :=
  String.ofList
    ((py.sha256 s!"{image.provider}:{image.mediaItemId}:{image.imageType}:{url}").toList.take 32)

/-- `ensure_external_cached`: the name of the file, or an error; what is cached afterwards; and the
requests. -/
def ensureExternalCached (py : PyLib) (lib : UrlLib) (servers : ImageServers) (writable : Bool)
    (now : Time) (cache : ImageCache) :
    (Except ImageError String × ImageCache) × List String :=
  match (cache.image.localFilename.filter (· ≠ "")).filter cache.hasFile with
  | some name => ((.ok name, cache), [])
  | none =>
    match cache.image.sourceUrl.filter fun _ =>
      cache.image.provider ∈ ["tmdb", "coverartarchive"] with
    | none => ((.error (.value "External cache entry is incomplete or unsupported"), cache), [])
    | some url =>
      let d := lib.downloadExternal servers url
      match d.result with
      | .error e => ((.error e, cache), d.requests)
      | .ok (content, mimeType) =>
        match imageExtension mimeType with
        | none => ((.error (.key mimeType), cache), d.requests)
        | some extension =>
          (cache.store writable now content mimeType extension (externalDigest py cache.image url),
            d.requests)

variable {py : PyLib} {lib : UrlLib} {servers : ImageServers} {writable : Bool} {now : Time}
  {cache : ImageCache}

/-- Without an error the cache may have changed; with one it has not. -/
theorem store_error {content : List UInt8} {mimeType extension digest : String} {e : ImageError}
    (h : (cache.store writable now content mimeType extension digest).1 = .error e) :
    (cache.store writable now content mimeType extension digest).2 = cache ∧ e = .disk := by
  unfold store at h ⊢
  dsimp only at h ⊢
  split at h
  next hw =>
    cases h
    rw [if_pos hw]
    exact ⟨rfl, rfl⟩
  · cases h

/-- What a call comes to: it ends without a request and leaves the cache alone, or it downloads the
image of the row; a download that fails leaves the cache alone too. -/
theorem ensureExternalCached_cases (py : PyLib) (lib : UrlLib) (servers : ImageServers)
    (writable : Bool) (now : Time) (cache : ImageCache) :
    (∃ name, cache.ensureExternalCached py lib servers writable now = ((.ok name, cache), [])) ∨
    (∃ text, cache.ensureExternalCached py lib servers writable now =
      ((.error (.value text), cache), [])) ∨
    ∃ url, (∃ e, (lib.downloadExternal servers url).result = .error e ∧
        cache.ensureExternalCached py lib servers writable now =
          ((.error e, cache), (lib.downloadExternal servers url).requests)) ∨
      ∃ content mimeType extension, (lib.downloadExternal servers url).result =
        .ok (content, mimeType) ∧
        cache.ensureExternalCached py lib servers writable now =
          (cache.store writable now content mimeType extension (externalDigest py cache.image url),
            (lib.downloadExternal servers url).requests) := by
  unfold ensureExternalCached
  split
  next name _ => exact .inl ⟨name, rfl⟩
  split
  · exact .inr (.inl ⟨_, rfl⟩)
  next url _ =>
    refine .inr (.inr ⟨url, ?_⟩)
    dsimp only
    split
    next e he => exact .inl ⟨e, he, rfl⟩
    next content mimeType hd =>
      obtain ⟨-, hmime, -⟩ :=
        (UrlLib.keepsTo_download 4 (by simp) (by simp)).image content mimeType hd
      obtain ⟨extension, hextension⟩ := Option.isSome_iff_exists.1 hmime
      rw [hextension]
      exact .inr ⟨content, mimeType, extension, hd, rfl⟩

/-- Whatever the servers answer: a download requests allowed URLs only, four at most, and returns an
image that is not empty, has an allowed type and is within the limit; every other outcome is a
`ValueError`, if the client knows the URLs that `urlsplit` knows. An image is stored only after such
a download, and an error leaves the cache as it was. -/
theorem external_images_stay_allowed (py : PyLib) (lib : UrlLib) (servers : ImageServers)
    (writable : Bool) (now : Time) :
    (∀ url, lib.KeepsTo servers 4 (lib.downloadExternal servers url)) ∧
    ∀ cache, let outcome := ensureExternalCached py lib servers writable now cache
      (∀ url ∈ outcome.2, lib.validateExternalUrl url = .ok ()) ∧ outcome.2.length ≤ 4 ∧
      (∀ e, outcome.1.1 = .error e → outcome.1.2 = cache ∧
        (lib.Parses servers → (∃ text, e = .value text) ∨
        e = .disk ∧ ∃ url content mimeType, (lib.downloadExternal servers url).result =
          .ok (content, mimeType))) ∧
      (outcome.1.2 ≠ cache → ∃ url content mimeType extension,
        (lib.downloadExternal servers url).result = .ok (content, mimeType) ∧
          outcome.1 = cache.store writable now content mimeType extension
            (externalDigest py cache.image url)) := by
  have hdownload : ∀ url, lib.KeepsTo servers 4 (lib.downloadExternal servers url) := fun url =>
    UrlLib.keepsTo_download _ (by simp) (by simp)
  refine ⟨hdownload, fun cache => ?_⟩
  rcases ensureExternalCached_cases py lib servers writable now cache with ⟨name, h⟩ | ⟨text, h⟩ |
    ⟨url, ⟨e, he, h⟩ | ⟨content, mimeType, extension, hd, h⟩⟩
  · rw [h]
    exact ⟨by simp, by simp, fun e he => (by cases he), fun hne => absurd rfl hne⟩
  · rw [h]
    exact ⟨by simp, by
      simp, fun e he => ⟨rfl, fun _ => .inl ⟨text, by cases he; rfl⟩⟩, fun hne => absurd rfl hne⟩
  · rw [h]
    refine ⟨(hdownload url).allowed, (hdownload url).bounded, fun e' he' =>
      ⟨rfl, fun hparses => ?_⟩, fun hne => absurd rfl hne⟩
    cases he'
    exact .inl ((hdownload url).error hparses e he)
  · rw [h]
    refine ⟨(hdownload url).allowed, (hdownload url).bounded, fun e he => ?_, fun _ =>
      ⟨url, content, mimeType, extension, hd, rfl⟩⟩
    obtain ⟨hsame, rfl⟩ := store_error he
    exact ⟨hsame, fun _ => .inr ⟨rfl, url, content, mimeType, hd⟩⟩

end ImageCache

end Euvieouvi
