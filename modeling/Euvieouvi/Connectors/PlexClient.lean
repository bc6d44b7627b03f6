import Euvieouvi.Lib.Doubles

/-!
# The HTTP client of Plex

`PlexHttpClient._get` (`connectors/plex/client.py`) with its redirects, its bounded reading and its
retries. The server answers as it likes, knowing all requests so far; every request carries the
token. `urlsplit` and `urljoin` (`urllib.parse`) raise `ValueError` or return, `port` is looked at
after the split, and `float` reads a text or refuses it.
-/

namespace Euvieouvi

/-- `urlsplit(url)`, as far as it is looked at. -/
structure UrlOrigin where
  scheme : String
  hostname : Option String
  port : Except String (Option Nat)

structure PlexLib where
  urlsplit : String → Except String UrlOrigin
  urljoin : String → String → Except String String
  /-- `float` of a text, or nothing where it raises `ValueError`. -/
  float : String → Option Double

/-- What `__init__` accepts. -/
structure PlexClient where
  baseUrl : String
  retries : Nat := 2
  maxRedirects : Nat := 2
  maxResponseBytes : Nat := 10 * 1024 * 1024
  retries_le : retries ≤ 5
  maxRedirects_le : maxRedirects ≤ 5

structure PlexRequest where
  url : String
  params : Option (List (String × String))
deriving DecidableEq

/-- How a stream ends. -/
inductive StreamEnd | complete | timedOut | failed
deriving DecidableEq, Repr

structure PlexResponse where
  statusCode : Nat
  location : Option String := none
  retryAfter : Option String := none
  contentType : Option String := none
  chunks : List (List UInt8) := []
  ended : StreamEnd := .complete

/-- `httpx.InvalidURL` is no `httpx.RequestError`. -/
inductive PlexAnswer
  | response (r : PlexResponse)
  | timedOut
  | failed
  | invalidUrl

/-- What the server answers to the last of these requests. -/
abbrev PlexServer := List PlexRequest → PlexAnswer

/-- `PlexPayload`. -/
structure PlexPayload where
  content : List UInt8
  contentType : String
deriving DecidableEq

inductive PlexError
  | configuration (text : String)
  | authentication (text : String)
  | connection (text : String)
  | timeout (text : String)
  | rateLimit (text : String) (retryAfterSeconds : Option Double)
  | notFound (text : String)
  | response (text : String)
  /-- `ValueError`. -/
  | value (text : String)
  /-- `httpx.InvalidURL`. -/
  | invalidUrl
deriving DecidableEq

/-- What the client keeps of a response. -/
structure PlexReply where
  statusCode : Nat
  location : Option String
  retryAfter : Option String
  contentType : Option String
  content : List UInt8

/-- How an attempt ends. -/
inductive PlexAttempt
  | replied (reply : PlexReply)
  | timedOut
  | failed
  | raised (e : PlexError)

/-- What comes of a call, the requests that were made for it, and the pauses between the
attempts. -/
structure PlexExchange where
  result : Except PlexError PlexPayload
  requests : List PlexRequest
  pauses : List Double

/-- `_REDIRECT_STATUSES`. -/
def redirectStatuses : List Nat := [301, 302, 303, 307, 308]

/-- `_RETRYABLE_STATUSES`. -/
def retryableStatuses : List Nat := [429, 502, 503, 504]

namespace PlexLib
variable (lib : PlexLib)

/-- `_same_origin`. -/
def sameOrigin (baseUrl candidate : String) : Except String Bool := do
  let base ← lib.urlsplit baseUrl
  let other ← lib.urlsplit candidate
  let basePort ← base.port
  let otherPort ← other.port
  return (base.scheme, base.hostname, basePort) = (other.scheme, other.hostname, otherPort)

/-- `min(max(result, 0.0), 60.0)`; a text that stands for no number stays none. -/
def clampRetryAfter : Double → Double
  | .nan => .nan
  | .infinite negative => .finite false (if negative then 0 else 60 * 2 ^ 1074)
  | .finite true units => .finite (units = 0) 0
  | .finite false units => .finite false (min units (60 * 2 ^ 1074))

/-- `_parse_retry_after`. -/
def parseRetryAfter (value : Option String) : Option Double :=
  (value.bind lib.float).map clampRetryAfter

/-- `_backoff`, where `random.uniform(0, 0.1)` has drawn this many units. -/
def backoff (jitter attempt : Nat) : Double :=
  .finite false (min (Double.nearestUnits (2 ^ attempt * 2 ^ 1072 + jitter) 1) (2 * 2 ^ 1074))

/-- `_retry_delay`. -/
def retryDelay (jitter : Nat) (reply : PlexReply) (attempt : Nat) : Double :=
  (lib.parseRetryAfter reply.retryAfter).getD (backoff jitter attempt)

end PlexLib

namespace PlexClient
variable (client : PlexClient) (lib : PlexLib) (server : PlexServer)

/-- The loop over the chunks, with what it has got. -/
def readChunks (ended : StreamEnd) :
    List (List UInt8) → List UInt8 → Except PlexAttempt (List UInt8)
  | [], got =>
    match ended with
    | .complete => .ok got
    | .timedOut => .error .timedOut
    | .failed => .error .failed
  | chunk :: chunks, got =>
    if client.maxResponseBytes < got.length + chunk.length then
      .error (.raised (.response "Plex response exceeded the configured size limit."))
    else readChunks ended chunks (got ++ chunk)

/-- `_send_bounded`: the body of a redirect is not read. -/
def sendBounded : PlexAnswer → PlexAttempt
  | .timedOut => .timedOut
  | .failed => .failed
  | .invalidUrl => .raised .invalidUrl
  | .response r =>
    if r.statusCode ∈ redirectStatuses then .replied
      ⟨r.statusCode, r.location, r.retryAfter, r.contentType, []⟩
    else match client.readChunks r.ended r.chunks [] with
      | .error attempt => attempt
      | .ok content => .replied ⟨r.statusCode, r.location, r.retryAfter, r.contentType, content⟩

/-- Where a redirect leads to. -/
def redirected (url : String) (reply : PlexReply) : Except PlexError String :=
  match reply.location.filter (· ≠ "") with
  | none => .error (.response "Plex redirect omitted its destination.")
  | some location =>
    match lib.urljoin url location with
    | .error text => .error (.value text)
    | .ok next =>
      match lib.sameOrigin client.baseUrl next with
      | .error text => .error (.value text)
      | .ok false => .error (.response "Plex redirect changed the configured origin.")
      | .ok true => .ok next

/-- `_request_with_redirects`: how many rounds are left, the requests so far, and the next one. -/
def requestWithRedirects : Nat → List PlexRequest → String → Option (List (String × String)) →
    PlexAttempt × List PlexRequest
  | 0, requests, _, _ => (.raised (.response "Plex redirect handling failed."), requests)
  | rounds + 1, requests, url, params =>
    match client.sendBounded (server (requests ++ [⟨url, params⟩])) with
    | .replied reply =>
      if reply.statusCode ∉ redirectStatuses then (.replied reply, requests ++ [⟨url, params⟩])
      else if rounds =
        0 then (.raised (.response "Plex redirect limit exceeded."), requests ++ [⟨url, params⟩])
      else match client.redirected lib url reply with
        | .error e => (.raised e, requests ++ [⟨url, params⟩])
        | .ok next => requestWithRedirects rounds (requests ++ [⟨url, params⟩]) next none
    | .timedOut => (.timedOut, requests ++ [⟨url, params⟩])
    | .failed => (.failed, requests ++ [⟨url, params⟩])
    | .raised e => (.raised e, requests ++ [⟨url, params⟩])

/-- `_raise_for_status`. -/
def raiseForStatus (reply : PlexReply) : Option PlexError :=
  if reply.statusCode ∈ [401, 403] then some (.authentication "Plex authentication was rejected.")
  else if reply.statusCode = 404 then some (.notFound "Plex resource was not found.")
  else if reply.statusCode =
    429 then some (.rateLimit "Plex rate limit was reached." (lib.parseRetryAfter reply.retryAfter))
  else if 500 ≤ reply.statusCode then some
    (.connection s!"Plex returned server status {reply.statusCode}.")
  else if reply.statusCode < 200 ∨ 300 ≤ reply.statusCode then
    some (.response s!"Plex returned unexpected status {reply.statusCode}.")
  else none

/-- What the last attempt makes of the call. -/
def settled : PlexAttempt → Except PlexError PlexPayload
  | .timedOut => .error (.timeout "Plex request timed out.")
  | .failed => .error (.connection "Plex request failed.")
  | .raised e => .error e
  | .replied reply =>
    match raiseForStatus lib reply with
    | some e => .error e
    | none =>
      if client.maxResponseBytes < reply.content.length then
        .error (.response "Plex response exceeded the configured size limit.")
      else .ok ⟨reply.content, reply.contentType.getD ""⟩

/-- The pause before another attempt, for what may be tried again. -/
def pause? (jitter attempt : Nat) : PlexAttempt → Option Double
  | .timedOut | .failed => some (PlexLib.backoff jitter attempt)
  | .replied reply =>
    if reply.statusCode ∈ retryableStatuses then some
      (lib.retryDelay jitter reply attempt) else none
  | .raised _ => none

/-- The loop of `_get`: how many attempts are left, the number of the next one, the requests and the
pauses so far. `time.sleep` refuses a pause that is no number. -/
def attempts (jitter : Nat → Nat) (url : String) (params : Option (List (String × String))) :
    Nat → Nat → List PlexRequest → List Double → PlexExchange
  | 0, _, requests, pauses =>
    ⟨.error (.connection "Plex request exhausted retries."), requests, pauses⟩
  | left + 1, attempt, requests, pauses =>
    let made := client.requestWithRedirects lib server (client.maxRedirects + 1) requests url params
    match if attempt < client.retries then pause? lib (jitter attempt) attempt made.1 else none with
    | some .nan => ⟨.error (.value "Invalid value NaN (not a number)"), made.2, pauses⟩
    | some pause => attempts jitter url params left (attempt + 1) made.2 (pauses ++ [pause])
    | none => ⟨client.settled lib made.1, made.2, pauses⟩

/-- `_build_url`. -/
def buildUrl (path : String) : Except PlexError String :=
  match path.toList with
  | '/' :: rest =>
    if rest.head? =
      some '/' then .error (.configuration "Plex request path must be absolute and local.")
    else match lib.urljoin (client.baseUrl ++ "/") (String.ofList rest) with
      | .error text => .error (.value text)
      | .ok url =>
        match lib.sameOrigin client.baseUrl url with
        | .error text => .error (.value text)
        | .ok false => .error (.configuration "Plex request path changed the configured origin.")
        | .ok true => .ok url
  | _ => .error (.configuration "Plex request path must be absolute and local.")

/-- `_get`. -/
def get (jitter : Nat → Nat) (path : String) (params : Option (List (String × String))) :
    PlexExchange :=
  match client.buildUrl lib path with
  | .error e => ⟨.error e, [], []⟩
  | .ok url => client.attempts lib server jitter url params (client.retries + 1) 0 [] []

end PlexClient

/-! ### What a call keeps to -/

namespace PlexLib
variable {lib : PlexLib}

/-- No pause is longer than a minute. -/
def AtMostMinute (pause : Double) : Prop := ∃ negative units, pause = .finite negative units ∧
    units ≤ 60 * 2 ^ 1074

theorem clampRetryAfter_atMostMinute (seconds : Double) :
    clampRetryAfter seconds = .nan ∨ AtMostMinute (clampRetryAfter seconds) := by
  cases seconds with
  | nan => exact .inl rfl
  | infinite negative =>
    refine .inr ⟨_, _, rfl, ?_⟩
    split
    · exact Nat.zero_le _
    · exact Nat.le_refl _
  | finite negative units =>
    cases negative with
    | true => exact .inr ⟨_, _, rfl, Nat.zero_le _⟩
    | false => exact .inr ⟨_, _, rfl, Nat.min_le_right _ _⟩

theorem backoff_atMostMinute (jitter attempt : Nat) : AtMostMinute (backoff jitter attempt) :=
  ⟨_, _, rfl, (Nat.min_le_right _ _).trans (Nat.mul_le_mul_right _ (by decide))⟩

theorem retryDelay_atMostMinute (jitter : Nat) (reply : PlexReply) (attempt : Nat) :
    lib.retryDelay jitter reply attempt = .nan ∨
    AtMostMinute (lib.retryDelay jitter reply attempt) := by
  unfold retryDelay parseRetryAfter
  cases reply.retryAfter.bind lib.float with
  | none => exact .inr (backoff_atMostMinute jitter attempt)
  | some seconds => exact clampRetryAfter_atMostMinute seconds

end PlexLib

namespace PlexClient
variable {client : PlexClient} {lib : PlexLib} {server : PlexServer}

theorem pause?_atMostMinute {jitter attempt : Nat} {made : PlexAttempt} {pause : Double}
    (h : pause? lib jitter attempt made = some pause) (hnan : pause ≠ .nan) :
    PlexLib.AtMostMinute pause := by
  cases made with
  | timedOut => cases h; exact PlexLib.backoff_atMostMinute jitter attempt
  | failed => cases h; exact PlexLib.backoff_atMostMinute jitter attempt
  | raised e => cases h
  | replied reply =>
    unfold pause? at h
    dsimp only at h
    split at h
    · cases h
      exact (PlexLib.retryDelay_atMostMinute jitter reply attempt).resolve_left hnan
    · cases h

theorem readChunks_ok {ended : StreamEnd} {chunks : List (List UInt8)} {got content : List UInt8}
    (hgot : got.length ≤ client.maxResponseBytes)
    (h : client.readChunks ended chunks got = .ok content) :
    content.length ≤ client.maxResponseBytes := by
  induction chunks generalizing got with
  | nil =>
    unfold readChunks at h
    cases ended with
    | complete => cases h; exact hgot
    | timedOut => cases h
    | failed => cases h
  | cons chunk chunks ih =>
    unfold readChunks at h
    split at h
    · cases h
    next hsize => exact ih (by rw [List.length_append]; exact Nat.not_lt.1 hsize) h

/-- A body that is read is the whole stream. -/
theorem readChunks_whole {ended : StreamEnd} {chunks : List (List UInt8)} {got content : List UInt8}
    (h : client.readChunks ended chunks got = .ok content) :
    ended = .complete ∧ content = got ++ chunks.flatten := by
  induction chunks generalizing got with
  | nil =>
    unfold readChunks at h
    cases ended with
    | complete => cases h; simp
    | timedOut => cases h
    | failed => cases h
  | cons chunk chunks ih =>
    unfold readChunks at h
    split at h
    · cases h
    · obtain ⟨hended, rfl⟩ := ih h
      exact ⟨hended, by simp⟩

theorem readChunks_ne_replied {ended : StreamEnd} {chunks : List (List UInt8)} {got : List UInt8}
    {reply : PlexReply} :
    client.readChunks ended chunks got ≠ .error (.replied reply) := by
  induction chunks generalizing got with
  | nil =>
    unfold readChunks
    cases ended <;> rintro ⟨⟩
  | cons chunk chunks ih =>
    unfold readChunks
    split
    · rintro ⟨⟩
    · exact ih

/-- An error that ends a call at once. -/
def PlexError.Fatal (e : PlexError) : Prop :=
  (∃ text, e = .response text ∨ e = .value text) ∨ e = .invalidUrl

theorem fatal_readChunks {ended : StreamEnd} {chunks : List (List UInt8)} {got : List UInt8}
    {e : PlexError}
    (h : client.readChunks ended chunks got = .error (.raised e)) : PlexError.Fatal e := by
  induction chunks generalizing got with
  | nil =>
    unfold readChunks at h
    cases ended <;> cases h
  | cons chunk chunks ih =>
    unfold readChunks at h
    split at h
    · cases h
      exact .inl ⟨_, .inl rfl⟩
    · exact ih h

theorem fatal_sendBounded {answer : PlexAnswer} {e : PlexError}
    (h : client.sendBounded answer = .raised e) : PlexError.Fatal e := by
  cases answer with
  | timedOut => cases h
  | failed => cases h
  | invalidUrl => cases h; exact .inr rfl
  | response r =>
    unfold sendBounded at h
    dsimp only at h
    split at h
    · cases h
    cases hread : client.readChunks r.ended r.chunks [] with
    | error attempt =>
      rw [hread] at h
      cases h
      exact fatal_readChunks hread
    | ok content =>
      rw [hread] at h
      cases h

theorem fatal_redirected {url : String} {reply : PlexReply} {e : PlexError}
    (h : client.redirected lib url reply = .error e) :
    PlexError.Fatal e := by
  unfold redirected at h
  split at h
  · cases h; exact .inl ⟨_, .inl rfl⟩
  split at h
  · cases h; exact .inl ⟨_, .inr rfl⟩
  split at h
  · cases h; exact .inl ⟨_, .inr rfl⟩
  · cases h; exact .inl ⟨_, .inl rfl⟩
  · cases h

theorem length_sendBounded {answer : PlexAnswer} {reply : PlexReply}
    (h : client.sendBounded answer = .replied reply) :
    reply.content.length ≤ client.maxResponseBytes := by
  cases answer with
  | timedOut => cases h
  | failed => cases h
  | invalidUrl => cases h
  | response r =>
    unfold sendBounded at h
    dsimp only at h
    split at h
    · cases h
      exact Nat.zero_le _
    cases hread : client.readChunks r.ended r.chunks [] with
    | error attempt =>
      rw [hread] at h
      cases h
      exact absurd hread readChunks_ne_replied
    | ok content =>
      rw [hread] at h
      cases h
      exact readChunks_ok (Nat.zero_le _) hread

/-- The reply is a response to the last of the requests, and its body is the whole stream. -/
def Whole (server : PlexServer) (requests : List PlexRequest) (reply : PlexReply) : Prop :=
  ∃ r, server requests = .response r ∧ r.ended = .complete ∧ r.statusCode = reply.statusCode ∧
    r.contentType = reply.contentType ∧ r.chunks.flatten = reply.content

theorem whole_sendBounded {requests : List PlexRequest} {reply : PlexReply}
    (h : client.sendBounded (server requests) = .replied reply)
    (hstatus : reply.statusCode ∉ redirectStatuses) :
    Whole server requests reply := by
  unfold Whole
  generalize server requests = answer at h ⊢
  cases answer with
  | timedOut => cases h
  | failed => cases h
  | invalidUrl => cases h
  | response r =>
    unfold sendBounded at h
    dsimp only at h
    split at h
    next hredirect =>
      cases h
      exact absurd hredirect hstatus
    next =>
      cases hread : client.readChunks r.ended r.chunks [] with
      | error attempt =>
        rw [hread] at h
        cases h
        exact absurd hread readChunks_ne_replied
      | ok content =>
        rw [hread] at h
        cases h
        obtain ⟨hended, rfl⟩ := readChunks_whole hread
        exact ⟨r, rfl, hended, rfl, rfl, rfl⟩

theorem whole_requestWithRedirects {rounds : Nat} {requests : List PlexRequest} {url : String}
    {params : Option (List (String × String))} {reply : PlexReply}
    (h : (client.requestWithRedirects lib server rounds requests url params).1 = .replied reply) :
    Whole server (client.requestWithRedirects lib server rounds requests url params).2 reply := by
  induction rounds generalizing requests url params with
  | zero => cases h
  | succ rounds ih =>
    rw [requestWithRedirects] at h ⊢
    cases hsent : client.sendBounded (server (requests ++ [⟨url, params⟩])) with
    | timedOut => rw [hsent] at h; cases h
    | failed => rw [hsent] at h; cases h
    | raised e => rw [hsent] at h; cases h
    | replied reply' =>
      rw [hsent] at h
      dsimp only at h ⊢
      by_cases hstatus : reply'.statusCode ∉ redirectStatuses
      · rw [if_pos hstatus] at h ⊢
        cases h
        exact whole_sendBounded hsent hstatus
      · rw [if_neg hstatus] at h ⊢
        split at h
        · cases h
        next hrounds =>
          rw [if_neg hrounds]
          cases hnext : client.redirected lib url reply' with
          | error e => rw [hnext] at h; cases h
          | ok next =>
            rw [hnext] at h
            exact ih h

theorem redirected_ok {url next : String} {reply : PlexReply}
    (h : client.redirected lib url reply = .ok next) :
    lib.sameOrigin client.baseUrl next = .ok true := by
  unfold redirected at h
  split at h
  · cases h
  split at h
  · cases h
  split at h
  · cases h
  · cases h
  next hsame => cases h; exact hsame

theorem buildUrl_ok {path url : String} (h : client.buildUrl lib path = .ok url) :
    lib.sameOrigin client.baseUrl url = .ok true := by
  unfold buildUrl at h
  split at h
  · split at h
    · cases h
    split at h
    · cases h
    split at h
    · cases h
    · cases h
    next hsame => cases h; exact hsame
  · cases h

/-- The request goes to the server that the client is set up for, and only the first URL gets the
parameters. -/
structure AtHome (client : PlexClient) (lib : PlexLib) (first r : PlexRequest) : Prop where
  origin : lib.sameOrigin client.baseUrl r.url = .ok true
  params : r.params = none ∨ r = first

/-- What an attempt comes to. -/
structure Ends (client : PlexClient) (made : PlexAttempt) : Prop where
  reply : ∀ reply, made = .replied reply → reply.content.length ≤ client.maxResponseBytes ∧
    reply.statusCode ∉ redirectStatuses
  raised : ∀ e, made = .raised e → PlexError.Fatal e

/-- What an attempt adds to the requests, with this many rounds left. -/
structure Contained (client : PlexClient) (lib : PlexLib) (first : PlexRequest) (rounds : Nat)
    (requests : List PlexRequest) (made : PlexAttempt × List PlexRequest) : Prop where
  home : ∀ r ∈ made.2, client.AtHome lib first r
  bounded : made.2.length ≤ requests.length + rounds
  ends : client.Ends made.1

/-- An attempt asks once; what it got is returned, or it was a redirect to the same origin, which is
followed. -/
theorem requestWithRedirects_succ (client : PlexClient) (lib : PlexLib) (server : PlexServer)
    (rounds : Nat) (requests : List PlexRequest) (r : PlexRequest) :
    (∃ made, client.requestWithRedirects lib server (rounds + 1) requests r.url r.params =
      (made, requests ++ [r]) ∧
      client.Ends made) ∨
    ∃ next, lib.sameOrigin client.baseUrl next = .ok true ∧
      client.requestWithRedirects lib server (rounds + 1) requests r.url r.params =
        client.requestWithRedirects lib server rounds (requests ++ [r]) next none := by
  have hraised : ∀ {e : PlexError}, PlexError.Fatal e → client.Ends (.raised e) := fun hfatal =>
    ⟨fun _ h => (by cases h), fun _ h => by cases h; exact hfatal⟩
  rw [requestWithRedirects]
  cases hsent : client.sendBounded (server (requests ++ [⟨r.url, r.params⟩])) with
  | timedOut => exact .inl ⟨_, rfl, fun _ h => (by cases h), fun _ h => (by cases h)⟩
  | failed => exact .inl ⟨_, rfl, fun _ h => (by cases h), fun _ h => (by cases h)⟩
  | raised e => exact .inl ⟨_, rfl, hraised (fatal_sendBounded hsent)⟩
  | replied reply =>
    dsimp only
    split
    next hstatus =>
      refine .inl ⟨_, rfl, fun reply' h => ?_, fun _ h => (by cases h)⟩
      cases h
      exact ⟨length_sendBounded hsent, hstatus⟩
    split
    · exact .inl ⟨_, rfl, hraised (.inl ⟨_, .inl rfl⟩)⟩
    cases hnext : client.redirected lib r.url reply with
    | error e => exact .inl ⟨_, rfl, hraised (fatal_redirected hnext)⟩
    | ok next => exact .inr ⟨next, redirected_ok hnext, rfl⟩

theorem contained_requestWithRedirects {first r : PlexRequest} {rounds : Nat}
    {requests : List PlexRequest}
    (hrequests : ∀ r ∈ requests, client.AtHome lib first r) (hr : client.AtHome lib first r) :
    client.Contained lib first rounds requests
      (client.requestWithRedirects lib server rounds requests r.url r.params) := by
  induction rounds generalizing requests r with
  | zero =>
    exact ⟨hrequests, Nat.le_refl _, fun _ h => (by cases h), fun _ h => by
      cases h; exact .inl ⟨_, .inl rfl⟩⟩
  | succ rounds ih =>
    have hmore : ∀ r' ∈ requests ++ [r], client.AtHome lib first r' := by
      intro r' hr'
      rcases List.mem_append.1 hr' with hr' | hr'
      · exact hrequests r' hr'
      · rw [List.mem_singleton.1 hr']
        exact hr
    rcases requestWithRedirects_succ client lib server rounds requests r with ⟨made, heq,
      hends⟩ | ⟨next, hnext, heq⟩
    · rw [heq]
      refine ⟨hmore, ?_, hends⟩
      rw [List.length_append, List.length_singleton]
      omega
    · rw [heq]
      have hrest := ih hmore (r := ⟨next, none⟩) ⟨hnext, .inl rfl⟩
      refine ⟨hrest.home, hrest.bounded.trans ?_, hrest.ends⟩
      rw [List.length_append, List.length_singleton]
      omega

theorem length_settled {made : PlexAttempt} {payload : PlexPayload}
    (h : client.settled lib made = .ok payload) :
    payload.content.length ≤ client.maxResponseBytes := by
  unfold settled at h
  split at h
  · cases h
  · cases h
  · cases h
  split at h
  · cases h
  split at h
  · cases h
  next hsize => cases h; exact Nat.not_lt.1 hsize

end PlexClient

/-! ### The attempts of a call -/

namespace PlexClient
variable (client : PlexClient) (lib : PlexLib) (server : PlexServer) (jitter : Nat → Nat)
  (first : PlexRequest)

/-- The requests before an attempt, as if every attempt were followed by another. -/
def requestsBefore : Nat → List PlexRequest
  | 0 => []
  | k + 1 =>
    (client.requestWithRedirects lib server (client.maxRedirects + 1)
      (requestsBefore k) first.url first.params).2

def attemptAt (k : Nat) : PlexAttempt :=
  (client.requestWithRedirects lib server (client.maxRedirects + 1)
    (client.requestsBefore lib server first k) first.url first.params).1

/-- The pause that the attempt would have another one wait for. -/
def pauseAt (k : Nat) : Option Double :=
  pause? lib (jitter k) k (client.attemptAt lib server first k)

/-- The attempt `k` settles the call: those before it could be tried again, and it could not, or it
was the last, or it told the client to wait for a time that is no number. -/
structure Settles (k : Nat) (x : PlexExchange) : Prop where
  le : k ≤ client.retries
  earlier : ∀ j < k, ∃ pause, client.pauseAt lib server jitter first j = some pause ∧ pause ≠ .nan
  requests : x.requests = client.requestsBefore lib server first (k + 1)
  pauses : x.pauses.map some = (List.range k).map (client.pauseAt lib server jitter first)
  result : (k = client.retries ∨ client.pauseAt lib server jitter first k = none) ∧
      x.result = client.settled lib (client.attemptAt lib server first k) ∨
    k < client.retries ∧ client.pauseAt lib server jitter first k = some .nan ∧
      x.result = .error (.value "Invalid value NaN (not a number)")

variable {client lib server jitter first}

/-- What one round of the loop does after its attempt. -/
theorem attempts_succ (client : PlexClient) (lib : PlexLib) (server : PlexServer)
    (jitter : Nat → Nat) (first : PlexRequest) (left attempt : Nat) (pauses : List Double) :
    (attempt < client.retries ∧ client.pauseAt lib server jitter first attempt = some .nan ∧
      client.attempts lib server jitter first.url first.params (left + 1) attempt
        (client.requestsBefore lib server first attempt) pauses =
        ⟨.error (.value "Invalid value NaN (not a number)"),
          client.requestsBefore lib server first (attempt + 1), pauses⟩) ∨
    (∃ pause, attempt < client.retries ∧
      client.pauseAt lib server jitter first attempt = some pause ∧ pause ≠ .nan ∧
      client.attempts lib server jitter first.url first.params (left + 1) attempt
        (client.requestsBefore lib server first attempt) pauses =
        client.attempts lib server jitter first.url first.params left (attempt + 1)
          (client.requestsBefore lib server first (attempt + 1)) (pauses ++ [pause])) ∨
    (client.retries ≤ attempt ∨ client.pauseAt lib server jitter first attempt = none) ∧
      client.attempts lib server jitter first.url first.params (left + 1) attempt
        (client.requestsBefore lib server first attempt) pauses =
        ⟨client.settled lib (client.attemptAt lib server first attempt),
          client.requestsBefore lib server first (attempt + 1), pauses⟩ := by
  have hpauseAt : pause? lib (jitter attempt) attempt
      (client.requestWithRedirects lib server (client.maxRedirects + 1)
      (client.requestsBefore lib server first attempt) first.url first.params).1 =
        client.pauseAt lib server jitter first attempt := rfl
  rw [attempts]
  by_cases hlast : attempt < client.retries
  · rw [if_pos hlast, hpauseAt]
    cases hpause : client.pauseAt lib server jitter first attempt with
    | none => exact .inr (.inr ⟨.inr rfl, rfl⟩)
    | some pause =>
      cases pause with
      | nan => exact .inl ⟨hlast, rfl, rfl⟩
      | infinite negative => exact .inr (.inl ⟨_, hlast, rfl, Double.noConfusion, rfl⟩)
      | finite negative units => exact .inr (.inl ⟨_, hlast, rfl, Double.noConfusion, rfl⟩)
  · rw [if_neg hlast]
    exact .inr (.inr ⟨.inl (Nat.not_lt.1 hlast), rfl⟩)

/-- The invariant of the loop: the attempts so far could all be tried again, and their pauses are
the pauses so far. -/
theorem attempts_settles {left attempt : Nat} {pauses : List Double}
    (hleft : attempt + left = client.retries + 1) (hpos : 0 < left)
    (hearlier : ∀ j < attempt, ∃ pause, client.pauseAt lib server jitter first j = some pause ∧
      pause ≠ .nan)
    (hpauses : pauses.map some =
      (List.range attempt).map (client.pauseAt lib server jitter first)) :
    ∃ k, client.Settles lib server jitter first k
      (client.attempts lib server jitter first.url first.params left attempt
        (client.requestsBefore lib server first attempt) pauses) := by
  induction left generalizing attempt pauses with
  | zero => exact absurd hpos (Nat.lt_irrefl 0)
  | succ left ih =>
    rcases attempts_succ client lib server jitter first left attempt pauses with
      ⟨hlast, hpause, heq⟩ | ⟨pause, hlast, hpause, hnan, heq⟩ | ⟨hend, heq⟩
    · rw [heq]
      exact ⟨attempt, hlast.le, hearlier, rfl, hpauses, .inr ⟨hlast, hpause, rfl⟩⟩
    · rw [heq]
      refine ih (by omega) (by omega) (fun j hj => ?_) ?_
      · rcases Nat.lt_succ_iff_lt_or_eq.1 hj with hj | rfl
        · exact hearlier j hj
        · exact ⟨pause, hpause, hnan⟩
      · rw [List.map_append, hpauses, List.range_succ, List.map_append, List.map_singleton,
          List.map_singleton, hpause]
    · rw [heq]
      refine ⟨attempt, by omega, hearlier, rfl, hpauses, .inl ⟨hend.imp_left fun h => ?_, rfl⟩⟩
      omega

theorem get_of_buildUrl {path : String} (h : client.buildUrl lib path = .ok first.url) :
    ∃ k, client.Settles lib server jitter first k
      (client.get lib server jitter path first.params) := by
  unfold get
  rw [h]
  exact @attempts_settles client lib server jitter first (client.retries + 1) 0 [] (Nat.zero_add _)
    (Nat.succ_pos _)
    (fun j hj => absurd hj (Nat.not_lt_zero j)) rfl

theorem contained_requestsBefore (hfirst : lib.sameOrigin client.baseUrl first.url = .ok true)
    (k : Nat) :
    (∀ r ∈ client.requestsBefore lib server first k, client.AtHome lib first r) ∧
      (client.requestsBefore lib server first k).length ≤ k * (client.maxRedirects + 1) := by
  induction k with
  | zero => exact ⟨fun r hr => absurd hr List.not_mem_nil, Nat.zero_le _⟩
  | succ k ih =>
    have hmore : client.Contained lib first (client.maxRedirects + 1)
        (client.requestsBefore lib server first k)
        (client.requestWithRedirects lib server (client.maxRedirects + 1)
          (client.requestsBefore lib server first k) first.url first.params) :=
      contained_requestWithRedirects ih.1 ⟨hfirst, .inr rfl⟩
    refine ⟨hmore.home, hmore.bounded.trans ?_⟩
    rw [Nat.succ_mul]
    exact Nat.add_le_add_right ih.2 _

/-- What the requests, the pauses and the payload of a call keep to. -/
structure KeepsTo (client : PlexClient) (lib : PlexLib) (first : PlexRequest)
    (x : PlexExchange) : Prop where
  home : ∀ r ∈ x.requests, client.AtHome lib first r
  requests : x.requests.length ≤ (client.retries + 1) * (client.maxRedirects + 1)
  pauses : x.pauses.length ≤ client.retries
  short : ∀ pause ∈ x.pauses, PlexLib.AtMostMinute pause
  payload : ∀ payload, x.result = .ok payload → payload.content.length ≤ client.maxResponseBytes

theorem Settles.keepsTo {k : Nat} {x : PlexExchange}
    (h : client.Settles lib server jitter first k x)
    (hfirst : lib.sameOrigin client.baseUrl first.url = .ok true) : client.KeepsTo lib first x where
  home := h.requests ▸ (contained_requestsBefore hfirst (k + 1)).1
  requests := by
    rw [h.requests]
    exact (contained_requestsBefore hfirst (k + 1)).2.trans
      (Nat.mul_le_mul_right _ (Nat.succ_le_succ h.le))
  pauses := by
    have hlength := congrArg List.length h.pauses
    rw [List.length_map, List.length_map, List.length_range] at hlength
    exact hlength.trans_le h.le
  short := by
    intro pause hpause
    have hmem : some pause ∈ (List.range k).map (client.pauseAt lib server jitter first) :=
      h.pauses ▸ List.mem_map_of_mem hpause
    obtain ⟨j, hj, heq⟩ := List.mem_map.1 hmem
    obtain ⟨pause', hpause', hnan⟩ := h.earlier j (List.mem_range.1 hj)
    cases heq.symm.trans hpause'
    exact pause?_atMostMinute hpause' hnan
  payload := by
    intro payload hok
    rcases h.result with ⟨-, hresult⟩ | ⟨-, -, hresult⟩
    · exact length_settled (hresult.symm.trans hok)
    · cases hresult.symm.trans hok

end PlexClient

/-! ### A call -/

/-- An error that another attempt may be spared. -/
def PlexError.Temporary (e : PlexError) : Prop :=
  e = .timeout "Plex request timed out." ∨ e = .connection "Plex request failed." ∨
    ∃ text seconds, e = .rateLimit text seconds

namespace PlexClient
variable {client : PlexClient} {lib : PlexLib} {server : PlexServer} {jitter : Nat → Nat}
  {first : PlexRequest}

theorem fatal_attemptAt {k : Nat} {e : PlexError}
    (hfirst : lib.sameOrigin client.baseUrl first.url = .ok true)
    (h : client.attemptAt lib server first k = .raised e) : PlexError.Fatal e :=
  (contained_requestWithRedirects (contained_requestsBefore hfirst k).1
    ⟨hfirst, .inr rfl⟩).ends.raised e h

theorem not_temporary_of_fatal {e : PlexError} (h : PlexError.Fatal e) :
    ¬ PlexError.Temporary e := by
  rintro (rfl | rfl | ⟨text, seconds, rfl⟩)
  all_goals
    rcases h with ⟨text, h | h⟩ | h <;> cases h

/-- The seventh and eighth characters differ. -/
theorem serverStatus_ne (statusCode : Nat) :
    s!"Plex returned server status {statusCode}." ≠ "Plex request failed." := by
  intro h
  have htake := congrArg (fun text => text.toList.take 8) h
  simp only [toString, String.toList_append, List.append_assoc] at htake
  revert htake
  exact of_decide_eq_false rfl

/-- Of a response only status 429 is a temporary error. -/
theorem status_of_temporary {reply : PlexReply} {e : PlexError}
    (h : raiseForStatus lib reply = some e)
    (htemporary : PlexError.Temporary e) : reply.statusCode = 429 := by
  unfold raiseForStatus at h
  rcases htemporary with rfl | rfl | ⟨text, seconds, rfl⟩
  · split_ifs at h <;> cases h
  · split_ifs at h
    · cases h
    · cases h
    · cases h
    · exact absurd (PlexError.connection.inj (Option.some.inj h)) (serverStatus_ne reply.statusCode)
    · cases h
  · split_ifs at h with hrejected hmissing hlimited
    · cases h
    · cases h
    · exact hlimited
    · cases h
    · cases h

theorem retryable_of_temporary {reply : PlexReply} {e : PlexError}
    (h : client.settled lib (.replied reply) = .error e)
    (htemporary : PlexError.Temporary e) : reply.statusCode ∈ retryableStatuses := by
  unfold settled at h
  dsimp only at h
  split at h
  next e' hraised =>
    cases h
    rw [status_of_temporary hraised htemporary]
    exact List.mem_cons_self
  split at h
  · cases h
    exact absurd htemporary (not_temporary_of_fatal (.inl ⟨_, .inl rfl⟩))
  · cases h

theorem pauseAt_of_temporary {k : Nat} {e : PlexError}
    (hfirst : lib.sameOrigin client.baseUrl first.url = .ok true)
    (h : client.settled lib (client.attemptAt lib server first k) = .error e)
    (htemporary : PlexError.Temporary e) :
    client.pauseAt lib server jitter first k ≠ none := by
  unfold pauseAt
  cases hmade : client.attemptAt lib server first k with
  | timedOut => exact Option.some_ne_none _
  | failed => exact Option.some_ne_none _
  | raised e' =>
    rw [hmade] at h
    cases h
    exact absurd htemporary (not_temporary_of_fatal (fatal_attemptAt hfirst hmade))
  | replied reply =>
    rw [hmade] at h
    unfold pause?
    dsimp only
    rw [if_pos (retryable_of_temporary h htemporary)]
    exact Option.some_ne_none _

theorem settled_ok {made : PlexAttempt} {payload : PlexPayload}
    (h : client.settled lib made = .ok payload) :
    ∃ reply, made = .replied reply ∧ 200 ≤ reply.statusCode ∧ reply.statusCode < 300 ∧
      payload = ⟨reply.content, reply.contentType.getD ""⟩ := by
  unfold settled at h
  split at h
  · cases h
  · cases h
  · cases h
  next reply =>
    split at h
    · cases h
    next hstatus =>
      split at h
      · cases h
      cases h
      refine ⟨reply, rfl, ?_⟩
      unfold raiseForStatus at hstatus
      repeat' (split at hstatus; · cases hstatus)
      next hrange =>
        obtain ⟨hlow, hhigh⟩ := not_or.1 hrange
        exact ⟨Nat.not_lt.1 hlow, Nat.not_le.1 hhigh, rfl⟩

/-- A call stays with its server, whatever the servers answer: every request, and with it the token,
goes to the origin of the configured URL, also after redirects; only the URL of the call gets the
parameters; the requests, the pauses and the size of the payload are bounded. -/
theorem get_contained (client : PlexClient) (lib : PlexLib) (server : PlexServer)
    (jitter : Nat → Nat) (path : String) (params : Option (List (String × String))) :
    (∀ r ∈ (client.get lib server jitter path params).requests,
      lib.sameOrigin client.baseUrl r.url = .ok true ∧
      (r.params = none ∨ client.buildUrl lib path = .ok r.url ∧ r.params = params)) ∧
    (client.get lib server jitter path params).requests.length ≤ (client.retries + 1) *
      (client.maxRedirects + 1) ∧
    (client.get lib server jitter path params).pauses.length ≤ client.retries ∧
    (∀ pause ∈ (client.get lib server jitter path params).pauses, PlexLib.AtMostMinute pause) ∧
    ∀ payload, (client.get lib server jitter path params).result = .ok payload →
      payload.content.length ≤ client.maxResponseBytes := by
  cases hurl : client.buildUrl lib path with
  | error e =>
    have hget : client.get lib server jitter path params = ⟨.error e, [], []⟩ := by
      unfold get
      rw [hurl]
    rw [hget]
    exact ⟨fun r hr => absurd hr List.not_mem_nil, Nat.zero_le _, Nat.zero_le _, fun pause hp =>
      absurd hp List.not_mem_nil,
      fun payload h => by cases h⟩
  | ok url =>
    obtain ⟨k, hsettles⟩ := @get_of_buildUrl client lib server jitter ⟨url, params⟩ path hurl
    have hkeeps := hsettles.keepsTo (buildUrl_ok hurl)
    refine ⟨fun r hr => ⟨(hkeeps.home r hr).origin, (hkeeps.home r hr).params.imp_right ?_⟩,
      hkeeps.requests, hkeeps.pauses,
      hkeeps.short, hkeeps.payload⟩
    rintro rfl
    exact ⟨rfl, rfl⟩

/-- A call is decided by one attempt, and those before it asked for another after a pause: a payload
is the whole stream of a successful response to its last request, and a temporary error is reported
of the last attempt only. -/
theorem get_settles {path : String} (h : client.buildUrl lib path = .ok first.url) :
    ∃ k, client.Settles lib server jitter first k (client.get lib server jitter path first.params) ∧
      (∀ payload, (client.get lib server jitter path first.params).result = .ok payload →
        ∃ r, server (client.get lib server jitter path first.params).requests = .response r ∧
        r.ended = .complete ∧
          200 ≤ r.statusCode ∧ r.statusCode < 300 ∧
            payload = ⟨r.chunks.flatten, r.contentType.getD ""⟩) ∧
      ∀ e, (client.get lib server jitter path first.params).result = .error e →
      PlexError.Temporary e → k = client.retries := by
  obtain ⟨k, hsettles⟩ := @get_of_buildUrl client lib server jitter first path h
  refine ⟨k, hsettles, fun payload hok => ?_, fun e herror htemporary => ?_⟩
  · rcases hsettles.result with ⟨-, hresult⟩ | ⟨-, -, hresult⟩
    · obtain ⟨reply, hreply, hlow, hhigh, rfl⟩ := settled_ok (hresult.symm.trans hok)
      obtain ⟨r, hr, hended, hstatus, htype, hcontent⟩ := whole_requestWithRedirects hreply
      rw [hsettles.requests, ← hcontent, ← htype]
      rw [← hstatus] at hlow hhigh
      exact ⟨r, hr, hended, hlow, hhigh, rfl⟩
    · cases hresult.symm.trans hok
  · rcases hsettles.result with ⟨hlast, hresult⟩ | ⟨-, -, hresult⟩
    · exact hlast.resolve_right
        (pauseAt_of_temporary (buildUrl_ok h) (hresult.symm.trans herror) htemporary)
    · cases hresult.symm.trans herror
      rcases htemporary with h | h | ⟨_, _, h⟩ <;> cases h

/-- A server that is busy once. -/
def busyOnce : PlexServer
  | [_] => .response { statusCode := 503 }
  | _ =>
    .response { statusCode := 200, contentType := some "application/xml", chunks := [[60], [62]] }

def homeClient : PlexClient where
  baseUrl := "http://plex:32400"
  retries_le := by decide
  maxRedirects_le := by decide

/-- The URLs of `homeClient`. -/
def homeLib : PlexLib where
  urlsplit _ := .ok ⟨"http", some "plex", .ok (some 32400)⟩
  urljoin base url := .ok (base ++ url)
  float _ := none

theorem get_settles_busyOnce : ∃ k r,
    homeClient.Settles homeLib busyOnce (fun _ => 0) ⟨"http://plex:32400/identity", none⟩ k
      (homeClient.get homeLib busyOnce (fun _ => 0) "/identity" none) ∧
    busyOnce (homeClient.get homeLib busyOnce (fun _ => 0) "/identity" none).requests =
      .response r ∧
      r.chunks.flatten = [60, 62] := by
  obtain ⟨k, hsettles, hpayload, -⟩ :=
    @get_settles homeClient homeLib busyOnce (fun _ => 0)
      ⟨"http://plex:32400/identity", none⟩ "/identity" rfl
  obtain ⟨r, hr, -, -, -, heq⟩ := hpayload ⟨[60, 62], "application/xml"⟩ rfl
  exact ⟨k, r, hsettles, hr, (congrArg PlexPayload.content heq).symm⟩

end PlexClient

end Euvieouvi
