import FeedgateFetcher.FeedState
import FeedgateFetcher.Fetcher.Transport
import FeedgateFetcher.Fetcher.Upsert

/-!
# The fetch pipeline

`fetch_one`, cut at the points where the source changes what it works on: the
HTTP exchange, the branches for 304 and 429, the tail that stores a document,
the `except` clause and the final scheduling.  The local variable
`_server_hint` outlives the `try` block, also when the block raises, so it is
part of the state.
-/

namespace FeedgateFetcher

open Python Logic

/-- What `observe_fetch` reports. -/
inductive FetchResult where
  | success
  | notModified
  | rateLimited
  | error (code : ErrorCode)
deriving DecidableEq, Repr

/-- The state of one call: the loaded row, the database session, the process-wide
`_DOMAINS_NEEDING_FALLBACK`, the requests sent, the results reported and the
local `_server_hint`. -/
@[ext]
structure FetchState where
  row : Tracked
  session : Session
  domainsNeedingFallback : List Text
  requests : RequestLog
  observed : List FetchResult
  serverHint : Option Int

/-- The state in which the call for a loaded row starts. -/
def Tracked.loaded (session : Session) (domains : List Text) (r : Tracked) : FetchState where
  row := r
  session := session
  domainsNeedingFallback := domains
  requests := []
  observed := []
  serverHint := none

/-- The first fetch of `http://a.example/feed`, on a table without entries. -/
def FetchState.firstFetch : FetchState :=
  Tracked.loaded (.start [] 1) []
    ⟨Feed.registered 1 "http://a.example/feed".toList .year2000 .year2000, []⟩

abbrev Fetch (α : Type) := Act FetchState Exc α

namespace FetchState

def feed (s : FetchState) : Feed := s.row.feed

def updateFeed (f : Feed → Feed) (s : FetchState) : FetchState := { s with row := s.row.update f }

def observe (r : FetchResult) (s : FetchState) : FetchState :=
  { s with observed := s.observed ++ [r] }

end FetchState

section

variable {α : Type}

def onRow (m : Act Tracked Exc α) : Fetch α :=
  Act.zoom FetchState.row (fun r s ↦ { s with row := r }) m

def onSession (m : Act Session Exc α) : Fetch α :=
  Act.zoom FetchState.session (fun d s ↦ { s with session := d }) m

def onRequests (m : Act RequestLog Exc α) : Fetch α :=
  Act.zoom FetchState.requests (fun l s ↦ { s with requests := l }) m

theorem onSession_eq {m : Act Session Exc α} {s t : FetchState} {r : Except Exc α}
    (h : onSession m s = (r, t)) :
    m s.session = (r, t.session) ∧ t = { s with session := t.session } := by
  cases h
  exact ⟨rfl, rfl⟩

theorem onSession_of_run {m : Act Session Exc α} {s : FetchState} {r : Except Exc α} {d : Session}
    (h : m s.session = (r, d)) : onSession m s = (r, { s with session := d }) := by
  rw [onSession, Act.zoom, h]

theorem onRequests_eq {m : Act RequestLog Exc α} {s t : FetchState} {r : Except Exc α}
    (h : onRequests m s = (r, t)) :
    m s.requests = (r, t.requests) ∧ t = { s with requests := t.requests } := by
  cases h
  exact ⟨rfl, rfl⟩

theorem onRequests_of_run {m : Act RequestLog Exc α} {s : FetchState} {r : Except Exc α}
    {l : RequestLog} (h : m s.requests = (r, l)) :
    onRequests m s = (r, { s with requests := l }) := by
  rw [onRequests, Act.zoom, h]

/-- A library function that may raise a built-in exception. -/
def ofPython (r : Except PyError α) : Fetch α := Act.ofExcept (r.mapError .builtin)

@[simp] theorem ofPython_ok_bind_apply {β : Type} (a : α) (k : α → Fetch β) (s : FetchState) :
    (ofPython (.ok a) >>= k) s = k a s := rfl

@[simp] theorem ofPython_error_bind_apply {β : Type} (e : PyError) (k : α → Fetch β)
    (s : FetchState) : (ofPython (.error e) >>= k) s = (.error (.builtin e), s) := rfl

end

/-! ## The HTTP exchange -/

/-- `User-Agent` and the conditional header: the ETag is preferred. -/
def requestHeaders (cfg : Settings) (feed : Feed) : List (Text × Text) :=
  let conditional :=
    if truthy feed.etag then [("If-None-Match".toList, feed.etag.getD [])]
    else if truthy feed.lastModified then
      [("If-Modified-Since".toList, feed.lastModified.getD [])]
    else []
  ("User-Agent".toList, cfg.fetchUserAgent) :: conditional

/-- What the exchange with the origin hands to the rest of `fetch_one`. -/
inductive Exchange where
  | notModified (headers : Headers)
  | rateLimited (headers : Headers)
  | document (headers : Headers) (body : Bytes)
deriving DecidableEq, Repr

/-- `response.raise_for_status()`. -/
def raiseForStatus (statusCode : Nat) : Except Exc Unit :=
  if 200 ≤ statusCode ∧ statusCode < 300 then .ok () else .error (.httpStatus statusCode)

/-- `async for chunk in response.aiter_bytes()`, with `size` bytes already read. -/
def readBody (maxBytes : Nat) (brokenOff : Option Exc) :
    (size : Nat) → List Bytes → Except Exc Bytes
  | _, [] => match brokenOff with
    | some exc => .error exc
    | none => .ok []
  | size, chunk :: chunks =>
    if maxBytes < size + chunk.length then .error .responseTooLarge
    else (readBody maxBytes brokenOff (size + chunk.length) chunks).map fun rest ↦ chunk ++ rest

/-- Redirect bookkeeping: after a `permanent_moved` the row keeps the final address. -/
def followPermanentMove (response : Response) : Fetch PUnit :=
  let permanentMoved := response.history.any fun code ↦ code == 301
  if permanentMoved then
    Act.modify fun s ↦ s.updateFeed fun f ↦
      if response.url ≠ f.effectiveUrl then { f with effectiveUrl := response.url } else f
  else pure ⟨⟩

/-- The direct answer, when no fallback replaced it. -/
def readDirect (cfg : Settings) (response : Response) : Fetch Exchange := do
  Act.ofExcept (raiseForStatus response.statusCode)
  followPermanentMove response
  let body ← Act.ofExcept (readBody cfg.fetchMaxBytes response.brokenOff 0 response.chunks)
  pure (.document response.headers body)

/-- The impersonated retry after a 403.  When it fails with a `FallbackError` the
403 itself is raised. -/
def retryForbidden (up : Upstream) (cfg : Settings) (host url : Text)
    (headers : List (Text × Text)) : Fetch Exchange := do
  let fallback ← Act.handle
    (do
      let r ← onRequests (fetchViaImpersonation up cfg.fetchMaxBytes true url headers)
      Act.modify fun s ↦
        { s with domainsNeedingFallback := s.domainsNeedingFallback.insert host }
      pure r)
    (fun exc ↦ match exc with
      | .fallback _ => Act.raise (.httpStatus 403)
      | exc => Act.raise exc)
  pure (.document fallback.headers fallback.content)

/-- The choice of the path and the exchange itself. -/
def exchange (up : Upstream) (cfg : Settings) : Fetch Exchange := do
  let s ← Act.get
  let url := s.feed.effectiveUrl
  let headers := requestHeaders cfg s.feed
  let parts ← ofPython (SplitResult.urlsplit url)
  let host := parts.hostname.getD []
  if s.domainsNeedingFallback.contains host then do
    let r ← onRequests (fetchViaImpersonation up cfg.fetchMaxBytes false url headers)
    pure (.document r.headers r.content)
  else do
    let response ← onRequests (httpxStream up url headers)
    if response.statusCode = 304 then pure (.notModified response.headers)
    else if response.statusCode = 429 then pure (.rateLimited response.headers)
    else if response.statusCode = 403 then retryForbidden up cfg host url headers
    else readDirect cfg response

/-! ## The branches -/

/-- Whether the `try` block ended in a `return` of `fetch_one`. -/
inductive Flow where
  | returned
  | completed
deriving DecidableEq, Repr

/-- `feed.next_fetch_at = compute_next_fetch_at(feed, …)`. -/
def schedule (up : Upstream) (cfg : Settings) (now : Datetime) (weeklyEntryCount : Nat) :
    Fetch PUnit := do
  let s ← Act.get
  let next ← ofPython
    (computeNextFetchAt cfg s.feed now s.serverHint weeklyEntryCount up.draw)
  Act.modify fun s ↦ s.updateFeed fun f ↦ { f with nextFetchAt := next }

/-- The lifecycle part of the 304 branch. -/
def markNotModified (now : Datetime) (r : Tracked) : Tracked :=
  let r := r.update fun f ↦ { f with lastSuccessfulFetchAt := some now }
  if r.feed.status = .broken then
    (r.moveTo .active .http304Recovery).update fun f ↦
      { f with consecutiveFailures := 0, lastErrorCode := none }
  else r

/-- The branch for 304. -/
def handleNotModified (up : Upstream) (cfg : Settings) (now : Datetime) (weeklyEntryCount : Nat)
    (headers : Headers) : Fetch Flow := do
  Act.modify fun s ↦ { s with row := markNotModified now s.row }
  let hint ← ofPython (parseCacheHint headers now)
  Act.modify fun s ↦ { s with serverHint := hint }
  schedule up cfg now weeklyEntryCount
  Act.modify fun s ↦ s.observe .notModified
  pure .returned

/-- The branch for 429. -/
def handleRateLimited (cfg : Settings) (now : Datetime) (headers : Headers) : Fetch Flow := do
  let retryAfter ← ofPython (parseRetryAfter (headers.get "retry-after".toList) now)
  let waitSeconds := max (retryAfter.getD 0) cfg.fetchIntervalSeconds
  Act.modify fun s ↦ s.updateFeed fun f ↦ { f with lastErrorCode := some .rateLimited }
  let next ← ofPython (addWholeSeconds now waitSeconds)
  Act.modify fun s ↦ s.updateFeed fun f ↦ { f with nextFetchAt := next }
  Act.modify fun s ↦ s.observe .rateLimited
  pure .returned

/-- The two caps on the entries of one fetch. -/
def capEntries (cfg : Settings) (hasExistingEntries : Bool) (entries : List ParsedEntry) :
    List ParsedEntry :=
  let entries :=
    if cfg.fetchMaxEntriesPerFetch < entries.length then
      Text.sliceTo cfg.fetchMaxEntriesPerFetch entries
    else entries
  if !hasExistingEntries && cfg.fetchMaxEntriesInitial < entries.length then
    Text.sliceTo cfg.fetchMaxEntriesInitial entries
  else entries

/-- Store the parsed entries. -/
def storeEntries (up : Upstream) (cfg : Settings) (now : Datetime) (entries : List ParsedEntry) :
    Fetch PUnit := do
  if entries.isEmpty then pure ⟨⟩
  else do
    let s ← Act.get
    let hasExistingEntries ← onSession
      (Session.execute up.statementFails .existsEntries fun d ↦ (d.hasEntries s.feed.id, d))
    onSession (upsertEntries up.statementFails s.feed.id now up.dbNow
      (capEntries cfg hasExistingEntries entries))

/-- Remember the validators that the answer carries. -/
def rememberValidators (headers : Headers) (f : Feed) : Feed :=
  { f with
    etag := (headers.get "etag".toList).or f.etag
    lastModified := (headers.get "last-modified".toList).or f.lastModified }

/-- The hint of the answer, raised to the `ttl` of the channel. -/
def combineTtl (hint : Option Int) (ttlSeconds : Option Int) : Option Int :=
  match ttlSeconds with
  | none => hint
  | some ttl =>
    if 0 < ttl then
      let n := max (hint.getD 0) ttl
      if n = 0 then none else some n
    else hint

/-- The tail of the `try` block, from the content-type check to its end. -/
def storeDocument (up : Upstream) (cfg : Settings) (now : Datetime) (headers : Headers)
    (body : Bytes) : Fetch Flow := do
  if isNotAFeedContentType (headers.get "content-type".toList) then Act.raise .notAFeed
  else do
    let parsed ← Act.ofExcept (parseFeed up.feedparser body)
    storeEntries up cfg now parsed.entries
    Act.modify fun s ↦ { s with row := markFetchSuccess now parsed.title s.row }
    Act.modify fun s ↦ s.updateFeed (rememberValidators headers)
    let hint ← ofPython (parseCacheHint headers now)
    Act.modify fun s ↦ { s with serverHint := combineTtl hint parsed.ttlSeconds }
    Act.modify fun s ↦ s.observe .success
    pure .completed

/-- The `try` block. -/
def attempt (up : Upstream) (cfg : Settings) (now : Datetime) (weeklyEntryCount : Nat) :
    Fetch Flow := do
  let s ← Act.get
  Act.ofExcept (Ssrf.validatePublicUrl up.resolver s.feed.effectiveUrl true)
  match ← exchange up cfg with
  | .notModified headers => handleNotModified up cfg now weeklyEntryCount headers
  | .rateLimited headers => handleRateLimited cfg now headers
  | .document headers body => storeDocument up cfg now headers body

/-- The `except` clause. -/
def recordFailure (cfg : Settings) (now : Datetime) (exc : Exc) : Fetch Flow := do
  let code := classifyError exc
  onRow (markFetchFailure now code cfg.brokenThreshold cfg.deadDurationDays)
  Act.modify fun s ↦ s.observe (.error code)
  pure .completed

/-- The beginning of `fetch_one`, up to the number of entries of the last week. -/
def prepare (up : Upstream) (now : Datetime) : Fetch Nat := do
  Act.modify fun s ↦ s.updateFeed fun f ↦ { f with lastAttemptAt := some now }
  Act.modify fun s ↦ { s with serverHint := none }
  let week ← ofPython (Timedelta.ofDays 7)
  let cutoff ← ofPython (now.subDelta week)
  let s ← Act.get
  onSession (Session.execute up.statementFails .countWeeklyEntries fun d ↦
    (d.weeklyEntryCount s.feed.id cutoff, d))

/-- `fetch_one`. -/
def fetchOne (up : Upstream) (cfg : Settings) (now : Datetime) : Fetch PUnit := do
  let weeklyEntryCount ← prepare up now
  match ← Act.handle (attempt up cfg now weeklyEntryCount) (recordFailure cfg now) with
  | .returned => pure ⟨⟩
  | .completed => schedule up cfg now weeklyEntryCount

end FeedgateFetcher
