import FeedgateFetcher.Fetcher.Parser
import FeedgateFetcher.Fetcher.Policy
import FeedgateFetcher.Logic.Effect
import FeedgateFetcher.Ssrf

/-!
# What lies outside the process

`Upstream` collects everything one call of `fetch_one` depends on beyond its
arguments: name resolution, the origins behind the two HTTP clients, the feed
parser, the database server and the random source.  The two clients are
third-party code; what is assumed of them is written out here.  `httpx` calls
its transport once for every hop and follows at most twenty redirects;
`curl_cffi` follows up to ten by itself.  The state of these computations is the
log of the requests that left the process.
-/

namespace FeedgateFetcher

open Python Logic

structure Request where
  url : Text
  headers : List (Text × Text)
deriving DecidableEq, Repr

/-- One HTTP answer: its body arrives in chunks, and may break off with an error. -/
structure Answer where
  statusCode : Nat
  headers : Headers
  chunks : List Bytes
  brokenOff : Option Exc
deriving DecidableEq, Repr

/-- How a transfer of `curl_cffi` ends without an answer: with an exception of its
own, or because the total budget of the fetch ran out while it was in flight. -/
inductive CurlFailure where
  | error (exc : Exc)
  | budgetExpired
deriving DecidableEq, Repr

/-- The requests sent so far, oldest first. -/
abbrev RequestLog := List Request

/-- The transports are given the requests sent before, so an origin may answer the
same request differently each time. -/
structure Upstream where
  resolver : Resolver
  /-- The URL that `httpx` requests for a URL string. -/
  httpxUrl : Text → Except Exc Text
  httpxTransport : RequestLog → Request → Except Exc Answer
  /-- The target of a redirect answer, as `httpx` builds it. -/
  httpxRedirect : Text → Answer → Except Exc Text
  curlInstalled : Bool
  curlTransport : RequestLog → Request → Except CurlFailure Answer
  /-- Where `curl_cffi` goes on from an answer, if it does. -/
  curlRedirect : Text → Answer → Option Text
  feedparser : Bytes → Option FeedParserDict
  /-- Whether the server rejects the `n`-th statement of the transaction. -/
  statementFails : Nat → Bool
  /-- The clock of the database transaction. -/
  dbNow : Datetime
  draw : Draw

/-- The surroundings in which every name has a public address, nobody answers and
the database accepts everything. -/
def Upstream.silent : Upstream where
  resolver _ := .ok ["93.184.216.34".toList]
  httpxUrl url := .ok url
  httpxTransport _ _ := .error .timeout
  httpxRedirect _ _ := .error .httpError
  curlInstalled := true
  curlTransport _ _ := .error (.error .timeout)
  curlRedirect _ _ := none
  feedparser _ := none
  statementFails _ := false
  dbNow := .earliest
  draw := ⟨0, le_refl 0, by decide⟩

/-- The surroundings in which every request gets the same answer, whoever sends it. -/
def Upstream.answering (a : Answer) : Upstream :=
  { Upstream.silent with
    httpxTransport := fun _ _ ↦ .ok a
    curlTransport := fun _ _ ↦ .ok a }

/-- The body of an answer with a feed, whose text does not matter. -/
def feedDocument : Bytes := "<rss/>".toList.map fun c ↦ UInt8.ofNat c.toNat

/-- The surroundings in which every request gets this feed, the only one that the parser reads. -/
def Upstream.delivering (statusCode : Nat) (headers : Headers) (feed : FeedParserDict) : Upstream :=
  { Upstream.answering ⟨statusCode, headers, [feedDocument], none⟩ with
    feedparser := fun body ↦ if body = feedDocument then some feed else none }

/-! ## The guarded `httpx` client -/

/-- `SSRFGuardTransport.handle_async_request`. -/
def guardedRequest (up : Upstream) (request : Request) : Act RequestLog Exc Answer := do
  Act.ofExcept (Ssrf.validatePublicUrl up.resolver request.url true)
  let earlier ← Act.get
  Act.modify fun log ↦ log ++ [request]
  Act.ofExcept (up.httpxTransport earlier request)

/-- `httpx.Response`, with the status codes of the redirects that led to it. -/
structure Response where
  statusCode : Nat
  headers : Headers
  chunks : List Bytes
  brokenOff : Option Exc
  url : Text
  history : List Nat
deriving DecidableEq, Repr

/-- `response.has_redirect_location`. -/
def Answer.hasRedirectLocation (a : Answer) : Bool :=
  [301, 302, 303, 307, 308].contains a.statusCode && (a.headers.get "location".toList).isSome

/-- `AsyncClient._send_handling_redirects`: the loop that follows redirects until
more than `remaining` requests would be needed. -/
def sendHandlingRedirects (up : Upstream) (headers : List (Text × Text)) :
    (remaining : Nat) → (url : Text) → (history : List Nat) → Act RequestLog Exc Response
  | 0, _, _ => Act.raise .tooManyRedirects
  | n + 1, url, history => do
    let a ← guardedRequest up ⟨url, headers⟩
    if a.hasRedirectLocation then do
      let next ← Act.ofExcept (up.httpxRedirect url a)
      match a.brokenOff with
      | some exc => Act.raise exc
      | none => sendHandlingRedirects up headers n next (history ++ [a.statusCode])
    else pure ⟨a.statusCode, a.headers, a.chunks, a.brokenOff, url, history⟩

/-- `http_client.stream("GET", url, …, follow_redirects=True)`. -/
def httpxStream (up : Upstream) (url : Text) (headers : List (Text × Text)) :
    Act RequestLog Exc Response := do
  let url ← Act.ofExcept (up.httpxUrl url)
  sendHandlingRedirects up headers 21 url []

/-! ## The impersonating client -/

/-- One hop of the client: its answer, and where the client goes on from it. -/
def curlHop (up : Upstream) (headers : List (Text × Text)) (url : Text) :
    Act RequestLog CurlFailure (Answer × Option Text) := do
  let earlier ← Act.get
  Act.modify fun log ↦ log ++ [⟨url, headers⟩]
  let a ← Act.ofExcept (up.curlTransport earlier ⟨url, headers⟩)
  match a.brokenOff with
  | some exc => Act.raise (.error exc)
  | none => pure (a, up.curlRedirect url a)

/-- `session.get(url, …, allow_redirects=True, max_redirects=10)`: the client
follows redirects itself, so nothing is checked between the hops. -/
def curlGet (up : Upstream) (headers : List (Text × Text)) :
    (redirects : Nat) → (url : Text) → Act RequestLog CurlFailure (Answer × Text)
  | 0, url => do
    match ← curlHop up headers url with
    | (a, none) => pure (a, url)
    | (_, some _) => Act.raise (.error .unclassified)
  | n + 1, url => do
    match ← curlHop up headers url with
    | (a, none) => pure (a, url)
    | (_, some next) => curlGet up headers n next

/-- `fetcher.fallback.FallbackResponse`. -/
structure FallbackResponse where
  statusCode : Nat
  headers : Headers
  content : Bytes
  url : Text
deriving DecidableEq, Repr

/-- What the caller of `fetch_via_impersonation` sees of a failed transfer.  Inside
`asyncio.timeout` an expired budget interrupts the transfer with a `TimeoutError`;
elsewhere the client's own timeout fires and is wrapped like any other error. -/
def wrapCurlFailure (underTimeout : Bool) : CurlFailure → Exc
  | .error exc => .fallback exc
  | .budgetExpired => if underTimeout then .timeout else .fallback .timeout

/-- `fetch_via_impersonation`. -/
def fetchViaImpersonation (up : Upstream) (maxBytes : Nat) (underTimeout : Bool) (url : Text)
    (headers : List (Text × Text)) : Act RequestLog Exc FallbackResponse := do
  Act.ofExcept (Ssrf.validatePublicUrl up.resolver url true)
  if !up.curlInstalled then Act.raise (.fallback .unclassified)
  else do
    let (resp, finalUrl) ← Act.mapError (wrapCurlFailure underTimeout) (curlGet up headers 10 url)
    let content := resp.chunks.flatten
    Act.ofExcept (if maxBytes < content.length then .error .responseTooLarge
      else .ok ⟨resp.statusCode, resp.headers, content, finalUrl⟩)

end FeedgateFetcher
