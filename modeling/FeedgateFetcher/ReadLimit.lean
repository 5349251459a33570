import FeedgateFetcher.Committed
import FeedgateFetcher.Impersonation
import FeedgateFetcher.Logic.Coupling
import FeedgateFetcher.Service

/-!
# The limit of what counts

A body that is longer than `fetch_max_bytes` is given up.  So what an origin sends beyond the limit,
how it cuts a body into chunks, and what the parser would make of longer bodies, leaves no trace:
runs of the service that differ in this alone are the same.  The direct client stops reading a
document at the chunk that goes beyond the limit, so with it even a connection that breaks after
that makes no difference.  The impersonating client takes the whole body before its length is looked
at, and the answers on the way of a redirect are read whole.
-/

namespace FeedgateFetcher

open Python Logic

/-! ## Answers and surroundings that cannot be told apart -/

/-- The bodies are the same, or both too long. -/
def BodiesAlike (maxBytes : Nat) (chunks chunks' : List Bytes) : Prop :=
  chunks.flatten = chunks'.flatten ∨
    (maxBytes < chunks.flatten.length ∧ maxBytes < chunks'.flatten.length)

/-- The streams have the same body and end alike, or they are both too long, where they need not
end alike. -/
def StreamsAlike (maxBytes : Nat) (chunks chunks' : List Bytes)
    (brokenOff brokenOff' : Option Exc) : Prop :=
  (chunks.flatten = chunks'.flatten ∧ brokenOff = brokenOff') ∨
    (maxBytes < chunks.flatten.length ∧ maxBytes < chunks'.flatten.length)

/-- Answers that are read whole before their length is looked at. -/
structure Answer.Alike (maxBytes : Nat) (a a' : Answer) : Prop where
  statusCode : a.statusCode = a'.statusCode
  headers : a.headers = a'.headers
  brokenOff : a.brokenOff = a'.brokenOff
  bodies : BodiesAlike maxBytes a.chunks a'.chunks

/-- Answers whose chunks are counted while they are read, unless they redirect. -/
structure Answer.StreamAlike (maxBytes : Nat) (a a' : Answer) : Prop where
  statusCode : a.statusCode = a'.statusCode
  headers : a.headers = a'.headers
  onTheWay : a.hasRedirectLocation → a.brokenOff = a'.brokenOff
  stream : StreamsAlike maxBytes a.chunks a'.chunks a.brokenOff a'.brokenOff

structure Response.Alike (maxBytes : Nat) (r r' : Response) : Prop where
  statusCode : r.statusCode = r'.statusCode
  headers : r.headers = r'.headers
  url : r.url = r'.url
  history : r.history = r'.history
  stream : StreamsAlike maxBytes r.chunks r'.chunks r.brokenOff r'.brokenOff

/-- The surroundings differ in bodies that are too long, or cut into other chunks, in how streams
that are too long end, and in what the parser makes of bodies that are too long. -/
structure Upstream.Alike (maxBytes : Nat) (up up' : Upstream) : Prop where
  resolver : up.resolver = up'.resolver
  httpxUrl : up.httpxUrl = up'.httpxUrl
  httpxTransport : ∀ log request, Coupled (Answer.StreamAlike maxBytes)
    (up.httpxTransport log request) (up'.httpxTransport log request)
  httpxRedirect : ∀ url a a', a.StreamAlike maxBytes a' →
    up.httpxRedirect url a = up'.httpxRedirect url a'
  curlInstalled : up.curlInstalled = up'.curlInstalled
  curlTransport : ∀ log request, Coupled (Answer.Alike maxBytes) (up.curlTransport log request)
    (up'.curlTransport log request)
  curlRedirect : ∀ url a a', a.Alike maxBytes a' →
    up.curlRedirect url a = up'.curlRedirect url a'
  feedparser : ∀ body : Bytes, body.length ≤ maxBytes → up.feedparser body = up'.feedparser body
  statementFails : up.statementFails = up'.statementFails
  dbNow : up.dbNow = up'.dbNow
  draw : up.draw = up'.draw

/-- The body of a document is within the limit. -/
def Exchange.Within (maxBytes : Nat) : Exchange → Prop
  | .document _ body => body.length ≤ maxBytes
  | _ => True

/-! ## The exchange -/

section

variable {up up' : Upstream} {cfg : Settings} {maxBytes : Nat}

/-- A body is read to its end, unless it is too long. -/
theorem readBody_eq {size : Nat} (hs : size ≤ maxBytes) (brokenOff : Option Exc)
    (chunks : List Bytes) :
    readBody maxBytes brokenOff size chunks =
      if maxBytes < size + chunks.flatten.length then .error .responseTooLarge
      else match brokenOff with
        | some exc => .error exc
        | none => .ok chunks.flatten := by
  induction chunks generalizing size with
  | nil =>
      rw [if_neg (by simpa using hs)]
      cases brokenOff <;> rfl
  | cons chunk chunks ih =>
      have hlen : size + (chunk :: chunks).flatten.length =
          size + chunk.length + chunks.flatten.length := by
        rw [List.flatten_cons, List.length_append]
        omega
      rw [readBody, hlen]
      by_cases hlt : maxBytes < size + chunk.length
      · rw [if_pos hlt, if_pos (by omega)]
      · rw [if_neg hlt, ih (by omega)]
        split
        · rfl
        · cases brokenOff <;> rfl

theorem readBody_alike {chunks chunks' : List Bytes} {brokenOff brokenOff' : Option Exc}
    (h : StreamsAlike maxBytes chunks chunks' brokenOff brokenOff') :
    Coupled (fun body body' ↦ body = body' ∧ body.length ≤ maxBytes)
      (readBody maxBytes brokenOff 0 chunks) (readBody maxBytes brokenOff' 0 chunks') := by
  rw [readBody_eq (Nat.zero_le _), readBody_eq (Nat.zero_le _), Nat.zero_add, Nat.zero_add]
  rcases h with ⟨heq, rfl⟩ | ⟨hlong, hlong'⟩
  · rw [heq]
    split
    · exact .error _
    · rename_i hle
      cases brokenOff with
      | some exc => exact .error exc
      | none => exact .ok ⟨rfl, not_lt.mp hle⟩
  · rw [if_pos hlong, if_pos hlong']
    exact .error _

theorem couples_guardedRequest (h : up.Alike maxBytes up') (request : Request) :
    Act.Couples (Answer.StreamAlike maxBytes) (guardedRequest up request)
      (guardedRequest up' request) := by
  unfold guardedRequest
  rw [h.resolver]
  refine Act.couples_bind _ fun _ ↦ Act.couples_bind _ fun earlier ↦ Act.couples_bind _ fun _ ↦ ?_
  exact Act.couples_ofExcept (h.httpxTransport earlier request)

theorem couples_sendHandlingRedirects (h : up.Alike maxBytes up') (headers : List (Text × Text))
    (n : Nat) (url : Text) (history : List Nat) :
    Act.Couples (Response.Alike maxBytes) (sendHandlingRedirects up headers n url history)
      (sendHandlingRedirects up' headers n url history) := by
  induction n generalizing url history with
  | zero => exact Act.couples_raise _
  | succ n ih =>
      refine (couples_guardedRequest h _).bind fun a a' ha ↦ ?_
      have hredirect := h.httpxRedirect url a a' ha
      have hlocation : a.hasRedirectLocation = a'.hasRedirectLocation := by
        rw [Answer.hasRedirectLocation, Answer.hasRedirectLocation, ha.statusCode, ha.headers]
      rw [← hlocation, ← hredirect, ← ha.statusCode]
      cases hway : a.hasRedirectLocation with
      | true =>
          -- A redirect is read to its end before the next request.
          refine Act.couples_bind _ fun next ↦ ?_
          rw [← ha.onTheWay hway]
          cases a.brokenOff with
          | some exc => exact Act.couples_raise exc
          | none => exact ih next _
      | false => exact Act.couples_pure ⟨rfl, ha.headers, rfl, rfl, ha.stream⟩

theorem couples_httpxStream (h : up.Alike maxBytes up') (url : Text)
    (headers : List (Text × Text)) :
    Act.Couples (Response.Alike maxBytes) (httpxStream up url headers)
      (httpxStream up' url headers) := by
  unfold httpxStream
  rw [h.httpxUrl]
  exact Act.couples_bind _ fun url ↦ couples_sendHandlingRedirects h headers 21 url []

theorem couples_curlHop (h : up.Alike maxBytes up') (headers : List (Text × Text)) (url : Text) :
    Act.Couples (fun r r' ↦ r.1.Alike maxBytes r'.1 ∧ r.2 = r'.2) (curlHop up headers url)
      (curlHop up' headers url) := by
  unfold curlHop
  refine Act.couples_bind _ fun earlier ↦ Act.couples_bind _ fun _ ↦ ?_
  refine (Act.couples_ofExcept (h.curlTransport earlier _)).bind fun a a' ha ↦ ?_
  have hbroken := ha.brokenOff
  cases hb : a.brokenOff with
  | some exc =>
      rw [← hbroken, hb]
      exact Act.couples_raise _
  | none =>
      rw [← hbroken, hb]
      exact Act.couples_pure ⟨ha, h.curlRedirect url a a' ha⟩

theorem couples_curlGet (h : up.Alike maxBytes up') (headers : List (Text × Text))
    (redirects : Nat) (url : Text) :
    Act.Couples (fun r r' ↦ r.1.Alike maxBytes r'.1 ∧ r.2 = r'.2)
      (curlGet up headers redirects url) (curlGet up' headers redirects url) := by
  induction redirects generalizing url with
  | zero =>
      refine (couples_curlHop h headers url).bind ?_
      rintro ⟨a, next⟩ ⟨a', _⟩ ⟨ha, rfl⟩
      cases next with
      | none => exact Act.couples_pure ⟨ha, rfl⟩
      | some next => exact Act.couples_raise _
  | succ n ih =>
      refine (couples_curlHop h headers url).bind ?_
      rintro ⟨a, next⟩ ⟨a', _⟩ ⟨ha, rfl⟩
      cases next with
      | none => exact Act.couples_pure ⟨ha, rfl⟩
      | some next => exact ih next

theorem couples_fetchViaImpersonation (h : up.Alike maxBytes up') (underTimeout : Bool)
    (url : Text) (headers : List (Text × Text)) :
    Act.Couples (fun r r' ↦ r = r' ∧ r.content.length ≤ maxBytes)
      (fetchViaImpersonation up maxBytes underTimeout url headers)
      (fetchViaImpersonation up' maxBytes underTimeout url headers) := by
  unfold fetchViaImpersonation
  rw [h.resolver, h.curlInstalled]
  refine Act.couples_bind _ fun _ ↦ Act.Couples.ite (Act.couples_raise _) ?_
  refine ((couples_curlGet h headers 10 url).mapError _).bind ?_
  rintro ⟨a, finalUrl⟩ ⟨a', _⟩ ⟨ha, rfl⟩
  refine Act.couples_ofExcept ?_
  dsimp only
  rcases ha.bodies with heq | ⟨hlong, hlong'⟩
  · rw [← heq, ← ha.statusCode, ← ha.headers]
    split
    · exact .error _
    · rename_i hle
      exact .ok ⟨rfl, not_lt.mp hle⟩
  · rw [if_pos hlong, if_pos hlong']
    exact .error _

theorem couples_retryForbidden (h : up.Alike cfg.fetchMaxBytes up') (host url : Text)
    (headers : List (Text × Text)) :
    Act.Couples (fun x x' ↦ x = x' ∧ x.Within cfg.fetchMaxBytes)
      (retryForbidden up cfg host url headers) (retryForbidden up' cfg host url headers) := by
  unfold retryForbidden
  refine Act.Couples.bind (R := fun r r' ↦ r = r' ∧ r.content.length ≤ cfg.fetchMaxBytes)
    (Act.Couples.handle ?_ ?_) ?_
  · refine (couples_fetchViaImpersonation h true url headers).zoom.bind ?_
    rintro r _ ⟨rfl, hle⟩
    exact Act.couples_bind _ fun _ ↦ Act.couples_pure ⟨rfl, hle⟩
  · intro exc
    cases exc <;> exact Act.couples_raise _
  · rintro r _ ⟨rfl, hle⟩
    exact Act.couples_pure ⟨rfl, hle⟩

theorem couples_readDirect {r r' : Response} (h : r.Alike cfg.fetchMaxBytes r') :
    Act.Couples (fun x x' ↦ x = x' ∧ x.Within cfg.fetchMaxBytes) (readDirect cfg r)
      (readDirect cfg r') := by
  obtain ⟨status, headers, chunks, brokenOff, url, history⟩ := r
  obtain ⟨status', headers', chunks', brokenOff', url', history'⟩ := r'
  obtain ⟨hstatus, hheaders, hurl, hhistory, hstream⟩ := h
  dsimp only at hstatus hheaders hurl hhistory hstream
  subst hstatus hheaders hurl hhistory
  refine Act.couples_bind _ fun _ ↦ Act.couples_bind _ fun _ ↦ ?_
  refine (Act.couples_ofExcept (readBody_alike hstream)).bind ?_
  rintro body _ ⟨rfl, hle⟩
  exact Act.couples_pure ⟨rfl, hle⟩

theorem couples_exchange (h : up.Alike cfg.fetchMaxBytes up') :
    Act.Couples (fun x x' ↦ x = x' ∧ x.Within cfg.fetchMaxBytes) (exchange up cfg)
      (exchange up' cfg) := by
  unfold exchange
  refine Act.couples_bind _ fun s ↦ Act.couples_bind _ fun parts ↦ Act.Couples.ite ?_ ?_
  · refine (couples_fetchViaImpersonation h false _ _).zoom.bind ?_
    rintro r _ ⟨rfl, hle⟩
    exact Act.couples_pure ⟨rfl, hle⟩
  · refine (couples_httpxStream h _ _).zoom.bind fun r r' hr ↦ ?_
    rw [← hr.statusCode, ← hr.headers]
    refine Act.Couples.ite (Act.couples_pure ⟨rfl, trivial⟩) ?_
    refine Act.Couples.ite (Act.couples_pure ⟨rfl, trivial⟩) ?_
    exact Act.Couples.ite (couples_retryForbidden h _ _ _) (couples_readDirect hr)

theorem couples_contact (h : up.Alike cfg.fetchMaxBytes up') :
    Act.Couples (fun x x' ↦ x = x' ∧ x.Within cfg.fetchMaxBytes) (contact up cfg)
      (contact up' cfg) := by
  unfold contact
  rw [h.resolver]
  exact Act.couples_bind _ fun _ ↦ Act.couples_bind _ fun _ ↦ couples_exchange h

/-! ## The fetch -/

theorem parseFeed_alike (h : up.Alike maxBytes up') {body : Bytes} (hle : body.length ≤ maxBytes) :
    parseFeed up.feedparser body = parseFeed up'.feedparser body := by
  unfold parseFeed
  rw [h.feedparser body hle]

theorem schedule_alike (h : up.Alike maxBytes up') (now : Datetime) (weekly : Nat) :
    schedule up cfg now weekly = schedule up' cfg now weekly := by
  unfold schedule
  rw [h.draw]

theorem respond_alike (h : up.Alike maxBytes up') (now : Datetime) (weekly : Nat) {x : Exchange}
    (hx : x.Within maxBytes) : respond up cfg now weekly x = respond up' cfg now weekly x := by
  cases x with
  | notModified headers =>
      unfold respond handleNotModified
      rw [schedule_alike h]
  | rateLimited headers => rfl
  | document headers body =>
      show storeDocument up cfg now headers body = storeDocument up' cfg now headers body
      unfold storeDocument storeEntries
      rw [parseFeed_alike h hx, h.statementFails, h.dbNow]

/-- Alike surroundings make no difference to a fetch. -/
theorem fetchOne_alike (h : up.Alike cfg.fetchMaxBytes up') (now : Datetime) :
    fetchOne up cfg now = fetchOne up' cfg now := by
  have hprepare : prepare up now = prepare up' now := by
    unfold prepare
    rw [h.statementFails]
  have hattempt : ∀ weekly, attempt up cfg now weekly = attempt up' cfg now weekly := by
    intro weekly
    rw [attempt_eq, attempt_eq]
    refine Act.Couples.eq ((couples_contact h).bind ?_)
    rintro x _ ⟨rfl, hx⟩
    rw [respond_alike h now weekly hx]
    exact .refl _
  unfold fetchOne
  simp only [hprepare, hattempt, schedule_alike h]

theorem processing_alike (h : up.Alike cfg.fetchMaxBytes up') (now : Datetime) :
    processing up cfg now = processing up' cfg now := by
  unfold processing load commit
  rw [h.statementFails, fetchOne_alike h]

theorem documentRefusal_alike (h : up.Alike maxBytes up') {body : Bytes}
    (hle : body.length ≤ maxBytes) (s : FetchState) (headers : Headers) :
    documentRefusal up cfg s headers body = documentRefusal up' cfg s headers body := by
  have haccepted : ∀ n parsed,
      StoreAccepted up cfg s n parsed ↔ StoreAccepted up' cfg s n parsed := by
    intro n parsed
    unfold StoreAccepted
    rw [h.statementFails]
  unfold documentRefusal
  rw [parseFeed_alike h hle]
  simp only [haccepted]

theorem processedBatch_alike (h : up.Alike cfg.fetchMaxBytes up') (now : Datetime)
    (s : FetchState) : processedBatch up cfg now s = processedBatch up' cfg now s := by
  have hload : load up = load up' := by
    unfold load
    rw [h.statementFails]
  have hprepare : prepare up now = prepare up' now := by
    unfold prepare
    rw [h.statementFails]
  unfold processedBatch
  rw [hload]
  generalize (load up' s).2 = s
  unfold storedBatch
  rw [hprepare]
  have hcontact := (couples_contact h (prepare up' now s).2).1
  generalize (contact up cfg (prepare up' now s).2).1 = r at hcontact ⊢
  generalize (contact up' cfg (prepare up' now s).2).1 = r' at hcontact ⊢
  cases hcontact with
  | error e => rfl
  | @ok x x' hx =>
      obtain ⟨rfl, hwithin⟩ := hx
      cases x with
      | document headers body =>
          dsimp only
          rw [documentRefusal_alike h hwithin, parseFeed_alike h hwithin]
      | notModified headers => rfl
      | rateLimited headers => rfl

end

/-! ## Runs -/

/-- Actions that differ in the surroundings of a fetch alone, and not in what counts. -/
inductive ServiceAction.Alike (maxBytes : Nat) : ServiceAction → ServiceAction → Prop
  | refl (a : ServiceAction) : Alike maxBytes a a
  | commit {now : Datetime} {c : Claim} {up up' : Upstream} {session : Session}
    {domains : List Text} (h : up.Alike maxBytes up') :
    Alike maxBytes (.commit now c up session domains) (.commit now c up' session domains)

namespace Service

variable {cfg : Settings} {retention : RetentionSettings} {s t : Service} {a a' : ServiceAction}

/-- Alike actions lead to the same state. -/
theorem Step.alike (hs : s.Step cfg retention a t) (h : a.Alike cfg.fetchMaxBytes a') :
    s.Step cfg retention a' t := by
  cases h with
  | refl _ => exact hs
  | @commit now c up up' session domains h =>
      cases hs with
      | @commit _ _ row _ _ _ cluster hstep hrow hdurable hfeed =>
          have hrun : ∀ row, c.run cfg up session domains row = c.run cfg up' session domains row :=
            fun row ↦ congrFun (processing_alike h c.now) _
          have hfinish : s.cluster.Step cfg (.finish now c up' session domains) cluster := by
            cases hstep with
            | finish hclock hc hrow htable hheld hnow =>
                refine .finish hclock hc hrow ?_ hheld hnow
                rw [htable, Claim.settle, Claim.settle, processing_alike h]
          have hstored : s.stored cfg c up session domains row =
              s.stored cfg c up' session domains row := by
            rw [stored, stored, processedBatch_alike h, h.dbNow]
          rw [hrun] at hdurable
          rw [hstored]
          exact .commit hfinish hrow hdurable hfeed

/-- What lies beyond the limit leaves no trace in any run. -/
theorem beyond_limit_unread {as as' : List ServiceAction} (hr : Run (Step cfg retention) s as t)
    (h : List.Forall₂ (ServiceAction.Alike cfg.fetchMaxBytes) as as') :
    Run (Step cfg retention) s as' t := by
  induction hr generalizing as' with
  | nil =>
      cases h
      exact .nil
  | @snoc as t u a _ hs ih =>
      have hbefore := (List.forall₂_take_append as' as [a] h.flip).flip
      have hlast := (List.forall₂_drop_append as' as [a] h.flip).flip
      rw [← List.take_append_drop as.length as']
      generalize as'.drop as.length = rest at hlast ⊢
      cases hlast with
      | cons ha hnil =>
          cases hnil
          exact (ih hbefore).snoc (hs.alike ha)

open Cluster (fresh leased firstClaim)

/-- Every answer has a body of three bytes, in one chunk. -/
def overlong : Upstream := .answering ⟨200, [], [[0, 0, 0]], none⟩

/-- Every answer has a body of four other bytes, in two chunks, and the direct client gets no end
of it. -/
def longer : Upstream :=
  { Upstream.answering ⟨200, [], [[1, 1], [1, 1]], none⟩ with
    httpxTransport := fun _ _ ↦ .ok ⟨200, [], [[1, 1], [1, 1]], some .timeout⟩ }

theorem overlong_alike : overlong.Alike 2 longer where
  resolver := rfl
  httpxUrl := rfl
  httpxTransport _ _ := .ok ⟨rfl, rfl, nofun, .inr (by decide)⟩
  httpxRedirect _ _ _ _ := rfl
  curlInstalled := rfl
  curlTransport _ _ := .ok ⟨rfl, rfl, rfl, .inr (by decide)⟩
  curlRedirect _ _ _ _ := rfl
  feedparser _ _ := rfl
  statementFails := rfl
  dbNow := rfl
  draw := rfl

/-- With a limit of two bytes both come to the same. -/
theorem overlong_unread : ∃ t,
    Run (Step { fetchMaxBytes := 2 } {}) tended
      [.commit .year2000 (firstClaim (some (leased (fresh 1)))) overlong (.start [] 1) []] t ∧
    Run (Step { fetchMaxBytes := 2 } {}) tended
      [.commit .year2000 (firstClaim (some (leased (fresh 1)))) longer (.start [] 1) []] t := by
  have hdurable : isDurable ((firstClaim (some (leased (fresh 1)))).run { fetchMaxBytes := 2 }
      overlong (.start [] 1) [] (leased (fresh 1))) = true := by decide +kernel
  obtain ⟨t, ht, -⟩ := tended_sound.commit_enabled (List.mem_singleton.mpr rfl) rfl hdurable
    ⟨_, List.mem_singleton.mpr rfl, rfl⟩
  have hrun := Run.single ht
  exact ⟨t, hrun, beyond_limit_unread hrun (.cons (.commit overlong_alike) .nil)⟩

end Service

end FeedgateFetcher
