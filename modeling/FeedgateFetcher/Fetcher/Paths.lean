import FeedgateFetcher.Fetcher.Branches
import FeedgateFetcher.Fetcher.EntryTable

/-!
# The paths of the exchange

Which client talks to the origin.  A host remembered in
`_DOMAINS_NEEDING_FALLBACK` is contacted by the impersonating client alone; any
other by `httpx`, with the impersonating client coming second after a 403.
-/

namespace FeedgateFetcher

open Python Logic

/-- The host to contact, when the pre-flight check lets the address pass. -/
def destination (up : Upstream) (s : FetchState) : Except Exc Text := do
  Ssrf.validatePublicUrl up.resolver s.feed.effectiveUrl true
  let parts ← (SplitResult.urlsplit s.feed.effectiveUrl).mapError .builtin
  pure (parts.hostname.getD [])

/-- The request of the impersonating client. -/
def impersonated (up : Upstream) (cfg : Settings) (underTimeout : Bool) (s : FetchState) :
    Except Exc FallbackResponse × FetchState :=
  onRequests (fetchViaImpersonation up cfg.fetchMaxBytes underTimeout s.feed.effectiveUrl
    (requestHeaders cfg s.feed)) s

/-- The request of the guarded client. -/
def streamed (up : Upstream) (cfg : Settings) (s : FetchState) : Except Exc Response × FetchState :=
  onRequests (httpxStream up s.feed.effectiveUrl (requestHeaders cfg s.feed)) s

/-- The redirect in the answer that the impersonating client gets from `url`. -/
def curlTarget (up : Upstream) (headers : List (Text × Text)) (url : Text) (log : RequestLog) :
    Option Text :=
  match up.curlTransport log ⟨url, headers⟩ with
  | .error _ => none
  | .ok a => if a.brokenOff.isNone then up.curlRedirect url a else none

/-- What becomes of a direct answer. -/
def dispatch (up : Upstream) (cfg : Settings) (host url : Text) (headers : List (Text × Text))
    (response : Response) : Fetch Exchange :=
  if response.statusCode = 304 then pure (.notModified response.headers)
  else if response.statusCode = 429 then pure (.rateLimited response.headers)
  else if response.statusCode = 403 then retryForbidden up cfg host url headers
  else readDirect cfg response

/-- The document in an impersonated answer. -/
def FallbackResponse.document (r : FallbackResponse) : Exchange := .document r.headers r.content

section

variable {up : Upstream} {cfg : Settings} {s t : FetchState} {host : Text}

/-- Every hop of the impersonating client is one request, and brings a complete answer if any. -/
theorem curlHop_cases (up : Upstream) (headers : List (Text × Text)) (url : Text)
    (log : RequestLog) :
    (∃ failure, curlHop up headers url log = (.error failure, log ++ [⟨url, headers⟩]) ∧
      curlTarget up headers url log = none) ∨
    ∃ a, curlHop up headers url log =
      (.ok (a, curlTarget up headers url log), log ++ [⟨url, headers⟩]) ∧ a.brokenOff = none := by
  unfold curlHop curlTarget
  rw [Act.get_bind_apply, Act.modify_bind_apply]
  cases up.curlTransport log ⟨url, headers⟩ with
  | error failure => exact .inl ⟨failure, rfl, rfl⟩
  | ok a =>
      rw [Act.ofExcept_ok_bind_apply]
      dsimp only
      cases hb : a.brokenOff with
      | some exc => exact .inl ⟨.error exc, rfl, rfl⟩
      | none => exact .inr ⟨a, rfl, hb⟩

theorem contact_of_refused {exc : Exc} (h : destination up s = .error exc) :
    contact up cfg s = (.error exc, s) := by
  unfold destination at h
  unfold contact exchange ofPython
  rw [Act.get_bind_apply]
  cases hv : Ssrf.validatePublicUrl up.resolver s.feed.effectiveUrl true with
  | error e =>
      rw [hv] at h
      cases h
      rfl
  | ok _ =>
      rw [hv] at h
      rw [Act.ofExcept_ok_bind_apply, Act.get_bind_apply]
      cases hu : SplitResult.urlsplit s.feed.effectiveUrl with
      | error e =>
          rw [hu] at h
          cases h
          rfl
      | ok parts =>
          rw [hu] at h
          cases h

theorem validated_of_destination (h : destination up s = .ok host) :
    Ssrf.validatePublicUrl up.resolver s.feed.effectiveUrl true = .ok () := by
  unfold destination at h
  cases hv : Ssrf.validatePublicUrl up.resolver s.feed.effectiveUrl true with
  | error exc =>
      rw [hv] at h
      cases h
  | ok _ => rfl

/-- Past the pre-flight check the host decides. -/
theorem contact_of_destination (h : destination up s = .ok host) :
    contact up cfg s =
      if s.domainsNeedingFallback.contains host then
        ((impersonated up cfg false s).1.map FallbackResponse.document,
          (impersonated up cfg false s).2)
      else match streamed up cfg s with
        | (.error exc, t) => (.error exc, t)
        | (.ok response, t) =>
          dispatch up cfg host s.feed.effectiveUrl (requestHeaders cfg s.feed) response t := by
  unfold destination at h
  unfold contact exchange ofPython
  rw [Act.get_bind_apply]
  cases hv : Ssrf.validatePublicUrl up.resolver s.feed.effectiveUrl true with
  | error e =>
      rw [hv] at h
      cases h
  | ok _ =>
      rw [hv] at h
      rw [Act.ofExcept_ok_bind_apply, Act.get_bind_apply]
      cases hu : SplitResult.urlsplit s.feed.effectiveUrl with
      | error e =>
          rw [hu] at h
          cases h
      | ok parts =>
          rw [hu] at h
          cases h
          by_cases hc : s.domainsNeedingFallback.contains (parts.hostname.getD []) = true
          · rw [if_pos hc]
            change (if s.domainsNeedingFallback.contains (parts.hostname.getD []) then _ else _ :
              Fetch Exchange) s = _
            rw [if_pos hc, Act.bind_apply]
            unfold impersonated
            rcases onRequests _ s with ⟨_ | r, t⟩ <;> rfl
          · rw [if_neg hc]
            change (if s.domainsNeedingFallback.contains (parts.hostname.getD []) then _ else _ :
              Fetch Exchange) s = _
            rw [if_neg hc, Act.bind_apply]
            unfold streamed
            rcases onRequests _ s with ⟨_ | r, t⟩ <;> rfl

/-- The ways through the exchange. -/
inductive ContactRun (up : Upstream) (cfg : Settings) (s : FetchState) :
    Except Exc Exchange → FetchState → Prop
  /-- The pre-flight check refuses the address. -/
  | refused {exc : Exc} : destination up s = .error exc → ContactRun up cfg s (.error exc) s
  /-- The host is cached: only the impersonating client is asked. -/
  | cached {host : Text} {r : Except Exc FallbackResponse} {t : FetchState} :
    destination up s = .ok host → host ∈ s.domainsNeedingFallback →
    impersonated up cfg false s = (r, t) →
    ContactRun up cfg s (r.map FallbackResponse.document) t
  /-- No direct answer. -/
  | unanswered {host : Text} {exc : Exc} {t : FetchState} : destination up s = .ok host →
    host ∉ s.domainsNeedingFallback → streamed up cfg s = (.error exc, t) →
    ContactRun up cfg s (.error exc) t
  /-- A direct answer. -/
  | answered {host : Text} {response : Response} {s₁ t : FetchState} {r : Except Exc Exchange} :
    destination up s = .ok host → host ∉ s.domainsNeedingFallback →
    streamed up cfg s = (.ok response, s₁) →
    dispatch up cfg host s.feed.effectiveUrl (requestHeaders cfg s.feed) response s₁ = (r, t) →
    ContactRun up cfg s r t

theorem contact_run (up : Upstream) (cfg : Settings) (s : FetchState) :
    ContactRun up cfg s (contact up cfg s).1 (contact up cfg s).2 := by
  cases hd : destination up s with
  | error exc =>
      rw [contact_of_refused hd]
      exact .refused hd
  | ok host =>
      rw [contact_of_destination hd]
      split
      · rename_i hc
        exact .cached hd (List.contains_iff_mem.mp hc) rfl
      · rename_i hc
        have hmem : host ∉ s.domainsNeedingFallback := fun h ↦ hc (List.contains_iff_mem.mpr h)
        rcases hs : streamed up cfg s with ⟨exc | response, s₁⟩
        · exact .unanswered hd hmem hs
        · exact .answered hd hmem hs rfl

/-! ## Requests change the log only -/

theorem impersonated_frame {underTimeout : Bool} {r : Except Exc FallbackResponse}
    (h : impersonated up cfg underTimeout s = (r, t)) : t = { s with requests := t.requests } := by
  cases h
  rfl

theorem streamed_frame {r : Except Exc Response} (h : streamed up cfg s = (r, t)) :
    t = { s with requests := t.requests } := by
  cases h
  rfl

/-- What the handler around the impersonated retry makes of its exception. -/
def forbiddenError : Exc → Exc
  | .fallback _ => .httpStatus 403
  | exc => exc

theorem retryForbidden_eq (host : Text) (s : FetchState) :
    retryForbidden up cfg host s.feed.effectiveUrl (requestHeaders cfg s.feed) s =
      match impersonated up cfg true s with
      | (.error exc, t) => (.error (forbiddenError exc), t)
      | (.ok r, t) => (.ok r.document, { t with
          domainsNeedingFallback := t.domainsNeedingFallback.insert host }) := by
  unfold retryForbidden
  rcases hi : impersonated up cfg true s with ⟨exc | r, t⟩
  · have hi' : onRequests (fetchViaImpersonation up cfg.fetchMaxBytes true s.feed.effectiveUrl
        (requestHeaders cfg s.feed)) s = (.error exc, t) := hi
    rw [Act.bind_of_error ((Act.handle_of_error (Act.bind_of_error hi')).trans ?_)]
    cases exc <;> rfl
  · have hi' : onRequests (fetchViaImpersonation up cfg.fetchMaxBytes true s.feed.effectiveUrl
        (requestHeaders cfg s.feed)) s = (.ok r, t) := hi
    rw [Act.bind_of_ok (Act.handle_of_ok ((Act.bind_of_ok hi').trans rfl))]
    rfl

/-! ## The address -/

/-- The answer of the origin on the direct path. -/
def directResponse (up : Upstream) (cfg : Settings) (s : FetchState) : Option Response :=
  match destination up s with
  | .error _ => none
  | .ok host =>
    if s.domainsNeedingFallback.contains host then none else (streamed up cfg s).1.toOption

theorem directResponse_prepared (now : Datetime) (s : FetchState) (d : Session) :
    directResponse up cfg { s.prepared now with session := d } = directResponse up cfg s := rfl

/-- A direct answer is dispatched. -/
theorem contact_of_direct {response : Response} (h : directResponse up cfg s = some response) :
    ∃ host t, destination up s = .ok host ∧ streamed up cfg s = (.ok response, t) ∧
      contact up cfg s =
        dispatch up cfg host s.feed.effectiveUrl (requestHeaders cfg s.feed) response t := by
  unfold directResponse at h
  cases hd : destination up s with
  | error exc =>
      rw [hd] at h
      cases h
  | ok host =>
      rw [hd] at h
      dsimp only at h
      split at h
      · cases h
      · rename_i hc
        rw [contact_of_destination hd, if_neg hc]
        rcases hs : streamed up cfg s with ⟨exc | r, t⟩
        · rw [hs] at h
          cases h
        · rw [hs] at h
          cases h
          exact ⟨host, t, rfl, rfl, rfl⟩

/-- The address to which a successful answer moved the feed for good. -/
def Response.permanentAddress (r : Response) : Option Text :=
  if (200 ≤ r.statusCode ∧ r.statusCode < 300) ∧ r.history.any fun code ↦ code == 301 then
    some r.url
  else none

theorem followPermanentMove_eq (response : Response) (s : FetchState) :
    followPermanentMove response s =
      (.ok ⟨⟩, if response.history.any fun code ↦ code == 301 then
        s.updateFeed fun f ↦
          if response.url ≠ f.effectiveUrl then { f with effectiveUrl := response.url } else f
        else s) := Act.modify_if_apply _ _ _

theorem followPermanentMove_effectiveUrl (response : Response) (s : FetchState) :
    (followPermanentMove response s).2.feed.effectiveUrl =
      if response.history.any fun code ↦ code == 301 then response.url
      else s.feed.effectiveUrl := by
  rw [followPermanentMove_eq]
  split
  · by_cases heq : response.url = s.feed.effectiveUrl
    · exact (congrArg Feed.effectiveUrl (if_neg (not_not.mpr heq))).trans heq.symm
    · exact congrArg Feed.effectiveUrl (if_pos heq)
  · rfl

theorem readDirect_effectiveUrl {response : Response} {r : Except Exc Exchange}
    (h : readDirect cfg response s = (r, t)) :
    t.feed.effectiveUrl = response.permanentAddress.getD s.feed.effectiveUrl := by
  unfold readDirect raiseForStatus at h
  unfold Response.permanentAddress
  by_cases h2 : 200 ≤ response.statusCode ∧ response.statusCode < 300
  · rw [if_pos h2, Act.ofExcept_ok_bind_apply] at h
    have hurl := followPermanentMove_effectiveUrl response s
    have hok := congrArg Prod.fst (followPermanentMove_eq response s)
    rcases hf : followPermanentMove response s with ⟨r', s'⟩
    rw [hf] at hurl hok
    obtain rfl : r' = .ok ⟨⟩ := hok
    rw [Act.bind_of_ok hf] at h
    have ht : t = s' := by
      cases hb : readBody cfg.fetchMaxBytes response.brokenOff 0 response.chunks with
      | error exc =>
          rw [hb] at h
          cases h
          rfl
      | ok body =>
          rw [hb] at h
          cases h
          rfl
    rw [ht, hurl]
    simp only [h2, true_and, and_self]
    split <;> rfl
  · rw [if_neg h2] at h
    cases h
    rw [if_neg fun hc ↦ h2 hc.1]
    rfl

theorem keeps_feed_retryForbidden (url : Text) (headers : List (Text × Text)) :
    Act.Keeps FetchState.feed (retryForbidden up cfg host url headers) := by
  refine .bind (.handle ?_ fun exc ↦ ?_) fun _ ↦ Act.keeps_pure _ _
  · exact .bind (Act.keeps_zoom fun _ _ ↦ rfl) fun _ ↦
      .bind (Act.keeps_modify fun _ ↦ rfl) fun _ ↦ Act.keeps_pure _ _
  · cases exc <;> exact Act.keeps_raise _ _

/-- Only a successful direct answer moves the address. -/
theorem dispatch_effectiveUrl {url : Text} {headers : List (Text × Text)} {response : Response}
    {r : Except Exc Exchange} (h : dispatch up cfg host url headers response s = (r, t)) :
    t.feed.effectiveUrl = response.permanentAddress.getD s.feed.effectiveUrl := by
  have hnone : ¬(200 ≤ response.statusCode ∧ response.statusCode < 300) →
      response.permanentAddress = none := fun hn ↦ if_neg fun hc ↦ hn hc.1
  unfold dispatch at h
  by_cases h304 : response.statusCode = 304
  · rw [if_pos h304] at h
    cases h
    rw [hnone (by omega)]
    rfl
  by_cases h429 : response.statusCode = 429
  · rw [if_neg h304, if_pos h429] at h
    cases h
    rw [hnone (by omega)]
    rfl
  by_cases h403 : response.statusCode = 403
  · rw [if_neg h304, if_neg h429, if_pos h403] at h
    rw [hnone (by omega), (keeps_feed_retryForbidden url headers).eq_of_run h]
    rfl
  · rw [if_neg h304, if_neg h429, if_neg h403] at h
    exact readDirect_effectiveUrl h

/-- The address after the exchange. -/
theorem contact_effectiveUrl {r : Except Exc Exchange} (h : contact up cfg s = (r, t)) :
    t.feed.effectiveUrl =
      ((directResponse up cfg s).bind Response.permanentAddress).getD s.feed.effectiveUrl := by
  have hrun : ContactRun up cfg s r t := by
    have hrun := contact_run up cfg s
    rwa [h] at hrun
  clear h
  unfold directResponse
  cases hrun with
  | refused hd =>
      rw [hd]
      rfl
  | cached hd hc hr =>
      rw [hd, impersonated_frame hr]
      simp only [List.contains_iff_mem.mpr hc, if_true]
      rfl
  | unanswered hd hc hs =>
      rw [hd, hs, streamed_frame hs]
      simp only [List.contains_iff_mem, hc, if_false]
      rfl
  | answered hd hc hs hr =>
      rw [hd, hs, dispatch_effectiveUrl hr, streamed_frame hs]
      simp only [List.contains_iff_mem, hc, if_false]
      rfl

end

/-! ## What the branches find -/

/-- The state that a branch finds: the call has put down its attempt, counted the entries of
the week and perhaps moved the address. -/
structure Reached (now : Datetime) (s t : FetchState) : Prop where
  feed : t.feed = { s.feed with
    lastAttemptAt := some now
    effectiveUrl := t.feed.effectiveUrl }
  session : t.session = { s.session with executed := s.session.executed + 1 }
  serverHint : t.serverHint = none

namespace Reached

variable {up : Upstream} {cfg : Settings} {now : Datetime} {weekly : Nat} {s s' : FetchState}
  {parsed : ParsedFeed}

theorem batchOf (h : Reached now s s') : batchOf cfg s' parsed = batchOf cfg s parsed := by
  rw [FeedgateFetcher.batchOf, h.session, congrArg Feed.id h.feed]
  rfl

theorem storeAccepted (h : Reached now s s') :
    StoreAccepted up cfg s' s'.session.executed parsed ↔
      StoreAccepted up cfg s (s.session.executed + 1) parsed := by
  rw [StoreAccepted, h.batchOf, h.session]
  rfl

theorem of_contact {s₁ s₂ : FetchState} {r : Except Exc Exchange}
    (hp : prepare up now s = (.ok weekly, s₁)) (hc : contact up cfg s₁ = (r, s₂)) :
    Reached now s s₂ := by
  obtain ⟨-, rfl⟩ := prepare_ok hp
  have hk := (keeps_account_contact up cfg).eq_of_run hc
  constructor
  · exact congrArg (fun a : Account ↦ { a.feed with effectiveUrl := s₂.feed.effectiveUrl }) hk
  · exact congrArg Account.session hk
  · exact congrArg Account.serverHint hk

/-- The branches find the lifecycle of before. -/
theorem lifecycle (h : Reached now s s') : s'.feed.lifecycle = s.feed.lifecycle := by
  rw [h.feed]
  rfl

end Reached

/-- The first fetch, in a process that has cached the host. -/
def cachedFetch : FetchState :=
  { FetchState.firstFetch with domainsNeedingFallback := ["a.example".toList] }

end FeedgateFetcher
