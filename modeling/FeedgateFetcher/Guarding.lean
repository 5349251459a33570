import FeedgateFetcher.Fetcher.Paths

/-!
# Which requests are guarded

The guarded client checks every hop.  The impersonating client is checked once,
before its first request, and then follows redirects by itself: on its paths a
call is guarded exactly when the origin redirects to public addresses only.
-/

namespace FeedgateFetcher

open Python Logic

/-! ## The guarded client -/

/-- A request to a URL that `validate_public_url` lets through. -/
def Request.Accepted (resolver : Resolver) (r : Request) : Prop :=
  Ssrf.accepts resolver r.url = true

section

variable {up : Upstream} {cfg : Settings}

/-- What holds of accepted requests holds of the requests of the guarded client. -/
theorem emits_guardedRequest {P : Request → Prop} {request : Request}
    (h : request.Accepted up.resolver → P request) :
    Act.Emits (fun log ↦ log) P (guardedRequest up request) := by
  intro log
  unfold guardedRequest
  cases hv : Ssrf.validatePublicUrl up.resolver request.url true with
  | error exc => exact ⟨[], (List.append_nil _).symm, nofun⟩
  | ok _ =>
      refine ⟨[request], rfl, ?_⟩
      intro r hr
      rw [List.mem_singleton.mp hr]
      refine h ?_
      rw [Request.Accepted, Ssrf.accepts, hv]
      rfl

/-- The same at every hop, whatever the redirects. -/
theorem emits_sendHandlingRedirects {P : Request → Prop} {headers : List (Text × Text)}
    (h : ∀ url, Request.Accepted up.resolver ⟨url, headers⟩ → P ⟨url, headers⟩) (n : Nat)
    (url : Text) (history : List Nat) :
    Act.Emits (fun log ↦ log) P (sendHandlingRedirects up headers n url history) := by
  induction n generalizing url history with
  | zero => exact (Act.keeps_raise _ _).emits
  | succ n ih =>
      refine (emits_guardedRequest (h url)).bind fun a ↦ .ite ?_ (Act.keeps_pure _ _).emits
      refine (Act.keeps_ofExcept _ _).emits.bind fun next ↦ ?_
      cases a.brokenOff with
      | some exc => exact (Act.keeps_raise _ _).emits
      | none => exact ih next _

theorem emits_httpxStream {P : Request → Prop} {headers : List (Text × Text)}
    (h : ∀ url, Request.Accepted up.resolver ⟨url, headers⟩ → P ⟨url, headers⟩) (url : Text) :
    Act.Emits (fun log ↦ log) P (httpxStream up url headers) :=
  (Act.keeps_ofExcept _ _).emits.bind fun url ↦ emits_sendHandlingRedirects h 21 url []

/-! ## The impersonating client -/

/-- The redirects that the impersonating client follows from `url`. -/
def curlHops (up : Upstream) (headers : List (Text × Text)) :
    (redirects : Nat) → (url : Text) → RequestLog → List Text
  | 0, _, _ => []
  | n + 1, url, log => match curlTarget up headers url log with
    | none => []
    | some next => next :: curlHops up headers n next (log ++ [⟨url, headers⟩])

/-- The impersonating client requests the URL it was given and then its redirects, unchecked. -/
theorem curlGet_requests (up : Upstream) (headers : List (Text × Text)) (n : Nat) (url : Text)
    (log : RequestLog) :
    (curlGet up headers n url log).2 =
      log ++ ⟨url, headers⟩ :: (curlHops up headers n url log).map fun u ↦ ⟨u, headers⟩ := by
  induction n generalizing url log with
  | zero =>
      rw [curlGet, curlHops]
      rcases curlHop_cases up headers url log with ⟨failure, h, -⟩ | ⟨a, h, -⟩
      · rw [Act.bind_of_error h]
        rfl
      · rw [Act.bind_of_ok h]
        cases curlTarget up headers url log <;> rfl
  | succ n ih =>
      rw [curlGet, curlHops]
      rcases curlHop_cases up headers url log with ⟨failure, h, hnone⟩ | ⟨a, h, -⟩
      · rw [Act.bind_of_error h, hnone]
        rfl
      · rw [Act.bind_of_ok h]
        cases curlTarget up headers url log with
        | none => rfl
        | some next =>
            show (curlGet up headers n next (log ++ [⟨url, headers⟩])).2 = _
            rw [ih, List.append_assoc]
            rfl

/-- The redirects that the impersonating client follows for the feed, after the requests in
the log. -/
def impersonatedHops (up : Upstream) (cfg : Settings) (feed : Feed) (log : RequestLog) :
    List Text :=
  if up.curlInstalled then curlHops up (requestHeaders cfg feed) 10 feed.effectiveUrl log else []

/-- Once the first check has let the address pass, nothing is checked any more. -/
theorem impersonated_requests {underTimeout : Bool} {s t : FetchState}
    {r : Except Exc FallbackResponse} (hv : Ssrf.accepts up.resolver s.feed.effectiveUrl = true)
    (h : impersonated up cfg underTimeout s = (r, t)) :
    t.requests = s.requests ++ ((if up.curlInstalled then [s.feed.effectiveUrl] else []) ++
      impersonatedHops up cfg s.feed s.requests).map fun u ↦ ⟨u, requestHeaders cfg s.feed⟩ := by
  have ht : t.requests = (fetchViaImpersonation up cfg.fetchMaxBytes underTimeout
      s.feed.effectiveUrl (requestHeaders cfg s.feed) s.requests).2 := by
    cases h
    rfl
  have hok : Ssrf.validatePublicUrl up.resolver s.feed.effectiveUrl true = .ok () := by
    unfold Ssrf.accepts at hv
    cases hval : Ssrf.validatePublicUrl up.resolver s.feed.effectiveUrl true with
    | error exc =>
        rw [hval] at hv
        cases hv
    | ok _ => rfl
  rw [ht, fetchViaImpersonation, hok, Act.ofExcept_ok_bind_apply, impersonatedHops]
  cases up.curlInstalled with
  | false => exact (List.append_nil _).symm
  | true =>
      have hlog := curlGet_requests up (requestHeaders cfg s.feed) 10 s.feed.effectiveUrl
        s.requests
      show ((Act.mapError _ (curlGet up (requestHeaders cfg s.feed) 10 s.feed.effectiveUrl) >>= _)
        s.requests).2 = _
      rw [Act.bind_apply, Act.mapError]
      rcases hget : curlGet up (requestHeaders cfg s.feed) 10 s.feed.effectiveUrl s.requests with
        ⟨failure | ⟨a, final⟩, log⟩
      · rw [hget] at hlog
        exact hlog
      · rw [hget] at hlog
        exact hlog

variable {s t : FetchState} {host : Text}

/-- The redirects that the impersonating client follows after a direct answer: those after a 403. -/
def forbiddenHops (up : Upstream) (cfg : Settings) (feed : Feed) :
    Except Exc Response × FetchState → List Text
  | (.error _, _) => []
  | (.ok response, t) =>
    if response.statusCode = 403 then impersonatedHops up cfg feed t.requests else []

/-- The hops on which nobody checks: the redirects of the impersonating client, when the host is
cached and when the first answer is a 403. -/
def unguardedHops (up : Upstream) (cfg : Settings) (s : FetchState) : List Text :=
  match destination up s with
  | .error _ => []
  | .ok host =>
    if s.domainsNeedingFallback.contains host then impersonatedHops up cfg s.feed s.requests
    else forbiddenHops up cfg s.feed (streamed up cfg s)

theorem unguardedHops_of_refused {exc : Exc} (hd : destination up s = .error exc) :
    unguardedHops up cfg s = [] := by
  rw [unguardedHops, hd]

theorem unguardedHops_of_cached (hd : destination up s = .ok host)
    (hc : host ∈ s.domainsNeedingFallback) :
    unguardedHops up cfg s = impersonatedHops up cfg s.feed s.requests := by
  rw [unguardedHops, hd]
  exact if_pos (List.contains_iff_mem.mpr hc)

theorem unguardedHops_of_not_cached (hd : destination up s = .ok host)
    (hc : host ∉ s.domainsNeedingFallback) :
    unguardedHops up cfg s = forbiddenHops up cfg s.feed (streamed up cfg s) := by
  rw [unguardedHops, hd]
  exact if_neg (mt List.contains_iff_mem.mp hc)

/-! ## The exchange -/

/-- Every request sent between two states was to a URL that `validate_public_url` lets through. -/
def Guarded (resolver : Resolver) (before after : FetchState) : Prop :=
  ∃ sent, after.requests = before.requests ++ sent ∧ ∀ r ∈ sent, r.Accepted resolver

theorem guarded_iff {sent : RequestLog} (h : t.requests = s.requests ++ sent) :
    Guarded up.resolver s t ↔ ∀ r ∈ sent, r.Accepted up.resolver := by
  constructor
  · rintro ⟨sent', h', hacc⟩
    obtain rfl : sent = sent' := List.append_cancel_left (h.symm.trans h')
    exact hacc
  · exact fun hacc ↦ ⟨sent, h, hacc⟩

theorem destination_accepts (h : destination up s = .ok host) :
    Ssrf.accepts up.resolver s.feed.effectiveUrl = true := by
  rw [Ssrf.accepts, validated_of_destination h]
  rfl

theorem streamed_guarded {r : Except Exc Response} (h : streamed up cfg s = (r, t)) :
    Guarded up.resolver s t := by
  cases h
  exact emits_httpxStream (fun _ h ↦ h) s.feed.effectiveUrl s.requests

/-- A transfer of the impersonating client is guarded when its redirects are. -/
theorem impersonated_accepted_iff (hv : Ssrf.accepts up.resolver s.feed.effectiveUrl = true) :
    (∀ r ∈ (((if up.curlInstalled then [s.feed.effectiveUrl] else []) ++
        impersonatedHops up cfg s.feed s.requests).map fun u ↦
          (⟨u, requestHeaders cfg s.feed⟩ : Request)),
        r.Accepted up.resolver) ↔
      ∀ url ∈ impersonatedHops up cfg s.feed s.requests,
        Ssrf.accepts up.resolver url = true := by
  constructor
  · intro h url hurl
    exact h ⟨url, _⟩ (List.mem_map_of_mem (List.mem_append_right _ hurl))
  · intro h r hr
    obtain ⟨u, hu, rfl⟩ := List.mem_map.mp hr
    rcases List.mem_append.mp hu with hu | hu
    · split at hu
      · rw [List.mem_singleton.mp hu]
        exact hv
      · cases hu
    · exact h u hu

theorem retryForbidden_requests (s : FetchState) :
    (retryForbidden up cfg host s.feed.effectiveUrl (requestHeaders cfg s.feed) s).2.requests =
      (impersonated up cfg true s).2.requests := by
  rw [retryForbidden_eq]
  rcases impersonated up cfg true s with ⟨exc | r, t⟩ <;> rfl

theorem keeps_requests_readDirect (response : Response) :
    Act.Keeps FetchState.requests (readDirect cfg response) := by
  refine .bind (Act.keeps_ofExcept _ _) fun _ ↦ .bind ?_ fun _ ↦
    .bind (Act.keeps_ofExcept _ _) fun _ ↦ Act.keeps_pure _ _
  exact .ite (Act.keeps_modify fun _ ↦ rfl) (Act.keeps_pure _ _)

theorem dispatch_requests (up : Upstream) (cfg : Settings) (host : Text) (response : Response)
    (s : FetchState) :
    (dispatch up cfg host s.feed.effectiveUrl (requestHeaders cfg s.feed) response s).2.requests =
      if response.statusCode = 403 then (impersonated up cfg true s).2.requests
      else s.requests := by
  unfold dispatch
  by_cases h304 : response.statusCode = 304
  · rw [if_pos h304, if_neg (by omega)]
    rfl
  by_cases h429 : response.statusCode = 429
  · rw [if_neg h304, if_pos h429, if_neg (by omega)]
    rfl
  by_cases h403 : response.statusCode = 403
  · rw [if_neg h304, if_neg h429, if_pos h403, if_pos h403]
    exact retryForbidden_requests s
  · rw [if_neg h304, if_neg h429, if_neg h403, if_neg h403]
    exact keeps_requests_readDirect response s

/-- What is sent once a direct answer is there. -/
theorem answered_requests {host : Text} {response : Response} {s₁ : FetchState}
    {r : Except Exc Exchange} (hd : destination up s = .ok host)
    (hs : streamed up cfg s = (.ok response, s₁))
    (hr : dispatch up cfg host s.feed.effectiveUrl (requestHeaders cfg s.feed) response s₁ =
      (r, t)) :
    t.requests =
      if response.statusCode = 403 then
        s₁.requests ++ ((if up.curlInstalled then [s₁.feed.effectiveUrl] else []) ++
          impersonatedHops up cfg s₁.feed s₁.requests).map fun u ↦
            ⟨u, requestHeaders cfg s₁.feed⟩
      else s₁.requests := by
  have hfeed : s₁.feed = s.feed := by
    rw [streamed_frame hs]
    rfl
  have hv : Ssrf.accepts up.resolver s₁.feed.effectiveUrl = true := by
    rw [hfeed]
    exact destination_accepts hd
  have hreq := dispatch_requests up cfg host response s₁
  rw [hfeed, hr] at hreq
  rcases hi : impersonated up cfg true s₁ with ⟨r', t'⟩
  rw [hi, impersonated_requests hv hi] at hreq
  exact hreq

/-- Every request of the exchange carries the headers made from the row. -/
theorem contact_headers (up : Upstream) (cfg : Settings) (s : FetchState) :
    ∃ sent, (contact up cfg s).2.requests = s.requests ++ sent ∧
      ∀ r ∈ sent, r.headers = requestHeaders cfg s.feed := by
  have hrun := contact_run up cfg s
  generalize (contact up cfg s).1 = r at hrun
  generalize (contact up cfg s).2 = t at hrun ⊢
  have hmap : ∀ (urls : List Text) (r : Request),
      r ∈ urls.map (fun u ↦ (⟨u, requestHeaders cfg s.feed⟩ : Request)) →
        r.headers = requestHeaders cfg s.feed := by
    intro urls r hr
    obtain ⟨u, -, rfl⟩ := List.mem_map.mp hr
    rfl
  have hstream : ∀ {r : Except Exc Response} {t : FetchState}, streamed up cfg s = (r, t) →
      ∃ sent, t.requests = s.requests ++ sent ∧
        ∀ r ∈ sent, r.headers = requestHeaders cfg s.feed := by
    rintro r t ⟨⟩
    exact emits_httpxStream (P := fun r ↦ r.headers = requestHeaders cfg s.feed)
      (fun _ _ ↦ rfl) s.feed.effectiveUrl s.requests
  cases hrun with
  | refused hd => exact ⟨[], (List.append_nil _).symm, nofun⟩
  | cached hd hc hi => exact ⟨_, impersonated_requests (destination_accepts hd) hi, hmap _⟩
  | unanswered hd hc hs => exact hstream hs
  | @answered host response s₁ t r hd hc hs hr =>
      have hfeed : s₁.feed = s.feed := by
        rw [streamed_frame hs]
        rfl
      have hreq := answered_requests hd hs hr
      obtain ⟨sent, hsent, hheaders⟩ := hstream hs
      by_cases h403 : response.statusCode = 403
      · rw [if_pos h403, hsent, List.append_assoc, hfeed] at hreq
        refine ⟨_, hreq, fun r hr ↦ ?_⟩
        exact (List.mem_append.mp hr).elim (hheaders r) (hmap _ r)
      · rw [if_neg h403] at hreq
        exact ⟨sent, hreq.trans hsent, hheaders⟩

/-- The exchange is guarded exactly when its unguarded hops are accepted anyway. -/
theorem contact_guarded_iff {r : Except Exc Exchange} (h : contact up cfg s = (r, t)) :
    Guarded up.resolver s t ↔
      ∀ url ∈ unguardedHops up cfg s, Ssrf.accepts up.resolver url = true := by
  have hrun : ContactRun up cfg s r t := by
    have hrun := contact_run up cfg s
    rwa [h] at hrun
  clear h
  cases hrun with
  | refused hd =>
      rw [unguardedHops_of_refused hd, guarded_iff (List.append_nil _).symm]
      exact iff_of_true nofun nofun
  | cached hd hc hi =>
      rw [unguardedHops_of_cached hd hc,
        guarded_iff (impersonated_requests (destination_accepts hd) hi),
        impersonated_accepted_iff (destination_accepts hd)]
  | unanswered hd hc hs =>
      rw [unguardedHops_of_not_cached hd hc, hs]
      exact iff_of_true (streamed_guarded hs) nofun
  | @answered host response s₁ t r hd hc hs hr =>
      rw [unguardedHops_of_not_cached hd hc, hs, forbiddenHops]
      have hfeed : s₁.feed = s.feed := by
        rw [streamed_frame hs]
        rfl
      have hreq := answered_requests hd hs hr
      obtain ⟨sent, hsent, hacc⟩ := streamed_guarded hs
      by_cases h403 : response.statusCode = 403
      · have hv : Ssrf.accepts up.resolver s₁.feed.effectiveUrl = true := by
          rw [hfeed]
          exact destination_accepts hd
        rw [if_pos h403] at hreq ⊢
        rw [← hfeed, ← impersonated_accepted_iff hv]
        generalize List.map _ _ = sent' at hreq ⊢
        rw [hsent, List.append_assoc] at hreq
        rw [guarded_iff hreq]
        constructor
        · exact fun hall r hr ↦ hall r (List.mem_append_right _ hr)
        · exact fun hall r hr ↦ (List.mem_append.mp hr).elim (hacc r) (hall r)
      · rw [if_neg h403] at hreq ⊢
        rw [guarded_iff (hreq.trans hsent)]
        exact iff_of_true hacc nofun

/-! ## The call -/

/-- The requests of a call are those of its exchange. -/
theorem fetchOne_requests (cfg : Settings) {now : Datetime} {weekly : Nat} {s₁ : FetchState}
    (hp : prepare up now s = (.ok weekly, s₁)) :
    (fetchOne up cfg now s).2.requests = (contact up cfg s₁).2.requests := by
  rw [fetchOne_of_prepared hp,
    conclude_frame (p := FetchState.requests) (fun _ _ ↦ rfl) (fun _ _ ↦ rfl), attempt_eq]
  rcases hc : contact up cfg s₁ with ⟨exc | x, s'⟩
  · rw [Act.bind_of_error hc]
  · rw [Act.bind_of_ok hc]
    exact keeps_respond (p := FetchState.requests) (fun _ _ ↦ rfl) (fun _ _ ↦ rfl) (fun _ _ ↦ rfl)
      (fun _ _ ↦ rfl) x s'

/-- Every request of a call carries the headers made from the row. -/
theorem fetchOne_headers (up : Upstream) (cfg : Settings) (now : Datetime) (s : FetchState)
    (hs : s.requests = []) :
    ∀ r ∈ (fetchOne up cfg now s).2.requests, r.headers = requestHeaders cfg s.feed := by
  have hprepare := keeps_prepare (p := fun t ↦ (t.requests, requestHeaders cfg t.feed)) up now
    (fun _ ↦ rfl) (fun _ _ ↦ rfl) s
  rcases hp : prepare up now s with ⟨exc | weekly, s₁⟩
  · rw [hp] at hprepare
    have hnone : s₁.requests = [] := (congrArg Prod.fst hprepare).trans hs
    rw [fetchOne, Act.bind_of_error hp, hnone]
    exact List.forall_mem_nil _
  · rw [hp] at hprepare
    have hnone : s₁.requests = [] := (congrArg Prod.fst hprepare).trans hs
    have hheaders : requestHeaders cfg s₁.feed = requestHeaders cfg s.feed :=
      congrArg Prod.snd hprepare
    obtain ⟨sent, hsent, hall⟩ := contact_headers up cfg s₁
    rw [hnone, List.nil_append] at hsent
    rw [fetchOne_requests cfg hp, hsent, ← hheaders]
    exact hall

theorem unguardedHops_prepared (now : Datetime) (s : FetchState) (d : Session) :
    unguardedHops up cfg { s.prepared now with session := d } = unguardedHops up cfg s := by
  cases hd : destination up s with
  | error exc =>
      have hd' : destination up { s.prepared now with session := d } = .error exc := hd
      rw [unguardedHops_of_refused hd, unguardedHops_of_refused hd']
  | ok host =>
      have hd' : destination up { s.prepared now with session := d } = .ok host := hd
      by_cases hc : host ∈ s.domainsNeedingFallback
      · rw [unguardedHops_of_cached hd hc, unguardedHops_of_cached hd' hc]
        rfl
      · rw [unguardedHops_of_not_cached hd hc, unguardedHops_of_not_cached hd' hc]
        rcases hs : streamed up cfg s with ⟨r, t⟩
        have hs' : streamed up cfg { s.prepared now with session := d } =
            (r, { s.prepared now with session := d, requests := t.requests }) := by
          have hr : (streamed up cfg s).1 = r := congrArg Prod.fst hs
          have ht : (streamed up cfg s).2.requests = t.requests := by rw [hs]
          rw [← hr, ← ht]
          rfl
        rw [hs']
        rcases r with exc | response <;> rfl

/-- A call sends requests to accepted URLs only, exactly when the redirects that the impersonating
client follows for it, if it comes to that client at all, lead to accepted URLs. -/
theorem fetchOne_guarded_iff (up : Upstream) (cfg : Settings) (now : Datetime) (s : FetchState) :
    Guarded up.resolver s (fetchOne up cfg now s).2 ↔
      ((prepare up now s).1.isOk = true →
        ∀ url ∈ unguardedHops up cfg s, Ssrf.accepts up.resolver url = true) := by
  rcases hp : prepare up now s with ⟨exc | weekly, s₁⟩
  · have hf : fetchOne up cfg now s = (.error exc, s₁) := Act.bind_of_error hp
    have hreq : s₁.requests = s.requests :=
      (keeps_prepare (p := FetchState.requests) up now (fun _ ↦ rfl) fun _ _ ↦ rfl).eq_of_run hp
    rw [hf, guarded_iff (hreq.trans (List.append_nil _).symm)]
    exact iff_of_true nofun nofun
  · rcases hc : contact up cfg s₁ with ⟨r, s'⟩
    have hreq := fetchOne_requests cfg hp
    rw [hc] at hreq
    have hguard := contact_guarded_iff hc
    have hs₁ := (prepare_ok hp).2
    have hiff : Guarded up.resolver s (fetchOne up cfg now s).2 ↔ Guarded up.resolver s₁ s' := by
      unfold Guarded
      rw [hreq, hs₁]
      rfl
    rw [hiff, hguard, hs₁, unguardedHops_prepared]
    exact ⟨fun h _ ↦ h, fun h ↦ h rfl⟩

end

/-- An origin that redirects everybody to the metadata service. -/
def metadataRedirect : Upstream :=
  { Upstream.silent with
    curlTransport := fun _ _ ↦
      .ok ⟨302, [("Location".toList, "http://169.254.169.254/".toList)], [], none⟩
    curlRedirect := fun url _ ↦
      if url = "http://a.example/feed".toList then some "http://169.254.169.254/".toList
      else none }

/-- The impersonating client follows the redirect to an address that the guard rejects. -/
theorem metadataRedirect_unguarded :
    (fetchOne metadataRedirect {} .year2000 cachedFetch).2.requests.map Request.url =
      ["http://a.example/feed".toList, "http://169.254.169.254/".toList] ∧
    Ssrf.accepts metadataRedirect.resolver "http://169.254.169.254/".toList = false ∧
    ¬Guarded metadataRedirect.resolver cachedFetch
      (fetchOne metadataRedirect {} .year2000 cachedFetch).2 := by
  have hrejected : Ssrf.accepts metadataRedirect.resolver "http://169.254.169.254/".toList =
      false := by decide +kernel
  refine ⟨by decide +kernel, hrejected, ?_⟩
  rintro ⟨sent, hsent, hacc⟩
  have hmem : (⟨"http://169.254.169.254/".toList, requestHeaders {} cachedFetch.feed⟩ : Request) ∈
      (fetchOne metadataRedirect {} .year2000 cachedFetch).2.requests := by decide +kernel
  rw [hsent] at hmem
  have h := hacc _ hmem
  rw [Request.Accepted, hrejected] at h
  cases h

end FeedgateFetcher
