import FeedgateFetcher.Fetcher.Aftermath

/-!
# The impersonated path against the direct path

`httpx` answers are told apart by their status before a document is read from
them; answers of the impersonating client are read as documents whatever their
status.  Which lifecycle a call leaves therefore depends on the path on which
the answer came, except for successful answers and for a few lifecycles on
which two different marks happen to agree.
-/

namespace FeedgateFetcher

open Python Logic

/-! ## The answer of the impersonating client -/

/-- The answer that the impersonating client gets for the feed. -/
def transferred (up : Upstream) (cfg : Settings) (s : FetchState) : Option Answer :=
  if up.curlInstalled then
    (curlGet up (requestHeaders cfg s.feed) 10 s.feed.effectiveUrl s.requests).1.toOption.map
      Prod.fst
  else none

/-- The answer that the call obtains through `fetch_via_impersonation`: the host is cached, or
the direct answer was a 403. -/
def impersonatedAnswer (up : Upstream) (cfg : Settings) (s : FetchState) : Option Answer :=
  match destination up s with
  | .error _ => none
  | .ok host =>
    if s.domainsNeedingFallback.contains host then transferred up cfg s
    else match streamed up cfg s with
      | (.error _, _) => none
      | (.ok response, t) => if response.statusCode = 403 then transferred up cfg t else none

/-- What the impersonated path makes of an answer. -/
def impersonatedExchange (cfg : Settings) (a : Answer) : Except Exc Exchange :=
  if cfg.fetchMaxBytes < a.chunks.flatten.length then .error .responseTooLarge
  else .ok (.document a.headers a.chunks.flatten)

/-- What the direct path makes of an answer. -/
def directExchange (cfg : Settings) (a : Answer) : Except Exc Exchange :=
  if a.statusCode = 304 then .ok (.notModified a.headers)
  else if a.statusCode = 429 then .ok (.rateLimited a.headers)
  else if 200 ≤ a.statusCode ∧ a.statusCode < 300 then impersonatedExchange cfg a
  else .error (.httpStatus a.statusCode)

section

variable {up : Upstream} {cfg : Settings} {s t : FetchState} {a : Answer}

/-- The impersonating client returns complete answers only. -/
theorem curlGet_complete {headers : List (Text × Text)} {n : Nat} {url final : Text}
    {log log' : RequestLog} (h : curlGet up headers n url log = (.ok (a, final), log')) :
    a.brokenOff = none := by
  induction n generalizing url log with
  | zero =>
      rw [curlGet] at h
      rcases curlHop_cases up headers url log with ⟨failure, hh, -⟩ | ⟨b, hh, hb⟩
      · rw [Act.bind_of_error hh] at h
        cases h
      · rw [Act.bind_of_ok hh] at h
        cases ht : curlTarget up headers url log with
        | none =>
            rw [ht] at h
            cases h
            exact hb
        | some next =>
            rw [ht] at h
            cases h
  | succ n ih =>
      rw [curlGet] at h
      rcases curlHop_cases up headers url log with ⟨failure, hh, -⟩ | ⟨b, hh, hb⟩
      · rw [Act.bind_of_error hh] at h
        cases h
      · rw [Act.bind_of_ok hh] at h
        cases ht : curlTarget up headers url log with
        | none =>
            rw [ht] at h
            cases h
            exact hb
        | some next =>
            rw [ht] at h
            exact ih h

/-- Whatever its status, the answer becomes a document. -/
theorem impersonated_of_transferred {host : Text} (hd : destination up s = .ok host)
    (h : transferred up cfg s = some a) (underTimeout : Bool) :
    a.brokenOff = none ∧ ∃ r, (impersonated up cfg underTimeout s).1 = r ∧
      r.map FallbackResponse.document = impersonatedExchange cfg a := by
  unfold transferred at h
  split at h
  · rename_i hcurl
    rcases hget : curlGet up (requestHeaders cfg s.feed) 10 s.feed.effectiveUrl s.requests with
      ⟨failure | ⟨b, final⟩, log⟩
    · rw [hget] at h
      cases h
    · rw [hget] at h
      obtain rfl : b = a := Option.some.inj h
      refine ⟨curlGet_complete hget, _, rfl, ?_⟩
      have hrun : (impersonated up cfg underTimeout s).1 =
          (if cfg.fetchMaxBytes < b.chunks.flatten.length then .error .responseTooLarge
            else .ok ⟨b.statusCode, b.headers, b.chunks.flatten, final⟩) := by
        have hmap : Act.mapError (wrapCurlFailure underTimeout)
            (curlGet up (requestHeaders cfg s.feed) 10 s.feed.effectiveUrl) s.requests =
              (.ok (b, final), log) := by
          rw [Act.mapError, hget]
          rfl
        show (fetchViaImpersonation up cfg.fetchMaxBytes underTimeout s.feed.effectiveUrl
          (requestHeaders cfg s.feed) s.requests).1 = _
        rw [fetchViaImpersonation, validated_of_destination hd, Act.ofExcept_ok_bind_apply, hcurl]
        exact congrArg Prod.fst (Act.bind_of_ok hmap)
      rw [hrun, impersonatedExchange]
      split <;> rfl
  · cases h

/-- The exchange of a call that obtains its answer from the impersonating client. -/
theorem contact_of_impersonated (h : impersonatedAnswer up cfg s = some a) :
    a.brokenOff = none ∧ (∃ host, destination up s = .ok host) ∧
      (contact up cfg s).1 = impersonatedExchange cfg a := by
  unfold impersonatedAnswer at h
  cases hd : destination up s with
  | error exc =>
      rw [hd] at h
      cases h
  | ok host =>
      rw [hd] at h
      rw [contact_of_destination hd]
      by_cases hc : s.domainsNeedingFallback.contains host = true
      · replace h : transferred up cfg s = some a := (if_pos hc).symm.trans h
        obtain ⟨hb, r, hr, hmap⟩ := impersonated_of_transferred hd h false
        rw [if_pos hc, hr]
        exact ⟨hb, ⟨host, rfl⟩, hmap⟩
      · replace h := (if_neg hc).symm.trans h
        rw [if_neg hc]
        rcases hs : streamed up cfg s with ⟨exc | response, t⟩
        · rw [hs] at h
          cases h
        rw [hs] at h
        by_cases h403 : response.statusCode = 403
        · replace h : transferred up cfg t = some a := (if_pos h403).symm.trans h
          have ht := streamed_frame hs
          have hdt : destination up t = .ok host := by
            rw [ht]
            exact hd
          have hfeed : s.feed = t.feed := by
            rw [ht]
            rfl
          obtain ⟨hb, r, hr, hmap⟩ := impersonated_of_transferred hdt h true
          refine ⟨hb, ⟨host, rfl⟩, ?_⟩
          dsimp only
          rw [dispatch, if_neg (by omega), if_neg (by omega), if_pos h403, hfeed,
            retryForbidden_eq]
          rcases himp : impersonated up cfg true t with ⟨exc | r', t'⟩
          · -- the only exception after a transfer is the one about the size
            rw [himp] at hr
            cases hr
            unfold impersonatedExchange at hmap ⊢
            split at hmap
            · rename_i hlarge
              cases hmap
              rw [if_pos hlarge]
              rfl
            · cases hmap
          · rw [himp] at hr
            cases hr
            exact hmap
        · cases (if_neg h403).symm.trans h

/-! ## The same answer on the direct path -/

/-- The surroundings in which `httpx` receives this answer, and no other client replaces it when it
is a 403. -/
def Upstream.direct (a : Answer) (up : Upstream) : Upstream :=
  { up with
    httpxUrl := .ok
    httpxTransport := fun _ _ ↦ .ok a
    curlInstalled := false }

/-- The call in a process that has cached no host. -/
def FetchState.uncached (s : FetchState) : FetchState := { s with domainsNeedingFallback := [] }

theorem streamed_direct (cfg : Settings) {host : Text} (hd : destination up s = .ok host)
    (hfinal : a.hasRedirectLocation = false) :
    ∃ t, streamed (up.direct a) cfg s.uncached =
      (.ok ⟨a.statusCode, a.headers, a.chunks, a.brokenOff, s.feed.effectiveUrl, []⟩, t) := by
  have hrun : ∃ log, httpxStream (up.direct a) s.feed.effectiveUrl (requestHeaders cfg s.feed)
      s.requests =
        (.ok ⟨a.statusCode, a.headers, a.chunks, a.brokenOff, s.feed.effectiveUrl, []⟩, log) := by
    have hg : guardedRequest (up.direct a) ⟨s.feed.effectiveUrl, requestHeaders cfg s.feed⟩
        s.requests = (.ok a, s.requests ++ [⟨s.feed.effectiveUrl, requestHeaders cfg s.feed⟩]) := by
      have hv : Ssrf.validatePublicUrl (up.direct a).resolver s.feed.effectiveUrl true = .ok () :=
        validated_of_destination hd
      rw [guardedRequest, hv]
      rfl
    rw [httpxStream]
    show ∃ log, sendHandlingRedirects (up.direct a) (requestHeaders cfg s.feed) 21
      s.feed.effectiveUrl [] s.requests = _
    rw [sendHandlingRedirects, Act.bind_of_ok hg, hfinal]
    exact ⟨_, rfl⟩
  obtain ⟨log, hrun⟩ := hrun
  exact ⟨_, onRequests_of_run hrun⟩

/-- Without the client a 403 stands. -/
theorem retryForbidden_of_uninstalled {host host' : Text} (hd : destination up s = .ok host)
    (h : up.curlInstalled = false) :
    retryForbidden up cfg host' s.feed.effectiveUrl (requestHeaders cfg s.feed) s =
      (.error (.httpStatus 403), s) := by
  have hi : impersonated up cfg true s = (.error (.fallback .unclassified), s) := by
    refine onRequests_of_run ?_
    rw [fetchViaImpersonation, validated_of_destination hd, Act.ofExcept_ok_bind_apply, h]
    rfl
  rw [retryForbidden_eq, hi]
  rfl

/-- A complete body is read unless it is too large. -/
theorem readBody_complete {maxBytes size : Nat} (hs : size ≤ maxBytes) (chunks : List Bytes) :
    readBody maxBytes none size chunks =
      if maxBytes < size + chunks.flatten.length then .error .responseTooLarge
      else .ok chunks.flatten := by
  induction chunks generalizing size with
  | nil =>
      rw [readBody, if_neg (by simpa using hs)]
      rfl
  | cons chunk chunks ih =>
      have hlen : size + (chunk :: chunks).flatten.length =
          size + chunk.length + chunks.flatten.length := by
        rw [List.flatten_cons, List.length_append]
        omega
      rw [readBody, hlen]
      by_cases hlt : maxBytes < size + chunk.length
      · rw [if_pos hlt, if_pos (by omega)]
      · rw [if_neg hlt, ih (by omega)]
        split <;> rfl

theorem contact_direct {host : Text} (hd : destination up s = .ok host) (hb : a.brokenOff = none)
    (hfinal : a.hasRedirectLocation = false) :
    (contact (up.direct a) cfg s.uncached).1 = directExchange cfg a := by
  have hd' : destination (up.direct a) s.uncached = .ok host := hd
  obtain ⟨t, hs⟩ := streamed_direct cfg hd hfinal
  rw [contact_of_destination hd', if_neg (by exact nofun), hs]
  dsimp only
  rw [dispatch, directExchange]
  dsimp only
  by_cases h304 : a.statusCode = 304
  · rw [if_pos h304, if_pos h304]
    rfl
  by_cases h429 : a.statusCode = 429
  · rw [if_neg h304, if_neg h304, if_pos h429, if_pos h429]
    rfl
  rw [if_neg h304, if_neg h304, if_neg h429, if_neg h429]
  by_cases h2 : 200 ≤ a.statusCode ∧ a.statusCode < 300
  · rw [if_neg (by omega), if_pos h2, readDirect, raiseForStatus, if_pos h2,
      Act.ofExcept_ok_bind_apply, Act.bind_of_ok (followPermanentMove_eq _ t), hb,
      readBody_complete (Nat.zero_le _), Nat.zero_add, impersonatedExchange]
    split <;> rfl
  · rw [if_neg h2]
    by_cases h403 : a.statusCode = 403
    · have ht := streamed_frame hs
      have hdt : destination (up.direct a) t = .ok host := by
        rw [ht]
        exact hd'
      have hfeed : s.uncached.feed = t.feed := by
        rw [ht]
        rfl
      rw [if_pos h403, hfeed, retryForbidden_of_uninstalled hdt rfl, h403]
    · rw [if_neg h403, readDirect, raiseForStatus, if_neg h2]
      rfl

end

/-! ## Lifecycles on which two marks agree -/

/-- A failure at the instant of the last success leaves the lifecycle as if that success had been
recorded afresh. -/
def Lifecycle.Pristine (cfg : Settings) (l : Lifecycle) : Prop :=
  l.consecutiveFailures = 0 ∧ (l.status = .active ∨
    cfg.brokenThreshold ≤ 1 ∧ (l.status = .broken ∨ l.status = .dead ∧ cfg.effectiveDays ≤ 0))

section

variable {cfg : Settings} {now : Datetime} {T D : Int} {l : Lifecycle} {code : ErrorCode}

/-- The first failure at the instant of the last success. -/
theorem failed_at_success (cfg : Settings) (now created : Datetime) (status : FeedStatus)
    (error : Option ErrorCode) :
    (⟨status, 0, error, some now, created⟩ : Lifecycle).failed cfg now .other =
      ⟨if status = .dead then .dead
        else if status = .broken ∨ cfg.brokenThreshold ≤ 1 then
          if cfg.effectiveDays ≤ 0 then .dead else .broken
        else .active, 1, some .other, some now, created⟩ := by
  have hdays : cfg.effectiveDays * microsPerDay ≤ 0 ↔ cfg.effectiveDays ≤ 0 := by
    unfold microsPerDay
    omega
  by_cases hT : cfg.brokenThreshold ≤ 1 <;> by_cases hD : cfg.effectiveDays ≤ 0 <;>
    cases status <;>
    simp [Lifecycle.failed, Mark.apply, Mark.record, Mark.transitions, Lifecycle.Breaks,
      Lifecycle.Expires, Lifecycle.elapsed, Lifecycle.reference, Lifecycle.count, hdays, hT, hD]

theorem failed_success_eq_iff :
    ((Mark.success now).apply T D l).failed cfg now .other = l.failed cfg now .other ↔
      l.lastSuccessfulFetchAt = some now ∧ l.Pristine cfg := by
  obtain ⟨status, failures, error, success, created⟩ := l
  rw [Mark.apply_success]
  constructor
  · intro h
    have hsuccess : some now = success := congrArg Lifecycle.lastSuccessfulFetchAt h
    have hfailures : (0 : Int) + 1 = failures + 1 := congrArg Lifecycle.consecutiveFailures h
    obtain rfl : failures = 0 := by omega
    subst hsuccess
    rw [failed_at_success, failed_at_success] at h
    refine ⟨rfl, rfl, ?_⟩
    have hstatus := congrArg Lifecycle.status h
    dsimp only at hstatus
    cases status with
    | active => exact .inl rfl
    | broken =>
        by_cases hT : cfg.brokenThreshold ≤ 1
        · exact .inr ⟨hT, .inl rfl⟩
        · simp [hT] at hstatus
          split at hstatus <;> cases hstatus
    | dead =>
        by_cases hT : cfg.brokenThreshold ≤ 1
        · by_cases hD : cfg.effectiveDays ≤ 0
          · exact .inr ⟨hT, .inr ⟨rfl, hD⟩⟩
          · simp [hT, hD] at hstatus
        · simp [hT] at hstatus
  · rintro ⟨rfl, rfl, rfl | ⟨hT, rfl | ⟨rfl, hD⟩⟩⟩
    · rw [failed_at_success, failed_at_success]
    · rw [failed_at_success, failed_at_success]
      simp [hT]
    · rw [failed_at_success, failed_at_success]
      simp [hT, hD]

theorem success_eq_notModified_iff :
    (Mark.success now).apply T D l = (Mark.notModified now).apply T D l ↔
      l.status = .broken ∨
        l.status = .active ∧ l.consecutiveFailures = 0 ∧ l.lastErrorCode = none := by
  by_cases hb : l.status = .broken
  · rw [Mark.apply_success, Mark.apply_notModified_of_broken now hb]
    exact iff_of_true rfl (.inl hb)
  · rw [Mark.apply_success, Mark.apply_notModified_of_ne now hb, or_iff_right hb]
    constructor
    · intro h
      exact ⟨(congrArg Lifecycle.status h).symm, (congrArg Lifecycle.consecutiveFailures h).symm,
        (congrArg Lifecycle.lastErrorCode h).symm⟩
    · rintro ⟨hs, hf, he⟩
      rw [← hs, ← hf, ← he]

theorem failed_success_eq_failed_notModified_iff :
    ((Mark.success now).apply T D l).failed cfg now .other =
        ((Mark.notModified now).apply T D l).failed cfg now .other ↔
      l.status = .broken ∨ l.Pristine cfg := by
  by_cases hb : l.status = .broken
  · rw [Mark.apply_success, Mark.apply_notModified_of_broken now hb]
    exact iff_of_true rfl (.inl hb)
  · have hsucc : (Mark.success now).apply T D l =
        (Mark.success now).apply T D { l with lastSuccessfulFetchAt := some now } := by
      rw [Mark.apply_success, Mark.apply_success]
    rw [Mark.apply_notModified_of_ne now hb, hsucc, failed_success_eq_iff, or_iff_right hb]
    exact and_iff_right rfl

theorem failed_eq_failed_notModified_iff :
    l.failed cfg now .other = ((Mark.notModified now).apply T D l).failed cfg now .other ↔
      l.lastSuccessfulFetchAt = some now ∧ (l.status = .broken → l.Pristine cfg) := by
  by_cases hb : l.status = .broken
  · have hn : (Mark.notModified now).apply T D l = (Mark.success now).apply T D l := by
      rw [Mark.apply_success, Mark.apply_notModified_of_broken now hb]
    rw [hn, eq_comm, failed_success_eq_iff, forall_prop_of_true hb]
  · rw [Mark.apply_notModified_of_ne now hb]
    constructor
    · intro h
      exact ⟨congrArg Lifecycle.lastSuccessfulFetchAt h, fun h' ↦ absurd h' hb⟩
    · rintro ⟨h, -⟩
      rw [← h]

/-- A counted failure is no 304. -/
theorem failed_ne_notModified :
    l.failed cfg now code ≠ (Mark.notModified now).apply T D l := by
  intro h
  by_cases hb : l.status = .broken
  · rw [Mark.apply_notModified_of_broken now hb] at h
    cases congrArg Lifecycle.lastErrorCode h
  · rw [Mark.apply_notModified_of_ne now hb] at h
    have hf : l.consecutiveFailures + 1 = l.consecutiveFailures :=
      congrArg Lifecycle.consecutiveFailures h
    omega

theorem failed_code {l' : Lifecycle} {code' : ErrorCode}
    (h : l.failed cfg now code = l'.failed cfg now code') : code = code' :=
  Option.some.inj (congrArg Lifecycle.lastErrorCode h)

end

/-! ## When the paths agree -/

/-- The failure to which the impersonated path leads, when it stores nothing. -/
def answerRefusal (up : Upstream) (cfg : Settings) (s : FetchState) (a : Answer) :
    Option ErrorCode :=
  if cfg.fetchMaxBytes < a.chunks.flatten.length then some .tooLarge
  else documentRefusal up cfg s a.headers a.chunks.flatten

/-- The agreement about a 304, which the direct path takes for a sign of life.  The document path
either stores its body or counts a failure; so do both paths when the cache headers overflow. -/
def UnmodifiedAgrees (up : Upstream) (cfg : Settings) (now : Datetime) (weekly : Nat)
    (s : FetchState) (a : Answer) : Prop :=
  let l := s.feed.lifecycle
  match answerRefusal up cfg s a, parseCacheHint a.headers now with
  | none, .ok hint => SchedulesUnmodified up cfg now weekly s.feed hint ∧ (l.status = .broken ∨
      l.status = .active ∧ l.consecutiveFailures = 0 ∧ l.lastErrorCode = none)
  | none, .error _ => l.status = .broken ∨ l.Pristine cfg
  | some code, .ok hint => ¬SchedulesUnmodified up cfg now weekly s.feed hint ∧ code = .other ∧
      l.lastSuccessfulFetchAt = some now ∧ (l.status = .broken → l.Pristine cfg)
  | some code, .error _ => code = .other ∧
      l.lastSuccessfulFetchAt = some now ∧ (l.status = .broken → l.Pristine cfg)

/-- The agreement about a 429: only when the direct path cannot grant the wait and counts a
failure itself. -/
def RateLimitAgrees (up : Upstream) (cfg : Settings) (now : Datetime) (s : FetchState)
    (a : Answer) : Prop :=
  ¬WaitGranted cfg now a.headers ∧
    match answerRefusal up cfg s a, parseCacheHint a.headers now with
    | none, .ok _ => False
    | none, .error _ => s.feed.lifecycle.lastSuccessfulFetchAt = some now ∧
        s.feed.lifecycle.Pristine cfg
    | some code, _ => code = .other

/-- The paths agree about an answer. -/
def PathsAgree (up : Upstream) (cfg : Settings) (now : Datetime) (weekly : Nat) (s : FetchState)
    (a : Answer) : Prop :=
  200 ≤ a.statusCode ∧ a.statusCode < 300 ∨
  a.statusCode = 304 ∧ UnmodifiedAgrees up cfg now weekly s a ∨
  a.statusCode = 429 ∧ RateLimitAgrees up cfg now s a

section

variable {up : Upstream} {cfg : Settings} {now : Datetime} {weekly : Nat} {s : FetchState}
  {a : Answer}

theorem answerRefusal_mem {code : ErrorCode} (h : answerRefusal up cfg s a = some code) :
    code ∈ [ErrorCode.tooLarge, .notAFeed, .other] := by
  unfold answerRefusal documentRefusal at h
  split at h
  · cases h
    decide
  split at h
  · cases h
    decide
  split at h
  · cases h
    decide
  · split at h
    · cases h
    · cases h
      decide

theorem exchangeLifecycle_impersonated :
    exchangeLifecycle up cfg now weekly s (impersonatedExchange cfg a) =
      match answerRefusal up cfg s a with
      | some code => s.feed.lifecycle.failed cfg now code
      | none =>
        let after := (Mark.success now).apply cfg.brokenThreshold cfg.deadDurationDays
          s.feed.lifecycle
        match parseCacheHint a.headers now with
        | .error _ => after.failed cfg now .other
        | .ok _ => after := by
  unfold impersonatedExchange answerRefusal
  split <;> rfl

theorem unmodifiedAgrees_iff :
    exchangeLifecycle up cfg now weekly s (impersonatedExchange cfg a) =
        lifecycleAfter up cfg now weekly s (.notModified a.headers) ↔
      UnmodifiedAgrees up cfg now weekly s a := by
  rw [exchangeLifecycle_impersonated, lifecycleAfter, UnmodifiedAgrees]
  cases answerRefusal up cfg s a with
  | none =>
      cases parseCacheHint a.headers now with
      | error e => exact failed_success_eq_failed_notModified_iff
      | ok hint =>
          dsimp only
          by_cases hs : SchedulesUnmodified up cfg now weekly s.feed hint
          · rw [if_pos hs, and_iff_right hs]
            exact success_eq_notModified_iff
          · rw [if_neg hs, Mark.apply_success]
            refine iff_of_false (fun h ↦ ?_) fun h ↦ hs h.1
            cases congrArg Lifecycle.lastErrorCode h
  | some code =>
      have hfailed : s.feed.lifecycle.failed cfg now code = ((Mark.notModified now).apply
          cfg.brokenThreshold cfg.deadDurationDays s.feed.lifecycle).failed cfg now .other ↔
            code = .other ∧ s.feed.lifecycle.lastSuccessfulFetchAt = some now ∧
              (s.feed.lifecycle.status = .broken → s.feed.lifecycle.Pristine cfg) := by
        constructor
        · intro h
          obtain rfl := failed_code h
          exact ⟨rfl, failed_eq_failed_notModified_iff.mp h⟩
        · rintro ⟨rfl, h⟩
          exact failed_eq_failed_notModified_iff.mpr h
      cases parseCacheHint a.headers now with
      | error e => exact hfailed
      | ok hint =>
          dsimp only
          by_cases hs : SchedulesUnmodified up cfg now weekly s.feed hint
          · rw [if_pos hs]
            exact iff_of_false failed_ne_notModified fun h ↦ h.1 hs
          · rw [if_neg hs, and_iff_right hs]
            exact hfailed

theorem rateLimitAgrees_iff :
    exchangeLifecycle up cfg now weekly s (impersonatedExchange cfg a) =
        lifecycleAfter up cfg now weekly s (.rateLimited a.headers) ↔
      RateLimitAgrees up cfg now s a := by
  rw [exchangeLifecycle_impersonated, RateLimitAgrees]
  by_cases hw : WaitGranted cfg now a.headers
  · rw [lifecycleAfter_of_granted hw]
    refine iff_of_false (fun h ↦ ?_) fun h ↦ h.1 hw
    cases ha : answerRefusal up cfg s a with
    | none =>
        rw [ha] at h
        cases hh : parseCacheHint a.headers now with
        | error e =>
            rw [hh] at h
            exact nomatch congrArg Lifecycle.lastErrorCode h
        | ok hint =>
            rw [hh, Mark.apply_success] at h
            exact nomatch congrArg Lifecycle.lastErrorCode h
    | some code =>
        rw [ha] at h
        have hf : s.feed.lifecycle.consecutiveFailures + 1 =
            s.feed.lifecycle.consecutiveFailures := congrArg Lifecycle.consecutiveFailures h
        omega
  · rw [lifecycleAfter_of_not_granted hw, and_iff_right hw]
    cases answerRefusal up cfg s a with
    | none =>
        cases parseCacheHint a.headers now with
        | error e => exact failed_success_eq_iff
        | ok hint =>
            rw [Mark.apply_success]
            exact iff_of_false (fun h ↦ nomatch congrArg Lifecycle.lastErrorCode h) id
    | some code =>
        constructor
        · exact failed_code
        · rintro rfl
          rfl

/-- An answer that the direct path raises is never taken for the same on the other. -/
theorem exchangeLifecycle_ne_status (n : Nat) :
    exchangeLifecycle up cfg now weekly s (impersonatedExchange cfg a) ≠
      exchangeLifecycle up cfg now weekly s (.error (.httpStatus n)) := by
  have hcode := classifyError_httpStatus n
  rw [exchangeLifecycle_impersonated, exchangeLifecycle]
  intro h
  cases ha : answerRefusal up cfg s a with
  | none =>
      rw [ha] at h
      cases hh : parseCacheHint a.headers now with
      | error e =>
          rw [hh] at h
          rw [← failed_code h] at hcode
          exact absurd hcode (by decide)
      | ok hint =>
          rw [hh, Mark.apply_success] at h
          exact nomatch congrArg Lifecycle.lastErrorCode h
  | some code =>
      rw [ha] at h
      have hmem := answerRefusal_mem ha
      rw [failed_code h] at hmem
      generalize classifyError (.httpStatus n) = code' at hcode hmem
      cases code' <;> simp at hcode hmem

theorem pathsAgree_iff :
    exchangeLifecycle up cfg now weekly s (impersonatedExchange cfg a) =
        exchangeLifecycle up cfg now weekly s (directExchange cfg a) ↔
      PathsAgree up cfg now weekly s a := by
  unfold directExchange PathsAgree
  by_cases h304 : a.statusCode = 304
  · rw [if_pos h304, or_iff_right (by omega), and_iff_right h304, or_iff_left (by omega)]
    exact unmodifiedAgrees_iff
  rw [if_neg h304]
  by_cases h429 : a.statusCode = 429
  · rw [if_pos h429, or_iff_right (by omega), or_iff_right (by omega), and_iff_right h429]
    exact rateLimitAgrees_iff
  rw [if_neg h429]
  by_cases h2 : 200 ≤ a.statusCode ∧ a.statusCode < 300
  · rw [if_pos h2]
    exact iff_of_true rfl (.inl h2)
  · rw [if_neg h2]
    refine iff_of_false (exchangeLifecycle_ne_status _) ?_
    rintro (h | h | h)
    · exact h2 h
    · exact h304 h.1
    · exact h429 h.1

/-! ## The call -/

theorem prepare_direct (now : Datetime) (s : FetchState) :
    prepare (up.direct a) now s.uncached =
      ((prepare up now s).1, (prepare up now s).2.uncached) := by
  rw [prepare_eq, prepare_eq]
  cases now.subDelta week <;> rfl

theorem impersonatedAnswer_prepared (now : Datetime) (s : FetchState) (d : Session) :
    impersonatedAnswer up cfg { s.prepared now with session := d } =
      impersonatedAnswer up cfg s := by
  have hd : destination up { s.prepared now with session := d } = destination up s := rfl
  have hs : streamed up cfg { s.prepared now with session := d } =
      ((streamed up cfg s).1, { s.prepared now with
        session := d
        requests := (streamed up cfg s).2.requests }) := rfl
  unfold impersonatedAnswer
  rw [hd, hs]
  cases destination up s with
  | error exc => rfl
  | ok host =>
      dsimp only
      rcases hrun : streamed up cfg s with ⟨exc | response, t⟩
      · rfl
      · have ht : transferred up cfg t = transferred up cfg { s.prepared now with
            session := d
            requests := t.requests } := by
          conv_lhs => rw [streamed_frame hrun]
          rfl
        dsimp only
        rw [ht]
        rfl

theorem exchangeLifecycle_direct (x : Except Exc Exchange) :
    exchangeLifecycle (up.direct a) cfg now weekly s.uncached x =
      exchangeLifecycle up cfg now weekly s x := by
  rcases x with exc | _ | _ | _ <;> rfl

/-- The lifecycle that a call leaves after an impersonated answer is the one it would leave if
`httpx` had received that answer, exactly when the paths agree about it. -/
theorem impersonation_agrees_iff {s₁ : FetchState} (hp : prepare up now s = (.ok weekly, s₁))
    (ha : impersonatedAnswer up cfg s = some a) (hfinal : a.hasRedirectLocation = false) :
    (fetchOne up cfg now s).2.feed.lifecycle =
        (fetchOne (up.direct a) cfg now s.uncached).2.feed.lifecycle ↔
      PathsAgree up cfg now weekly s a := by
  have hp' : prepare (up.direct a) now s.uncached = (.ok weekly, s₁.uncached) := by
    rw [prepare_direct, hp]
  have ha₁ : impersonatedAnswer up cfg s₁ = some a := by
    rw [(prepare_ok hp).2, impersonatedAnswer_prepared, ha]
  obtain ⟨hb, ⟨host, hd⟩, hc⟩ := contact_of_impersonated ha₁
  rw [fetchOne_lifecycle cfg hp, fetchOne_lifecycle cfg hp', exchangeLifecycle_direct, hc,
    contact_direct hd hb hfinal]
  exact pathsAgree_iff

end

/-- A feed document under this status. -/
def feedAnswer (statusCode : Nat) : Answer := ⟨statusCode, [], [feedDocument], none⟩

/-- The surroundings in which every request gets a feed document under this status. -/
def feedUpstream (statusCode : Nat) : Upstream :=
  .delivering statusCode [] { entries := [{ id := some ['g'] }] }

/-- A 410 with a feed document in its body is a success on the impersonated path, and the end of
the feed on the direct one. -/
theorem goneFeed_differs :
    impersonatedAnswer (feedUpstream 410) {} cachedFetch = some (feedAnswer 410) ∧
    (feedAnswer 410).hasRedirectLocation = false ∧
    (fetchOne (feedUpstream 410) {} .year2000 cachedFetch).2.feed.lifecycle =
      ⟨.active, 0, none, some .year2000, .year2000⟩ ∧
    (fetchOne ((feedUpstream 410).direct (feedAnswer 410)) {} .year2000
      cachedFetch.uncached).2.feed.lifecycle =
        ⟨.dead, 1, some .http410, none, .year2000⟩ := by
  refine ⟨?_, ?_, ?_, ?_⟩ <;> decide +kernel

/-- A 200 is a success on both. -/
theorem freshFeed_agrees :
    (fetchOne (feedUpstream 200) {} .year2000 cachedFetch).2.feed.lifecycle =
      (fetchOne ((feedUpstream 200).direct (feedAnswer 200)) {} .year2000
        cachedFetch.uncached).2.feed.lifecycle := by
  have hprepare : (prepare (feedUpstream 200) .year2000 cachedFetch).1 = .ok 0 := by decide +kernel
  have ha : impersonatedAnswer (feedUpstream 200) {} cachedFetch = some (feedAnswer 200) := by
    decide +kernel
  exact (impersonation_agrees_iff (Prod.ext hprepare rfl) ha rfl).mpr (.inl (by decide))

end FeedgateFetcher
