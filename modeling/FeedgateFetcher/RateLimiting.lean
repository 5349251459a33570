import FeedgateFetcher.Fetcher.Aftermath
import FeedgateFetcher.Runs

/-!
# Rate limiting

A 429 is no failure as long as the wait it asks for can be written down.  The
branch runs inside the `try` block, so when the header overflows, or the wait
ends after the last representable instant, the `except` clause counts a failure
after all.
-/

namespace FeedgateFetcher

open Python Logic

/-! ## One answer -/

/-- What a 429 with these headers is to make of a row: the circuit breaker is left alone, and the
next fetch waits for `Retry-After` but at least for the base interval. -/
structure Spared (cfg : Settings) (now : Datetime) (headers : Headers) (f f' : Feed) : Prop where
  status : f'.status = f.status
  consecutiveFailures : f'.consecutiveFailures = f.consecutiveFailures
  lastSuccessfulFetchAt : f'.lastSuccessfulFetchAt = f.lastSuccessfulFetchAt
  lastErrorCode : f'.lastErrorCode = some .rateLimited
  floor : now.micros + cfg.fetchIntervalSeconds * microsPerSecond ≤ f'.nextFetchAt.micros
  wait : ∀ r, parseRetryAfter (headers.get "retry-after".toList) now = .ok (some r) →
    (∃ t, addWholeSeconds now r = .ok t) →
      f'.nextFetchAt.micros = now.micros + max r cfg.fetchIntervalSeconds * microsPerSecond

section

variable {up : Upstream} {cfg : Settings} {now : Datetime} {weekly : Nat} {s s₁ : FetchState}
  {response : Response}

theorem contact_of_rateLimited (h : directResponse up cfg s = some response)
    (h429 : response.statusCode = 429) :
    ∃ t, contact up cfg s = (.ok (.rateLimited response.headers), t) := by
  obtain ⟨host, t, -, -, hc⟩ := contact_of_direct h
  refine ⟨t, ?_⟩
  rw [hc, dispatch, if_neg (by omega), if_pos h429]
  rfl

/-- The row after a 429 whose wait is granted. -/
theorem fetchOne_rateLimited_nextFetchAt (hp : prepare up now s = (.ok weekly, s₁))
    (hr : directResponse up cfg s₁ = some response) (h429 : response.statusCode = 429)
    {wait : Option Int}
    (hwait : parseRetryAfter (response.headers.get "retry-after".toList) now = .ok wait)
    {next : Datetime}
    (hnext : addWholeSeconds now (max (wait.getD 0) cfg.fetchIntervalSeconds) = .ok next) :
    (fetchOne up cfg now s).2.feed.nextFetchAt = next := by
  obtain ⟨t, hc⟩ := contact_of_rateLimited hr h429
  rw [fetchOne_of_prepared hp, attempt_eq, Act.bind_of_ok hc]
  show (conclude up cfg now weekly
    (handleRateLimited cfg now response.headers t)).2.feed.nextFetchAt = next
  rw [handleRateLimited_of_ok hwait, hnext]
  rfl

/-- A 429 spares the feed exactly when its wait is granted. -/
theorem fetchOne_spared_iff (hp : prepare up now s = (.ok weekly, s₁))
    (hr : directResponse up cfg s = some response) (h429 : response.statusCode = 429) :
    Spared cfg now response.headers s.feed (fetchOne up cfg now s).2.feed ↔
      WaitGranted cfg now response.headers := by
  have hr₁ : directResponse up cfg s₁ = some response := by
    rw [(prepare_ok hp).2, directResponse_prepared, hr]
  obtain ⟨t, hc⟩ := contact_of_rateLimited hr₁ h429
  have hlife := fetchOne_lifecycle cfg hp
  rw [hc] at hlife
  change _ = lifecycleAfter up cfg now weekly s (.rateLimited response.headers) at hlife
  constructor
  · intro h
    by_contra hn
    rw [lifecycleAfter_of_not_granted hn] at hlife
    have hcode : (fetchOne up cfg now s).2.feed.lastErrorCode = some .other :=
      congrArg Lifecycle.lastErrorCode hlife
    cases hcode.symm.trans h.lastErrorCode
  · intro h
    rw [lifecycleAfter_of_granted h] at hlife
    unfold WaitGranted at h
    cases hwait : parseRetryAfter (response.headers.get "retry-after".toList) now with
    | error e =>
        rw [hwait] at h
        cases h
    | ok wait =>
        rw [hwait] at h
        cases hnext : addWholeSeconds now (max (wait.getD 0) cfg.fetchIntervalSeconds) with
        | error e =>
            change (addWholeSeconds now _).isOk = true at h
            rw [hnext] at h
            cases h
        | ok next =>
            have hnext' := fetchOne_rateLimited_nextFetchAt hp hr₁ h429 hwait hnext
            have hmicros := addWholeSeconds_eq_ok_iff.mp hnext
            refine ⟨congrArg Lifecycle.status hlife, congrArg Lifecycle.consecutiveFailures hlife,
              congrArg Lifecycle.lastSuccessfulFetchAt hlife,
              congrArg Lifecycle.lastErrorCode hlife, ?_, ?_⟩
            · rw [hnext', hmicros]
              unfold microsPerSecond
              omega
            · intro r hr _
              cases hwait.symm.trans hr
              rw [hnext', hmicros]
              rfl

end

/-! ## Runs of 429 answers -/

/-- The operation is a claim, or a `_process_feed` whose answer is a 429 with a wait that can be
granted. -/
def Operation.GrantsWait (cfg : Settings) (r : Tracked) : Operation → Prop
  | .claim _ _ => True
  | .process up now session domains =>
    ∃ response ∈ directResponse up cfg (r.loaded session domains),
      response.statusCode = 429 ∧ WaitGranted cfg now response.headers
  | .reactivate _ => False

/-- The circuit breaker sees no difference between the rows. -/
structure Unharmed (f f' : Feed) : Prop where
  status : f'.status = f.status
  consecutiveFailures : f'.consecutiveFailures = f.consecutiveFailures
  lastSuccessfulFetchAt : f'.lastSuccessfulFetchAt = f.lastSuccessfulFetchAt

namespace Unharmed

variable {f g h : Feed}

theorem refl (f : Feed) : Unharmed f f := ⟨rfl, rfl, rfl⟩

theorem trans (h₁ : Unharmed f g) (h₂ : Unharmed g h) : Unharmed f h :=
  ⟨h₂.status.trans h₁.status, h₂.consecutiveFailures.trans h₁.consecutiveFailures,
    h₂.lastSuccessfulFetchAt.trans h₁.lastSuccessfulFetchAt⟩

theorem of_lifecycle (h : g.lifecycle = f.lifecycle) : Unharmed f g :=
  ⟨congrArg Lifecycle.status h, congrArg Lifecycle.consecutiveFailures h,
    congrArg Lifecycle.lastSuccessfulFetchAt h⟩

end Unharmed

theorem Operation.GrantsWait.unharmed {cfg : Settings} {r : Tracked} {op : Operation}
    (h : op.GrantsWait cfg r) : Unharmed r.feed (op.apply cfg r).feed := by
  cases op with
  | claim now scan => exact .of_lifecycle (congrArg Prod.fst (claim_history now scan))
  | reactivate now => exact h.elim
  | process up now session domains =>
      obtain ⟨response, hr, h429, hw⟩ := h
      change Unharmed r.feed (processFeed up cfg now (r.loaded session domains)).feed
      cases hd : isDurable (processing up cfg now (r.loaded session domains)) with
      | false =>
          rw [processFeed_feed_of_not_durable hd]
          exact .refl _
      | true =>
          rw [processFeed_of_durable hd]
          have hrun := processing_run up cfg now (r.loaded session domains)
          generalize hp : processing up cfg now (r.loaded session domains) = run at hd hrun ⊢
          obtain ⟨result, t⟩ := run
          dsimp only at hrun ⊢
          cases hrun with
          | unloaded hl => cases hd
          | raised hl hf => cases hd
          | @finished s₁ s₂ t result hl hf hc =>
              rcases hprep : prepare up now s₁ with ⟨exc | weekly, s₃⟩
              · rw [fetchOne, Act.bind_of_error hprep] at hf
                cases hf
              have hr₁ : directResponse up cfg s₁ = some response := by
                rw [load_frame hl]
                exact hr
              have hspared := (fetchOne_spared_iff hprep hr₁ h429).mpr hw
              rw [hf, load_frame hl] at hspared
              rw [commit_frame hc]
              exact ⟨hspared.status, hspared.consecutiveFailures, hspared.lastSuccessfulFetchAt⟩

/-- A 429 spares the feed exactly when the wait it asks for is granted, and no run of such answers
harms the feed. -/
theorem rateLimiting_spares (cfg : Settings) :
    (∀ (up : Upstream) (now : Datetime) (weekly : Nat) (s s₁ : FetchState) (response : Response),
      prepare up now s = (.ok weekly, s₁) → directResponse up cfg s = some response →
      response.statusCode = 429 →
        (Spared cfg now response.headers s.feed (fetchOne up cfg now s).2.feed ↔
          WaitGranted cfg now response.headers)) ∧
    ∀ (s t : FeedRun) (ops : List Operation),
      Run (fun s op t ↦ op.GrantsWait cfg s.row ∧ FeedRun.Step cfg s op t) s ops t →
        Unharmed s.row.feed t.row.feed := by
  constructor
  · intro up now weekly s s₁ response hp hr h429
    exact fetchOne_spared_iff hp hr h429
  · intro s t ops hrun
    refine hrun.invariant (P := fun t ↦ Unharmed s.row.feed t.row.feed) ?_ (.refl _)
    rintro u op _ hu ⟨hgrant, rfl⟩
    exact hu.trans hgrant.unharmed

/-- A 429 with this `Retry-After`. -/
def retryAnswer (retryAfter : String) : Answer :=
  ⟨429, [("Retry-After".toList, retryAfter.toList)], [], none⟩

/-- A wait of a billion years turns the 429 into a counted failure. -/
theorem distantRetry_counted :
    directResponse (.answering (retryAnswer "31557600000000000")) {} .firstFetch =
      some ⟨429, (retryAnswer "31557600000000000").headers, [], none,
        "http://a.example/feed".toList, []⟩ ∧
    (fetchOne (.answering (retryAnswer "31557600000000000")) {} .year2000
      .firstFetch).2.feed.lifecycle = ⟨.active, 1, some .other, none, .year2000⟩ ∧
    ¬Spared {} .year2000 (retryAnswer "31557600000000000").headers FetchState.firstFetch.feed
      (fetchOne (.answering (retryAnswer "31557600000000000")) {} .year2000
        .firstFetch).2.feed := by
  have hlife : (fetchOne (.answering (retryAnswer "31557600000000000")) {} .year2000
      .firstFetch).2.feed.lifecycle = ⟨.active, 1, some .other, none, .year2000⟩ := by
    decide +kernel
  refine ⟨by decide +kernel, hlife, ?_⟩
  intro h
  have hfailures := (congrArg Lifecycle.consecutiveFailures hlife).symm.trans h.consecutiveFailures
  exact absurd hfailures (by decide)

/-- A wait of two minutes does not. -/
theorem shortRetry_spared :
    Spared {} .year2000 (retryAnswer "120").headers FetchState.firstFetch.feed
      (fetchOne (.answering (retryAnswer "120")) {} .year2000 .firstFetch).2.feed := by
  have hprepare : (prepare (.answering (retryAnswer "120")) .year2000 .firstFetch).1 = .ok 0 := by
    decide +kernel
  have hr : directResponse (.answering (retryAnswer "120")) {} .firstFetch =
      some ⟨429, (retryAnswer "120").headers, [], none, "http://a.example/feed".toList, []⟩ := by
    decide +kernel
  have hwait : parseRetryAfter ((retryAnswer "120").headers.get "retry-after".toList) .year2000 =
      .ok (some 120) := by decide +kernel
  refine ((rateLimiting_spares {}).1 _ _ 0 _ _ _ (Prod.ext hprepare rfl) hr rfl).mpr ?_
  unfold WaitGranted
  rw [hwait]
  decide +kernel

end FeedgateFetcher
