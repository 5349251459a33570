import FeedgateFetcher.Fetcher.Http
import FeedgateFetcher.Lifecycle

/-!
# The parts of a fetch

One specification for each part of `fetch_one`.  The exchange comes first:
whatever it does on the network, it changes nothing of the row but its address.
The branches follow, each as a case distinction on what its helpers return, and
then the call as a whole.
-/

namespace FeedgateFetcher

open Python Logic

/-! ## What the exchange leaves alone -/

/-- What `fetch_one` knows of the row and reports, apart from the address. -/
structure Account where
  feed : Feed
  transitions : List Transition
  session : Session
  observed : List FetchResult
  serverHint : Option Int

/-- The state without the network and the address of the feed. -/
def FetchState.account (s : FetchState) : Account where
  feed := { s.feed with effectiveUrl := [] }
  transitions := s.row.transitions
  session := s.session
  observed := s.observed
  serverHint := s.serverHint

section

variable {α : Type}

theorem keeps_account_onRequests (m : Act RequestLog Exc α) :
    Act.Keeps FetchState.account (onRequests m) := Act.keeps_zoom fun _ _ ↦ rfl

theorem keeps_account_ofPython (r : Except PyError α) :
    Act.Keeps FetchState.account (ofPython r) := Act.keeps_ofExcept _ _

end

theorem keeps_account_followPermanentMove (response : Response) :
    Act.Keeps FetchState.account (followPermanentMove response) := by
  refine .ite (Act.keeps_modify fun s ↦ ?_) (Act.keeps_pure _ _)
  simp only [FetchState.account, FetchState.updateFeed, FetchState.feed, Tracked.update]
  split <;> rfl

theorem keeps_account_readDirect (cfg : Settings) (response : Response) :
    Act.Keeps FetchState.account (readDirect cfg response) :=
  .bind (Act.keeps_ofExcept _ _) fun _ ↦ .bind (keeps_account_followPermanentMove _) fun _ ↦
    .bind (Act.keeps_ofExcept _ _) fun _ ↦ Act.keeps_pure _ _

theorem keeps_account_retryForbidden (up : Upstream) (cfg : Settings) (host url : Text)
    (headers : List (Text × Text)) :
    Act.Keeps FetchState.account (retryForbidden up cfg host url headers) := by
  refine .bind (.handle ?_ fun exc ↦ ?_) fun _ ↦ Act.keeps_pure _ _
  · exact .bind (keeps_account_onRequests _) fun _ ↦
      .bind (Act.keeps_modify fun _ ↦ rfl) fun _ ↦ Act.keeps_pure _ _
  · cases exc <;> exact Act.keeps_raise _ _

/-- The exchange keeps everything but the address, the log and the cached hosts. -/
theorem keeps_account_exchange (up : Upstream) (cfg : Settings) :
    Act.Keeps FetchState.account (exchange up cfg) := by
  refine .bind (Act.keeps_get _) fun s ↦ .bind (keeps_account_ofPython _) fun parts ↦ ?_
  refine .ite ?_ (.bind (keeps_account_onRequests _) fun response ↦ ?_)
  · exact .bind (keeps_account_onRequests _) fun _ ↦ Act.keeps_pure _ _
  · refine .ite (Act.keeps_pure _ _) (.ite (Act.keeps_pure _ _) (.ite ?_ ?_))
    · exact keeps_account_retryForbidden _ _ _ _ _
    · exact keeps_account_readDirect _ _

/-! ## The branches -/

/-- A mark on the loaded row. -/
def FetchState.mark (cfg : Settings) (m : Mark) (s : FetchState) : FetchState :=
  { s with row := s.row.mark cfg.brokenThreshold cfg.deadDurationDays m }

/-- Another value of the local `_server_hint`. -/
def FetchState.withHint (hint : Option Int) (s : FetchState) : FetchState :=
  { s with serverHint := hint }

@[simp] theorem FetchState.withHint_feed (hint : Option Int) (s : FetchState) :
    (s.withHint hint).feed = s.feed := rfl

@[simp] theorem FetchState.withHint_serverHint (hint : Option Int) (s : FetchState) :
    (s.withHint hint).serverHint = hint := rfl

theorem markNotModified_eq (brokenThreshold deadDurationDays : Int) (now : Datetime)
    (r : Tracked) :
    markNotModified now r = r.mark brokenThreshold deadDurationDays (.notModified now) := by
  by_cases hs : r.feed.status = .broken <;>
    simp [markNotModified, Tracked.mark, Tracked.moveTo, Tracked.update, Tracked.transitionFeed,
      Feed.withLifecycle, Feed.lifecycle, Mark.apply, Mark.record, Mark.transitions, hs]

section

variable {up : Upstream} {cfg : Settings} {now : Datetime} {weekly : Nat} {headers : Headers}
  {body : Bytes} {s t : FetchState}

theorem schedule_eq (up : Upstream) (cfg : Settings) (now : Datetime) (weekly : Nat)
    (s : FetchState) :
    schedule up cfg now weekly s =
      match computeNextFetchAt cfg s.feed now s.serverHint weekly up.draw with
      | .error e => (.error (.builtin e), s)
      | .ok next => (.ok ⟨⟩, s.updateFeed fun f ↦ { f with nextFetchAt := next }) := by
  unfold schedule ofPython
  rw [Act.get_bind_apply]
  cases computeNextFetchAt cfg s.feed now s.serverHint weekly up.draw <;> rfl

/-! ### The branch for 304 -/

theorem handleNotModified_of_hint_error {e : PyError} (h : parseCacheHint headers now = .error e) :
    handleNotModified up cfg now weekly headers s =
      (.error (.builtin e), s.mark cfg (.notModified now)) := by
  unfold handleNotModified ofPython
  rw [Act.modify_bind_apply, h, markNotModified_eq cfg.brokenThreshold cfg.deadDurationDays]
  rfl

theorem handleNotModified_of_hint {hint : Option Int} (h : parseCacheHint headers now = .ok hint) :
    handleNotModified up cfg now weekly headers s =
      match computeNextFetchAt cfg (s.mark cfg (.notModified now)).feed now hint weekly up.draw with
      | .error e => (.error (.builtin e), (s.mark cfg (.notModified now)).withHint hint)
      | .ok next =>
        (.ok .returned, (((s.mark cfg (.notModified now)).withHint hint).updateFeed fun f ↦
          { f with nextFetchAt := next }).observe .notModified) := by
  have hs := schedule_eq up cfg now weekly ((s.mark cfg (.notModified now)).withHint hint)
  unfold handleNotModified
  rw [Act.modify_bind_apply, h, markNotModified_eq cfg.brokenThreshold cfg.deadDurationDays,
    ofPython_ok_bind_apply, Act.modify_bind_apply]
  change (schedule up cfg now weekly >>= _) ((s.mark cfg (.notModified now)).withHint hint) = _
  rw [Act.bind_apply, hs, FetchState.withHint_feed, FetchState.withHint_serverHint]
  cases computeNextFetchAt cfg (s.mark cfg (.notModified now)).feed now hint weekly up.draw <;> rfl

/-! ### The branch for 429 -/

theorem handleRateLimited_of_error {e : PyError}
    (h : parseRetryAfter (headers.get "retry-after".toList) now = .error e) :
    handleRateLimited cfg now headers s = (.error (.builtin e), s) := by
  unfold handleRateLimited ofPython
  rw [h]
  rfl

theorem handleRateLimited_of_ok {retryAfter : Option Int}
    (h : parseRetryAfter (headers.get "retry-after".toList) now = .ok retryAfter) :
    handleRateLimited cfg now headers s =
      match addWholeSeconds now (max (retryAfter.getD 0) cfg.fetchIntervalSeconds) with
      | .error e => (.error (.builtin e), s.mark cfg .rateLimited)
      | .ok next =>
        (.ok .returned, ((s.mark cfg .rateLimited).updateFeed fun f ↦
          { f with nextFetchAt := next }).observe .rateLimited) := by
  have hm : s.mark cfg .rateLimited =
      s.updateFeed fun f ↦ { f with lastErrorCode := some .rateLimited } := by
    rw [FetchState.mark, Tracked.mark_rateLimited]
    rfl
  unfold handleRateLimited
  rw [h, ofPython_ok_bind_apply, Act.modify_bind_apply, hm]
  cases addWholeSeconds now (max (retryAfter.getD 0) cfg.fetchIntervalSeconds) <;> rfl

/-! ### The tail for a document -/

theorem Feed.retitle_eq (title : Option Text) (f : Feed) :
    f.retitle title = { f with title := if truthy title then title else f.title } := by
  unfold Feed.retitle
  split <;> rfl

/-- The row after the bookkeeping of a success. -/
def FetchState.succeed (cfg : Settings) (now : Datetime) (title : Option Text) (headers : Headers)
    (s : FetchState) : FetchState :=
  ((s.updateFeed (Feed.retitle title)).mark cfg (.success now)).updateFeed
    (rememberValidators headers)

theorem storeDocument_of_html (h : isNotAFeedContentType (headers.get "content-type".toList)) :
    storeDocument up cfg now headers body s = (.error .notAFeed, s) := by
  unfold storeDocument
  rw [if_pos h]
  rfl

theorem storeDocument_of_parse_error {exc : Exc}
    (h : isNotAFeedContentType (headers.get "content-type".toList) = false)
    (hp : parseFeed up.feedparser body = .error exc) :
    storeDocument up cfg now headers body s = (.error exc, s) := by
  unfold storeDocument
  rw [h, if_neg nofun, hp]
  rfl

theorem storeDocument_of_store_error {parsed : ParsedFeed} {exc : Exc}
    (h : isNotAFeedContentType (headers.get "content-type".toList) = false)
    (hp : parseFeed up.feedparser body = .ok parsed)
    (hs : storeEntries up cfg now parsed.entries s = (.error exc, t)) :
    storeDocument up cfg now headers body s = (.error exc, t) := by
  unfold storeDocument
  rw [h, if_neg nofun, hp, Act.ofExcept_ok_bind_apply]
  exact Act.bind_of_error hs

theorem storeDocument_of_stored {parsed : ParsedFeed}
    (h : isNotAFeedContentType (headers.get "content-type".toList) = false)
    (hp : parseFeed up.feedparser body = .ok parsed)
    (hs : storeEntries up cfg now parsed.entries s = (.ok ⟨⟩, t)) :
    storeDocument up cfg now headers body s =
      match parseCacheHint headers now with
      | .error e => (.error (.builtin e), t.succeed cfg now parsed.title headers)
      | .ok hint =>
        (.ok .completed, ((t.succeed cfg now parsed.title headers).withHint
          (combineTtl hint parsed.ttlSeconds)).observe .success) := by
  have hm : ∀ r : Tracked, markFetchSuccess now parsed.title r =
      (r.update (Feed.retitle parsed.title)).mark cfg.brokenThreshold cfg.deadDurationDays
        (.success now) := fun r ↦ markFetchSuccess_eq _ _ _ _ r
  unfold storeDocument
  rw [h, if_neg nofun, hp, Act.ofExcept_ok_bind_apply, Act.bind_of_ok hs]
  simp only [hm]
  rw [Act.modify_bind_apply, Act.modify_bind_apply]
  cases parseCacheHint headers now <;> rfl

end

/-! ## The call -/

/-- The branch that deals with what the exchange brought. -/
def respond (up : Upstream) (cfg : Settings) (now : Datetime) (weekly : Nat) :
    Exchange → Fetch Flow
  | .notModified headers => handleNotModified up cfg now weekly headers
  | .rateLimited headers => handleRateLimited cfg now headers
  | .document headers body => storeDocument up cfg now headers body

/-- The pre-flight check and the exchange. -/
def contact (up : Upstream) (cfg : Settings) : Fetch Exchange := do
  let s ← Act.get
  Act.ofExcept (Ssrf.validatePublicUrl up.resolver s.feed.effectiveUrl true)
  exchange up cfg

theorem attempt_eq (up : Upstream) (cfg : Settings) (now : Datetime) (weekly : Nat) :
    attempt up cfg now weekly = contact up cfg >>= respond up cfg now weekly := by
  funext s
  unfold attempt contact
  rw [Act.get_bind_apply, bind_assoc, Act.get_bind_apply, bind_assoc]
  refine congrFun (congrArg _ (funext fun _ ↦ congrArg _ (funext fun x ↦ ?_))) s
  cases x <;> rfl

theorem keeps_account_contact (up : Upstream) (cfg : Settings) :
    Act.Keeps FetchState.account (contact up cfg) :=
  .bind (Act.keeps_get _) fun _ ↦ .bind (Act.keeps_ofExcept _ _) fun _ ↦
    keeps_account_exchange up cfg

section

variable {up : Upstream} {cfg : Settings} {now : Datetime} {weekly : Nat} {s t : FetchState}

/-- Storing entries touches the session only. -/
theorem keeps_storeEntries {γ : Type} {p : FetchState → γ} (up : Upstream) (cfg : Settings)
    (now : Datetime)
    (hp : ∀ d s, p { s with session := d } = p s) (entries : List ParsedEntry) :
    Act.Keeps p (storeEntries up cfg now entries) := by
  refine .ite (Act.keeps_pure _ _) (.bind (Act.keeps_get _) fun s ↦ .bind ?_ fun b ↦ ?_)
  · exact Act.keeps_zoom hp
  · exact Act.keeps_zoom hp

theorem keeps_schedule {γ : Type} {p : FetchState → γ} (up : Upstream) (cfg : Settings)
    (now : Datetime) (weekly : Nat)
    (hp : ∀ t s, p (s.updateFeed fun f ↦ { f with nextFetchAt := t }) = p s) :
    Act.Keeps p (schedule up cfg now weekly) :=
  .bind (Act.keeps_get _) fun _ ↦ .bind (Act.keeps_ofExcept _ _) fun t ↦ Act.keeps_modify (hp t)

/-- What the other branches leave alone. -/
theorem keeps_handleNotModified {γ : Type} {p : FetchState → γ}
    (hrow : ∀ r s, p { s with row := r } = p s) (hhint : ∀ h s, p { s with serverHint := h } = p s)
    (hobs : ∀ o s, p { s with observed := o } = p s) (headers : Headers) :
    Act.Keeps p (handleNotModified up cfg now weekly headers) :=
  .bind (Act.keeps_modify fun _ ↦ hrow _ _) fun _ ↦ .bind (Act.keeps_ofExcept _ _) fun _ ↦
    .bind (Act.keeps_modify fun _ ↦ hhint _ _) fun _ ↦
      .bind (keeps_schedule _ _ _ _ fun _ _ ↦ hrow _ _) fun _ ↦
        .bind (Act.keeps_modify fun _ ↦ hobs _ _) fun _ ↦ Act.keeps_pure _ _

theorem keeps_handleRateLimited {γ : Type} {p : FetchState → γ}
    (hrow : ∀ r s, p { s with row := r } = p s) (hobs : ∀ o s, p { s with observed := o } = p s)
    (headers : Headers) : Act.Keeps p (handleRateLimited cfg now headers) :=
  .bind (Act.keeps_ofExcept _ _) fun _ ↦ .bind (Act.keeps_modify fun _ ↦ hrow _ _) fun _ ↦
    .bind (Act.keeps_ofExcept _ _) fun _ ↦ .bind (Act.keeps_modify fun _ ↦ hrow _ _) fun _ ↦
      .bind (Act.keeps_modify fun _ ↦ hobs _ _) fun _ ↦ Act.keeps_pure _ _

theorem keeps_recordFailure {γ : Type} {p : FetchState → γ}
    (hrow : ∀ r s, p { s with row := r } = p s) (hobs : ∀ o s, p { s with observed := o } = p s)
    (exc : Exc) : Act.Keeps p (recordFailure cfg now exc) :=
  .bind (Act.keeps_zoom fun _ _ ↦ hrow _ _) fun _ ↦ .bind (Act.keeps_modify fun _ ↦ hobs _ _)
    fun _ ↦ Act.keeps_pure _ _

/-- Whatever does not depend on the row, the session and the reports of a call is decided by
its exchange. -/
theorem keeps_respond {γ : Type} {p : FetchState → γ}
    (hrow : ∀ r s, p { s with row := r } = p s) (hsession : ∀ d s, p { s with session := d } = p s)
    (hhint : ∀ h s, p { s with serverHint := h } = p s)
    (hobs : ∀ o s, p { s with observed := o } = p s) (x : Exchange) :
    Act.Keeps p (respond up cfg now weekly x) := by
  cases x with
  | notModified headers => exact keeps_handleNotModified hrow hhint hobs headers
  | rateLimited headers => exact keeps_handleRateLimited hrow hobs headers
  | document headers body =>
      refine .ite (Act.keeps_raise _ _) (.bind (Act.keeps_ofExcept _ _) fun parsed ↦ ?_)
      refine .bind (keeps_storeEntries _ _ _ hsession _) fun _ ↦
        .bind (Act.keeps_modify fun _ ↦ hrow _ _) fun _ ↦
          .bind (Act.keeps_modify fun _ ↦ hrow _ _) fun _ ↦
            .bind (Act.keeps_ofExcept _ _) fun _ ↦ .bind (Act.keeps_modify fun _ ↦ hhint _ _)
              fun _ ↦ .bind (Act.keeps_modify fun _ ↦ hobs _ _) fun _ ↦ Act.keeps_pure _ _

/-- The state when the weekly count is asked for. -/
def FetchState.prepared (now : Datetime) (s : FetchState) : FetchState :=
  { s.updateFeed fun f ↦ { f with lastAttemptAt := some now } with serverHint := none }

/-- The seven days of the weekly count. -/
def week : Timedelta := ⟨7 * microsPerDay, by decide, by decide⟩

theorem prepare_eq (up : Upstream) (now : Datetime) (s : FetchState) :
    prepare up now s =
      match now.subDelta week with
      | .error e => (.error (.builtin e), s.prepared now)
      | .ok cutoff =>
        onSession (Session.execute up.statementFails .countWeeklyEntries fun d ↦
          (d.weeklyEntryCount s.feed.id cutoff, d)) (s.prepared now) := by
  have hw : Timedelta.ofDays 7 = .ok week := Timedelta.ofMicros_eq_ok_iff.mpr rfl
  unfold prepare
  rw [hw, Act.modify_bind_apply, Act.modify_bind_apply, ofPython_ok_bind_apply]
  cases now.subDelta week <;> rfl

/-- What it takes to reach the `try` block, and the state there. -/
theorem prepare_ok (h : prepare up now s = (.ok weekly, t)) :
    s.session.abortedBy = none ∧ t = { s.prepared now with
      session := { s.session with executed := s.session.executed + 1 } } := by
  rw [prepare_eq] at h
  cases hc : now.subDelta week with
  | error e => rw [hc] at h; cases h
  | ok cutoff =>
      rw [hc] at h
      obtain ⟨he, ht⟩ := onSession_eq h
      obtain ⟨ha, -, -, hs⟩ := Session.execute_ok he
      exact ⟨ha, hs ▸ ht⟩

/-- Before the `try` block only `last_attempt_at` changes. -/
theorem keeps_prepare {γ : Type} {p : FetchState → γ} (up : Upstream) (now : Datetime)
    (hp : ∀ s, p (s.prepared now) = p s)
    (hd : ∀ d s, p { s with session := d } = p s) : Act.Keeps p (prepare up now) := by
  intro s
  rw [prepare_eq]
  cases now.subDelta week with
  | error e => exact hp s
  | ok cutoff => exact (hd _ _).trans (hp s)

/-! ### The `except` clause -/

theorem recordFailure_of_ok {exc : Exc} {row : Tracked}
    (h : markFetchFailure now (classifyError exc) cfg.brokenThreshold cfg.deadDurationDays s.row =
      (.ok ⟨⟩, row)) :
    recordFailure cfg now exc s =
      (.ok .completed, { s with row := row }.observe (.error (classifyError exc))) := by
  simp only [recordFailure, onRow, Act.zoom, Act.bind_apply, h]
  rfl

theorem recordFailure_of_error {exc e : Exc} {row : Tracked}
    (h : markFetchFailure now (classifyError exc) cfg.brokenThreshold cfg.deadDurationDays s.row =
      (.error e, row)) :
    recordFailure cfg now exc s = (.error e, { s with row := row }) := by
  simp only [recordFailure, onRow, Act.zoom, Act.bind_apply, h]

/-- The `except` clause records the failure, unless `mark_fetch_failure` raises. -/
theorem recordFailure_cases (cfg : Settings) (now : Datetime) (exc : Exc) (s : FetchState) :
    recordFailure cfg now exc s =
        (.ok .completed, (s.mark cfg (.failure now (classifyError exc))).observe
          (.error (classifyError exc))) ∨
      ∃ e, recordFailure cfg now exc s =
        (.error (.builtin e), { s with
          row := s.row.mark cfg.brokenThreshold unreachableDays
            (.failure now (classifyError exc)) }) := by
  cases hd : Timedelta.ofDays cfg.deadDurationDays with
  | ok d => exact .inl (recordFailure_of_ok (markFetchFailure_of_ok hd s.row))
  | error e =>
      have h := markFetchFailure_of_error now (classifyError exc)
        cfg.brokenThreshold hd s.row
      split at h
      · exact .inr ⟨e, recordFailure_of_error h⟩
      · exact .inl (recordFailure_of_ok h)

/-! ### The runs of `fetch_one` -/

/-- The ways through `fetch_one`. -/
inductive FetchRun (up : Upstream) (cfg : Settings) (now : Datetime) (s : FetchState) :
    Except Exc PUnit → FetchState → Prop
  /-- The weekly count cannot be had. -/
  | unprepared {exc : Exc} {t : FetchState} : prepare up now s = (.error exc, t) →
    FetchRun up cfg now s (.error exc) t
  /-- A branch returns from `fetch_one`. -/
  | returned {weekly : Nat} {s₁ t : FetchState} : prepare up now s = (.ok weekly, s₁) →
    attempt up cfg now weekly s₁ = (.ok .returned, t) → FetchRun up cfg now s (.ok ⟨⟩) t
  /-- The `try` block runs to its end. -/
  | completed {weekly : Nat} {s₁ s₂ t : FetchState} {r : Except Exc PUnit} :
    prepare up now s = (.ok weekly, s₁) →
    attempt up cfg now weekly s₁ = (.ok .completed, s₂) →
    schedule up cfg now weekly s₂ = (r, t) → FetchRun up cfg now s r t
  /-- The `except` clause records a failure. -/
  | failed {weekly : Nat} {s₁ s₂ s₃ t : FetchState} {exc : Exc} {flow : Flow}
    {r : Except Exc PUnit} : prepare up now s = (.ok weekly, s₁) →
    attempt up cfg now weekly s₁ = (.error exc, s₂) →
    recordFailure cfg now exc s₂ = (.ok flow, s₃) →
    schedule up cfg now weekly s₃ = (r, t) → FetchRun up cfg now s r t
  /-- The `except` clause raises itself. -/
  | lost {weekly : Nat} {s₁ s₂ t : FetchState} {exc exc' : Exc} :
    prepare up now s = (.ok weekly, s₁) →
    attempt up cfg now weekly s₁ = (.error exc, s₂) →
    recordFailure cfg now exc s₂ = (.error exc', t) → FetchRun up cfg now s (.error exc') t

theorem recordFailure_flow {exc : Exc} {flow : Flow}
    (h : recordFailure cfg now exc s = (.ok flow, t)) :
    flow = .completed ∧ t = (s.mark cfg (.failure now (classifyError exc))).observe
      (.error (classifyError exc)) := by
  rcases recordFailure_cases cfg now exc s with h' | ⟨e, h'⟩
  · rw [h'] at h
    cases h
    exact ⟨rfl, rfl⟩
  · rw [h'] at h
    cases h

/-- What `fetch_one` does after its `try` block. -/
def conclude (up : Upstream) (cfg : Settings) (now : Datetime) (weekly : Nat) :
    Except Exc Flow × FetchState → Except Exc PUnit × FetchState
  | (.ok .returned, t) => (.ok ⟨⟩, t)
  | (.ok .completed, t) => schedule up cfg now weekly t
  | (.error exc, t) => (recordFailure cfg now exc >>= fun _ ↦ schedule up cfg now weekly) t

theorem fetchOne_of_prepared {s₁ : FetchState} (hp : prepare up now s = (.ok weekly, s₁)) :
    fetchOne up cfg now s = conclude up cfg now weekly (attempt up cfg now weekly s₁) := by
  unfold fetchOne
  rw [Act.bind_of_ok hp]
  rcases ha : attempt up cfg now weekly s₁ with ⟨exc | flow, s₂⟩
  · rw [conclude]
    rcases hr : recordFailure cfg now exc s₂ with ⟨exc' | flow, s₃⟩
    · rw [Act.bind_of_error ((Act.handle_of_error ha).trans hr), Act.bind_of_error hr]
    · rw [Act.bind_of_ok ((Act.handle_of_error ha).trans hr), Act.bind_of_ok hr,
        (recordFailure_flow hr).1]
  · rw [Act.bind_of_ok (Act.handle_of_ok ha)]
    cases flow <;> rfl

/-- After the `try` block only the row and the reports of the call change. -/
theorem conclude_frame {γ : Type} {p : FetchState → γ}
    (hrow : ∀ r s, p { s with row := r } = p s) (hobs : ∀ o s, p { s with observed := o } = p s)
    (run : Except Exc Flow × FetchState) : p (conclude up cfg now weekly run).2 = p run.2 := by
  have hs : Act.Keeps p (schedule up cfg now weekly) := keeps_schedule _ _ _ _ fun _ _ ↦ hrow _ _
  rcases run with ⟨exc | _ | _, t⟩
  · exact Act.Keeps.bind (keeps_recordFailure hrow hobs exc) (fun _ ↦ hs) t
  · rfl
  · exact hs t

theorem fetchOne_run (up : Upstream) (cfg : Settings) (now : Datetime) (s : FetchState) :
    FetchRun up cfg now s (fetchOne up cfg now s).1 (fetchOne up cfg now s).2 := by
  change Act.Ensures (fetchOne up cfg now) s (FetchRun up cfg now s)
  rw [fetchOne, Act.ensures_bind]
  rcases hp : prepare up now s with ⟨exc | weekly, s₁⟩
  · rw [Act.ensures_of_run hp, Act.through_error]
    exact .unprepared hp
  rw [Act.ensures_of_run hp, Act.through_ok, Act.ensures_bind, Act.ensures_handle]
  rcases ha : attempt up cfg now weekly s₁ with ⟨exc | flow, s₂⟩
  · rw [Act.ensures_of_run ha, Act.caught_error]
    rcases hr : recordFailure cfg now exc s₂ with ⟨exc' | flow, s₃⟩
    · rw [Act.ensures_of_run hr, Act.through_error]
      exact .lost hp ha hr
    · rw [Act.ensures_of_run hr, Act.through_ok, (recordFailure_flow hr).1]
      exact .failed hp ha hr rfl
  · rw [Act.ensures_of_run ha, Act.caught_ok, Act.through_ok]
    cases flow with
    | returned => exact .returned hp ha
    | completed => exact .completed hp ha rfl

end

end FeedgateFetcher
