import FeedgateFetcher.Fetcher.Outcome
import FeedgateFetcher.Fetcher.Paths

/-!
# The lifecycle that a call leaves

The answer that a call receives decides the lifecycle columns it leaves, as a
function of the columns it found and of the helpers that read the answer.
-/

namespace FeedgateFetcher

open Python Logic

/-! ## After a failure -/

/-- The days that a failure compares with.  When `dead_duration_days` is no `timedelta` the
comparison raises, and no feed dies of old age. -/
def Settings.effectiveDays (cfg : Settings) : Int :=
  if DaysFit cfg.deadDurationDays then cfg.deadDurationDays else unreachableDays

/-- The lifecycle after a failure. -/
def Lifecycle.failed (cfg : Settings) (now : Datetime) (code : ErrorCode) (l : Lifecycle) :
    Lifecycle :=
  (Mark.failure now code).apply cfg.brokenThreshold cfg.effectiveDays l

/-- The days matter to broken feeds only. -/
theorem Mark.apply_failure_days {T D D' : Int} {now : Datetime} {code : ErrorCode} {l : Lifecycle}
    (h : ¬(code ≠ .http410 ∧ (l.status = .broken ∨ (l.count code).Breaks T))) :
    (Mark.failure now code).apply T D l = (Mark.failure now code).apply T D' l := by
  by_cases hcode : code = .http410
  · subst hcode
    rw [apply_gone, apply_gone]
  · have hn : ¬(l.status = .broken ∨ (l.count code).Breaks T) := fun hb ↦ h ⟨hcode, hb⟩
    have hb : ¬(l.count code).Breaks T := fun hb ↦ hn (.inr hb)
    rw [apply_failure_of_stays hcode hb fun he ↦ hn he.1,
      apply_failure_of_stays hcode hb fun he ↦ hn he.1]

section

variable {up : Upstream} {cfg : Settings} {now : Datetime} {weekly : Nat} {s s' t : FetchState}
  {headers : Headers} {body : Bytes}

theorem recordFailure_lifecycle (exc : Exc) (s : FetchState) :
    (recordFailure cfg now exc s).2.feed.lifecycle =
      s.feed.lifecycle.failed cfg now (classifyError exc) := by
  unfold Lifecycle.failed Settings.effectiveDays
  cases hd : Timedelta.ofDays cfg.deadDurationDays with
  | ok d =>
      rw [if_pos (daysFit_iff.mpr ⟨d, hd⟩), recordFailure_of_ok (markFetchFailure_of_ok hd s.row)]
      rfl
  | error e =>
      have hnot : ¬DaysFit cfg.deadDurationDays := by
        rw [daysFit_iff, hd]
        exact fun ⟨_, h⟩ ↦ (nomatch h)
      have hm := markFetchFailure_of_error now (classifyError exc)
        cfg.brokenThreshold hd s.row
      rw [if_neg hnot]
      split at hm
      · rw [recordFailure_of_error hm]
        rfl
      · rename_i hc
        rw [recordFailure_of_ok hm]
        exact Mark.apply_failure_days hc

theorem conclude_failed (exc : Exc) (t : FetchState) :
    (conclude up cfg now weekly (.error exc, t)).2.feed.lifecycle =
      t.feed.lifecycle.failed cfg now (classifyError exc) := by
  rw [conclude, ← recordFailure_lifecycle]
  rcases hr : recordFailure cfg now exc t with ⟨exc' | flow, t'⟩
  · rw [Act.bind_of_error hr]
  · rw [Act.bind_of_ok hr]
    exact keeps_schedule (p := fun s ↦ s.feed.lifecycle) up cfg now weekly (fun _ _ ↦ rfl) t'

theorem conclude_completed (t : FetchState) :
    (conclude up cfg now weekly (.ok .completed, t)).2.feed.lifecycle = t.feed.lifecycle :=
  keeps_schedule (p := fun s ↦ s.feed.lifecycle) up cfg now weekly (fun _ _ ↦ rfl) t

/-! ## After an answer -/

/-- The choice of the next fetch after a 304 succeeds. -/
def SchedulesUnmodified (up : Upstream) (cfg : Settings) (now : Datetime) (weekly : Nat)
    (feed : Feed) (hint : Option Int) : Prop :=
  (computeNextFetchAt cfg { feed with status := .active } now hint weekly up.draw).isOk = true

instance (up : Upstream) (cfg : Settings) (now : Datetime) (weekly : Nat) (feed : Feed)
    (hint : Option Int) : Decidable (SchedulesUnmodified up cfg now weekly feed hint) :=
  inferInstanceAs (Decidable (_ = _))

/-- The wait after a 429 ends at a representable instant. -/
def WaitFits (cfg : Settings) (now : Datetime) (wait : Option Int) : Prop :=
  (addWholeSeconds now (max (wait.getD 0) cfg.fetchIntervalSeconds)).isOk = true

instance (cfg : Settings) (now : Datetime) (wait : Option Int) :
    Decidable (WaitFits cfg now wait) :=
  inferInstanceAs (Decidable (_ = _))

/-- The wait that a 429 asks for can be granted. -/
def WaitGranted (cfg : Settings) (now : Datetime) (headers : Headers) : Prop :=
  match parseRetryAfter (headers.get "retry-after".toList) now with
  | .error _ => False
  | .ok wait => WaitFits cfg now wait

/-- The failure to which a document leads, when its entries do not get stored. -/
def documentRefusal (up : Upstream) (cfg : Settings) (s : FetchState) (headers : Headers)
    (body : Bytes) : Option ErrorCode :=
  if isNotAFeedContentType (headers.get "content-type".toList) then some .notAFeed
  else match parseFeed up.feedparser body with
    | .error _ => some .other
    | .ok parsed =>
      if StoreAccepted up cfg s (s.session.executed + 1) parsed then none else some .other

/-- The lifecycle that a document leaves. -/
def documentLifecycle (up : Upstream) (cfg : Settings) (now : Datetime) (s : FetchState)
    (headers : Headers) (body : Bytes) : Lifecycle :=
  match documentRefusal up cfg s headers body with
  | some code => s.feed.lifecycle.failed cfg now code
  | none =>
    let after := (Mark.success now).apply cfg.brokenThreshold cfg.deadDurationDays s.feed.lifecycle
    match parseCacheHint headers now with
    | .error _ => after.failed cfg now .other
    | .ok _ => after

/-- The lifecycle that an answer leaves. -/
def lifecycleAfter (up : Upstream) (cfg : Settings) (now : Datetime) (weekly : Nat)
    (s : FetchState) : Exchange → Lifecycle
  | .notModified headers =>
    let after := (Mark.notModified now).apply cfg.brokenThreshold cfg.deadDurationDays
      s.feed.lifecycle
    match parseCacheHint headers now with
    | .error _ => after.failed cfg now .other
    | .ok hint =>
      if SchedulesUnmodified up cfg now weekly s.feed hint then after
      else after.failed cfg now .other
  | .rateLimited headers =>
    match parseRetryAfter (headers.get "retry-after".toList) now with
    | .error _ => s.feed.lifecycle.failed cfg now .other
    | .ok wait =>
      if WaitFits cfg now wait then
        Mark.rateLimited.apply cfg.brokenThreshold cfg.deadDurationDays s.feed.lifecycle
      else s.feed.lifecycle.failed cfg now .other
  | .document headers body => documentLifecycle up cfg now s headers body

theorem lifecycleAfter_of_granted (h : WaitGranted cfg now headers) :
    lifecycleAfter up cfg now weekly s (.rateLimited headers) =
      { s.feed.lifecycle with lastErrorCode := some .rateLimited } := by
  unfold WaitGranted at h
  rw [lifecycleAfter]
  cases hr : parseRetryAfter (headers.get "retry-after".toList) now with
  | error e =>
      rw [hr] at h
      cases h
  | ok wait =>
      rw [hr] at h
      exact if_pos h

theorem lifecycleAfter_of_not_granted (h : ¬WaitGranted cfg now headers) :
    lifecycleAfter up cfg now weekly s (.rateLimited headers) =
      s.feed.lifecycle.failed cfg now .other := by
  unfold WaitGranted at h
  rw [lifecycleAfter]
  cases hr : parseRetryAfter (headers.get "retry-after".toList) now with
  | error e => rfl
  | ok wait =>
      rw [hr] at h
      exact if_neg h

/-- For a feed that is not broken the choice looks at the settings, the hint and the count only. -/
theorem computeNextFetchAt_of_ne_broken {f g : Feed} {hint : Option Int} {u : Draw}
    (hf : f.status ≠ .broken) (hg : g.status ≠ .broken) :
    computeNextFetchAt cfg f now hint weekly u = computeNextFetchAt cfg g now hint weekly u := by
  rw [computeNextFetchAt, if_pos hf, computeNextFetchAt, if_pos hg]

/-- A 304 leaves no feed broken. -/
theorem apply_notModified_ne_broken (now : Datetime) (T D : Int) (l : Lifecycle) :
    ((Mark.notModified now).apply T D l).status ≠ .broken := by
  by_cases h : l.status = .broken
  · rw [Mark.apply_notModified_of_broken now h]
    exact nofun
  · rw [Mark.apply_notModified_of_ne now h]
    exact h

theorem handleNotModified_lifecycle (h : Reached now s s') :
    (conclude up cfg now weekly
      (handleNotModified up cfg now weekly headers s')).2.feed.lifecycle =
        lifecycleAfter up cfg now weekly s (.notModified headers) := by
  have hlife : (s'.mark cfg (.notModified now)).feed.lifecycle = (Mark.notModified now).apply
      cfg.brokenThreshold cfg.deadDurationDays s.feed.lifecycle := by
    rw [← h.lifecycle]
    rfl
  have hne : (s'.mark cfg (.notModified now)).feed.status ≠ .broken := by
    have hstatus := congrArg Lifecycle.status hlife
    exact fun hb ↦ apply_notModified_ne_broken _ _ _ _ (hstatus.symm.trans hb)
  rw [lifecycleAfter]
  cases hh : parseCacheHint headers now with
  | error e =>
      rw [handleNotModified_of_hint_error hh, conclude_failed, hlife]
      rfl
  | ok hint =>
      have hcompute : computeNextFetchAt cfg { s.feed with status := .active } now hint weekly
          up.draw = computeNextFetchAt cfg (s'.mark cfg (.notModified now)).feed now hint weekly
            up.draw := computeNextFetchAt_of_ne_broken nofun hne
      rw [handleNotModified_of_hint hh]
      dsimp only
      cases hc : computeNextFetchAt cfg (s'.mark cfg (.notModified now)).feed now hint weekly
          up.draw with
      | error e =>
          have hs : ¬SchedulesUnmodified up cfg now weekly s.feed hint := by
            rw [SchedulesUnmodified, hcompute, hc]
            exact Bool.false_ne_true
          rw [if_neg hs]
          exact (conclude_failed _ _).trans (by rw [FetchState.withHint_feed, hlife]; rfl)
      | ok next =>
          have hs : SchedulesUnmodified up cfg now weekly s.feed hint := by
            rw [SchedulesUnmodified, hcompute, hc]
            rfl
          rw [if_pos hs]
          exact hlife

theorem failed_rateLimited (T D : Int) (l : Lifecycle) (code : ErrorCode) :
    (Mark.rateLimited.apply T D l).failed cfg now code = l.failed cfg now code := rfl

theorem handleRateLimited_lifecycle (h : Reached now s s') :
    (conclude up cfg now weekly (handleRateLimited cfg now headers s')).2.feed.lifecycle =
      lifecycleAfter up cfg now weekly s (.rateLimited headers) := by
  have hlife : (s'.mark cfg .rateLimited).feed.lifecycle = Mark.rateLimited.apply
      cfg.brokenThreshold cfg.deadDurationDays s.feed.lifecycle := by
    rw [← h.lifecycle]
    rfl
  rw [lifecycleAfter]
  cases hh : parseRetryAfter (headers.get "retry-after".toList) now with
  | error e =>
      rw [handleRateLimited_of_error hh, conclude_failed, h.lifecycle]
      rfl
  | ok wait =>
      rw [handleRateLimited_of_ok hh]
      dsimp only
      cases hw : addWholeSeconds now (max (wait.getD 0) cfg.fetchIntervalSeconds) with
      | error e =>
          have hn : ¬WaitFits cfg now wait := by
            rw [WaitFits, hw]
            exact Bool.false_ne_true
          rw [if_neg hn]
          refine (conclude_failed _ _).trans ?_
          rw [hlife, failed_rateLimited]
          rfl
      | ok next =>
          have hf : WaitFits cfg now wait := by
            rw [WaitFits, hw]
            rfl
          rw [if_pos hf]
          exact hlife

/-- A document that is refused leaves the row to the `except` clause. -/
theorem storeDocument_of_refusal (now : Datetime) (h : Reached now s s')
    (hs : s.session.abortedBy = none) {code : ErrorCode}
    (hr : documentRefusal up cfg s headers body = some code) :
    ∃ exc d, storeDocument up cfg now headers body s' = (.error exc, { s' with session := d }) ∧
      classifyError exc = code := by
  have hs' : s'.session.abortedBy = none := by
    rw [h.session]
    exact hs
  unfold documentRefusal at hr
  cases hct : isNotAFeedContentType (headers.get "content-type".toList) with
  | true =>
      rw [hct, if_pos rfl] at hr
      cases hr
      exact ⟨.notAFeed, s'.session, storeDocument_of_html hct, rfl⟩
  | false =>
      rw [hct, if_neg Bool.false_ne_true] at hr
      cases hp : parseFeed up.feedparser body with
      | error exc =>
          rw [hp] at hr
          cases hr
          exact ⟨exc, s'.session, storeDocument_of_parse_error hct hp, classifyError_parseFeed hp⟩
      | ok parsed =>
          rw [hp] at hr
          dsimp only at hr
          split at hr
          · cases hr
          · rename_i hacc
            cases hr
            obtain ⟨d, hst, -⟩ := storeEntries_of_rejected now hs' (mt h.storeAccepted.mp hacc)
            exact ⟨.database, d, storeDocument_of_store_error hct hp hst, rfl⟩

/-- A document that is stored. -/
theorem storeDocument_of_accepted (now : Datetime) (h : Reached now s s')
    (hs : s.session.abortedBy = none) (hr : documentRefusal up cfg s headers body = none) :
    ∃ (parsed : ParsedFeed) (d : Session), parseFeed up.feedparser body = .ok parsed ∧
      d.entries = (Session.upsertAll s.feed.id now up.dbNow (batchOf cfg s parsed)
        s.session).entries ∧
      storeDocument up cfg now headers body s' =
        match parseCacheHint headers now with
        | .error e => (.error (.builtin e),
            FetchState.succeed cfg now parsed.title headers { s' with session := d })
        | .ok hint => (.ok .completed,
            ((FetchState.succeed cfg now parsed.title headers { s' with session := d }).withHint
              (combineTtl hint parsed.ttlSeconds)).observe .success) := by
  have hs' : s'.session.abortedBy = none := by
    rw [h.session]
    exact hs
  unfold documentRefusal at hr
  cases hct : isNotAFeedContentType (headers.get "content-type".toList) with
  | true =>
      rw [hct, if_pos rfl] at hr
      cases hr
  | false =>
      rw [hct, if_neg Bool.false_ne_true] at hr
      cases hp : parseFeed up.feedparser body with
      | error exc =>
          rw [hp] at hr
          cases hr
      | ok parsed =>
          rw [hp] at hr
          dsimp only at hr
          split at hr
          · rename_i hacc
            obtain ⟨n, hst⟩ := storeEntries_of_accepted now hs' (h.storeAccepted.mpr hacc)
            refine ⟨parsed, _, rfl, ?_, storeDocument_of_stored hct hp hst⟩
            dsimp only
            rw [h.batchOf, h.session, congrArg Feed.id h.feed, upsertAll_executed]
          · cases hr

theorem storeDocument_lifecycle (h : Reached now s s') (hs : s.session.abortedBy = none) :
    (conclude up cfg now weekly (storeDocument up cfg now headers body s')).2.feed.lifecycle =
      documentLifecycle up cfg now s headers body := by
  rw [documentLifecycle]
  cases hr : documentRefusal up cfg s headers body with
  | some code =>
      obtain ⟨exc, d, hst, rfl⟩ := storeDocument_of_refusal now h hs hr
      rw [hst, conclude_failed]
      exact congrArg (Lifecycle.failed cfg now (classifyError exc)) h.lifecycle
  | none =>
      obtain ⟨parsed, d, -, -, hst⟩ := storeDocument_of_accepted now h hs hr
      have hlife : (FetchState.succeed cfg now parsed.title headers
          { s' with session := d }).feed.lifecycle =
            (Mark.success now).apply cfg.brokenThreshold cfg.deadDurationDays s.feed.lifecycle := by
        rw [← h.lifecycle]
        exact congrArg Prod.fst (FetchState.succeed_history cfg now parsed.title headers _)
      rw [hst]
      cases parseCacheHint headers now with
      | error e => exact (conclude_failed _ _).trans (by rw [hlife]; rfl)
      | ok hint => exact (conclude_completed _).trans hlife

theorem respond_lifecycle (h : Reached now s s') (hs : s.session.abortedBy = none) (x : Exchange) :
    (conclude up cfg now weekly (respond up cfg now weekly x s')).2.feed.lifecycle =
      lifecycleAfter up cfg now weekly s x := by
  cases x with
  | notModified headers => exact handleNotModified_lifecycle h
  | rateLimited headers => exact handleRateLimited_lifecycle h
  | document headers body => exact storeDocument_lifecycle h hs

/-! ## The other columns -/

/-- The headers of the document that an exchange brought, when it gets stored. -/
def storedHeaders (up : Upstream) (cfg : Settings) (s : FetchState) :
    Except Exc Exchange → Option Headers
  | .ok (.document headers body) =>
    if documentRefusal up cfg s headers body = none then some headers else none
  | _ => none

theorem rememberValidators_mark (title : Option Text) (headers : Headers) (l : Lifecycle)
    (f : Feed) : rememberValidators headers ((f.retitle title).withLifecycle l) =
      ((rememberValidators headers f).retitle title).withLifecycle l := by
  unfold Feed.retitle
  split <;> rfl

section

variable {γ : Type} {p : Feed → γ} (hlife : ∀ l f, p (Feed.withLifecycle l f) = p f)
  (hnext : ∀ (t : Datetime) (f : Feed), p { f with nextFetchAt := t } = p f)

include hlife hnext

/-- Recording a failure and scheduling touch the lifecycle and the next fetch only. -/
theorem conclude_column (run : Except Exc Flow × FetchState) :
    p (conclude up cfg now weekly run).2.feed = p run.2.feed := by
  have hs : ∀ t, p (schedule up cfg now weekly t).2.feed = p t.feed :=
    keeps_schedule (p := fun s ↦ p s.feed) up cfg now weekly fun t s ↦ hnext t s.feed
  rcases run with ⟨exc | _ | _, t⟩
  · rw [conclude]
    rcases recordFailure_cases cfg now exc t with h' | ⟨e, h'⟩
    · rw [Act.bind_of_ok h', hs]
      exact hlife _ _
    · rw [Act.bind_of_error h']
      exact hlife _ _
  · rfl
  · exact hs t

theorem handleNotModified_column :
    p (handleNotModified up cfg now weekly headers s').2.feed = p s'.feed := by
  cases hh : parseCacheHint headers now with
  | error e =>
      rw [handleNotModified_of_hint_error hh]
      exact hlife _ _
  | ok hint =>
      rw [handleNotModified_of_hint hh]
      cases computeNextFetchAt cfg (s'.mark cfg (.notModified now)).feed now hint weekly
          up.draw with
      | error e => exact hlife _ _
      | ok next => exact (hnext _ _).trans (hlife _ _)

theorem handleRateLimited_column :
    p (handleRateLimited cfg now headers s').2.feed = p s'.feed := by
  cases hh : parseRetryAfter (headers.get "retry-after".toList) now with
  | error e => rw [handleRateLimited_of_error hh]
  | ok wait =>
      rw [handleRateLimited_of_ok hh]
      cases addWholeSeconds now (max (wait.getD 0) cfg.fetchIntervalSeconds) with
      | error e => exact hlife _ _
      | ok next => exact (hnext _ _).trans (hlife _ _)

variable (htitle : ∀ (title : Option Text) (f : Feed), p { f with title := title } = p f)

include htitle

/-- Apart from the lifecycle, the title and the next fetch, an answer changes the validators, and
these only when it is a document that gets stored. -/
theorem respond_column (h : Reached now s s') (hs : s.session.abortedBy = none) (x : Exchange) :
    p (respond up cfg now weekly x s').2.feed =
      p ((storedHeaders up cfg s (.ok x)).elim s'.feed fun headers ↦
        rememberValidators headers s'.feed) := by
  cases x with
  | notModified headers => exact handleNotModified_column hlife hnext
  | rateLimited headers => exact handleRateLimited_column hlife hnext
  | document headers body =>
      rw [respond, storedHeaders]
      cases hr : documentRefusal up cfg s headers body with
      | some code =>
          obtain ⟨exc, d, hst, -⟩ := storeDocument_of_refusal now h hs hr
          rw [hst]
          rfl
      | none =>
          obtain ⟨parsed, d, -, -, hst⟩ := storeDocument_of_accepted now h hs hr
          have hmark : ∀ d : Session, p (FetchState.succeed cfg now parsed.title headers
              { s' with session := d }).feed = p (rememberValidators headers s'.feed) := by
            intro d
            refine Eq.trans (congrArg p (rememberValidators_mark _ _ _ _)) ?_
            rw [hlife, Feed.retitle_eq, htitle]
            rfl
          rw [hst, if_pos rfl]
          cases parseCacheHint headers now with
          | error e => exact hmark d
          | ok hint => exact hmark d

end

/-! ## The call -/

/-- The lifecycle that an exchange leaves. -/
def exchangeLifecycle (up : Upstream) (cfg : Settings) (now : Datetime) (weekly : Nat)
    (s : FetchState) : Except Exc Exchange → Lifecycle
  | .ok x => lifecycleAfter up cfg now weekly s x
  | .error exc => s.feed.lifecycle.failed cfg now (classifyError exc)

/-- The exchange decides the lifecycle that a call leaves. -/
theorem fetchOne_lifecycle (cfg : Settings) {s₁ : FetchState}
    (hp : prepare up now s = (.ok weekly, s₁)) :
    (fetchOne up cfg now s).2.feed.lifecycle =
      exchangeLifecycle up cfg now weekly s (contact up cfg s₁).1 := by
  rw [fetchOne_of_prepared hp, attempt_eq]
  rcases hc : contact up cfg s₁ with ⟨exc | x, s'⟩
  · rw [Act.bind_of_error hc, conclude_failed, (Reached.of_contact hp hc).lifecycle]
    rfl
  · rw [Act.bind_of_ok hc]
    exact respond_lifecycle (Reached.of_contact hp hc) (prepare_ok hp).1 x

/-- The same of the call. -/
theorem fetchOne_column (cfg : Settings) {γ : Type} {p : Feed → γ}
    (hlife : ∀ l f, p (Feed.withLifecycle l f) = p f)
    (hnext : ∀ (t : Datetime) (f : Feed), p { f with nextFetchAt := t } = p f)
    (htitle : ∀ (title : Option Text) (f : Feed), p { f with title := title } = p f)
    {s₁ : FetchState}
    (hp : prepare up now s = (.ok weekly, s₁)) :
    p (fetchOne up cfg now s).2.feed =
      p ((storedHeaders up cfg s (contact up cfg s₁).1).elim (contact up cfg s₁).2.feed
        fun headers ↦ rememberValidators headers (contact up cfg s₁).2.feed) := by
  rw [fetchOne_of_prepared hp, conclude_column hlife hnext, attempt_eq]
  rcases hc : contact up cfg s₁ with ⟨exc | x, s'⟩
  · rw [Act.bind_of_error hc]
    rfl
  · rw [Act.bind_of_ok hc]
    exact respond_column hlife hnext htitle (Reached.of_contact hp hc) (prepare_ok hp).1 x

/-- A call that gets to the `try` block has noted its attempt. -/
theorem fetchOne_lastAttemptAt {s₁ : FetchState} (hp : prepare up now s = (.ok weekly, s₁)) :
    (fetchOne up cfg now s).2.feed.lastAttemptAt = some now := by
  have hprepared : s₁.feed.lastAttemptAt = some now := by
    rw [(prepare_ok hp).2]
    rfl
  have hcontact : (contact up cfg s₁).2.feed.lastAttemptAt = s₁.feed.lastAttemptAt :=
    congrArg (fun a : Account ↦ a.feed.lastAttemptAt) (keeps_account_contact up cfg s₁)
  rw [fetchOne_column cfg (p := Feed.lastAttemptAt) (fun _ _ ↦ rfl) (fun _ _ ↦ rfl)
    (fun _ _ ↦ rfl) hp, ← hprepared, ← hcontact]
  cases storedHeaders up cfg s (contact up cfg s₁).1 <;> rfl

/-- The columns under which the feed was registered. -/
def Feed.registration (f : Feed) : Int × Text := (f.id, f.url)

/-- No call changes them. -/
theorem fetchOne_registration (up : Upstream) (cfg : Settings) (now : Datetime) (s : FetchState) :
    (fetchOne up cfg now s).2.feed.registration = s.feed.registration := by
  have hprepare : (prepare up now s).2.feed.registration = s.feed.registration :=
    keeps_prepare (p := fun t ↦ t.feed.registration) up now (fun _ ↦ rfl) (fun _ _ ↦ rfl) s
  rcases hp : prepare up now s with ⟨exc | weekly, s₁⟩
  · rw [hp] at hprepare
    rw [fetchOne, Act.bind_of_error hp]
    exact hprepare
  · rw [hp] at hprepare
    have hcolumn := fetchOne_column cfg (p := Feed.registration) (fun _ _ ↦ rfl)
      (fun _ _ ↦ rfl) (fun _ _ ↦ rfl) hp
    have hcontact : (contact up cfg s₁).2.feed.registration = s₁.feed.registration :=
      congrArg (fun a : Account ↦ a.feed.registration) (keeps_account_contact up cfg s₁)
    rw [hcolumn, ← hprepare, ← hcontact]
    cases storedHeaders up cfg s (contact up cfg s₁).1 <;> rfl

/-- The entries that a document leaves in the table. -/
theorem fetchOne_entries {s₁ : FetchState} (hp : prepare up now s = (.ok weekly, s₁))
    (hc : contact up cfg s₁ = (.ok (.document headers body), s'))
    (hr : documentRefusal up cfg s headers body = none) {parsed : ParsedFeed}
    (hparsed : parseFeed up.feedparser body = .ok parsed) :
    (fetchOne up cfg now s).2.session.entries =
      (Session.upsertAll s.feed.id now up.dbNow (batchOf cfg s parsed) s.session).entries := by
  obtain ⟨parsed', d, hparsed', hd, hst⟩ :=
    storeDocument_of_accepted now (Reached.of_contact hp hc) (prepare_ok hp).1 hr
  cases hparsed.symm.trans hparsed'
  have hframe : ∀ run : Except Exc Flow × FetchState,
      (conclude up cfg now weekly run).2.session.entries = run.2.session.entries :=
    conclude_frame (p := fun t ↦ t.session.entries) (fun _ _ ↦ rfl) fun _ _ ↦ rfl
  rw [fetchOne_of_prepared hp, hframe, attempt_eq, Act.bind_of_ok hc, respond, hst, ← hd]
  cases parseCacheHint headers now <;> rfl

end

end FeedgateFetcher
