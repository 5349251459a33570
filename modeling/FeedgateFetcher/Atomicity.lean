import FeedgateFetcher.Fetcher.EntryTable
import FeedgateFetcher.Fetcher.Outcome
import FeedgateFetcher.Fetcher.Paths

/-!
# What a failed fetch leaves behind

The `try` block of `fetch_one` changes the row and the table step by step, and
nothing is undone when a later step raises.  A failed call leaves them as they
were exactly when the steps it had come through had nothing to change.
-/

namespace FeedgateFetcher

open Python Logic

/-- The columns of a row that a failure has no business with. -/
@[ext]
structure Profile where
  id : Int
  url : Text
  effectiveUrl : Text
  title : Option Text
  lastSuccessfulFetchAt : Option Datetime
  createdAt : Datetime
  etag : Option Text
  lastModified : Option Text
deriving DecidableEq

def Feed.profile (f : Feed) : Profile where
  id := f.id
  url := f.url
  effectiveUrl := f.effectiveUrl
  title := f.title
  lastSuccessfulFetchAt := f.lastSuccessfulFetchAt
  createdAt := f.createdAt
  etag := f.etag
  lastModified := f.lastModified

/-- Nothing but the columns of an attempt changed.  The entries of an aborted transaction
are those of before: it can only be rolled back. -/
structure Atomic (before after : FetchState) : Prop where
  row : after.feed.profile = before.feed.profile
  entries : after.session.abortedBy = none →
    after.session.ofFeed before.feed.id = before.session.ofFeed before.feed.id

/-! ## What may have been written -/

/-- The document says what the row and the table say already. -/
structure Repeats (up : Upstream) (cfg : Settings) (now : Datetime) (s : FetchState)
    (headers : Headers) (parsed : ParsedFeed) : Prop where
  title : truthy parsed.title → parsed.title = s.feed.title
  fetched : s.feed.lastSuccessfulFetchAt = some now
  etag : ∀ v ∈ headers.get "etag".toList, s.feed.etag = some v
  lastModified : ∀ v ∈ headers.get "last-modified".toList, s.feed.lastModified = some v
  entries : s.session.Reflects s.feed.id up.dbNow (batchOf cfg s parsed)

/-- What an answer makes the row and the table say, they say already. -/
def Spares (up : Upstream) (cfg : Settings) (now : Datetime) (s : FetchState) : Exchange → Prop
  | .notModified _ => s.feed.lastSuccessfulFetchAt = some now
  | .rateLimited _ => True
  | .document headers body =>
    isNotAFeedContentType (headers.get "content-type".toList) = false →
    ∀ parsed, parseFeed up.feedparser body = .ok parsed →
      StoreAccepted up cfg s (s.session.executed + 1) parsed → Repeats up cfg now s headers parsed

section

variable {up : Upstream} {cfg : Settings} {now : Datetime} {weekly : Nat} {s t : FetchState}
  {parsed : ParsedFeed} {headers : Headers} {body : Bytes}

theorem Feed.profile_withLifecycle (l : Lifecycle) (f : Feed) :
    (f.withLifecycle l).profile =
      { f.profile with
        lastSuccessfulFetchAt := l.lastSuccessfulFetchAt
        createdAt := l.createdAt } := rfl

theorem Mark.apply_notModified_lastSuccessfulFetchAt (T D : Int) (l : Lifecycle) :
    ((Mark.notModified now).apply T D l).lastSuccessfulFetchAt = some now := by
  by_cases h : l.status = .broken
  · rw [apply_notModified_of_broken now h]
  · rw [apply_notModified_of_ne now h]

/-! ## The branches -/

theorem Profile.eq_self_iff {p : Profile} {address : Text} {title : Option Text}
    {fetched : Option Datetime} {etag lastModified : Option Text} :
    (⟨p.id, p.url, address, title, fetched, p.createdAt, etag, lastModified⟩ : Profile) = p ↔
      address = p.effectiveUrl ∧ title = p.title ∧ fetched = p.lastSuccessfulFetchAt ∧
        etag = p.etag ∧ lastModified = p.lastModified := by
  rw [Profile.ext_iff]
  constructor
  · rintro ⟨-, -, h₁, h₂, h₃, -, h₄, h₅⟩
    exact ⟨h₁, h₂, h₃, h₄, h₅⟩
  · rintro ⟨h₁, h₂, h₃, h₄, h₅⟩
    exact ⟨rfl, rfl, h₁, h₂, h₃, rfl, h₄, h₅⟩

theorem or_eq_self_iff (a b : Option Text) : a.or b = b ↔ ∀ v ∈ a, b = some v := by
  cases a with
  | none => exact ⟨fun _ ↦ nofun, fun _ ↦ rfl⟩
  | some v => exact ⟨fun h w hw ↦ Option.mem_some.mp hw ▸ h.symm, fun h ↦ (h v rfl).symm⟩

namespace Reached

variable {s' : FetchState}

theorem profile (h : Reached now s s') :
    s'.feed.profile = { s.feed.profile with effectiveUrl := s'.feed.effectiveUrl } := by
  conv_lhs => rw [h.feed]
  rfl

/-- A branch that raises before it has written anything. -/
theorem atomic_iff (h : Reached now s s') (hrow : t.feed.profile = s'.feed.profile)
    (hsession : t.session.abortedBy = none → t.session = s'.session) :
    Atomic s t ↔ s'.feed.effectiveUrl = s.feed.effectiveUrl := by
  have hiff : t.feed.profile = s.feed.profile ↔ s'.feed.effectiveUrl = s.feed.effectiveUrl := by
    rw [hrow, h.profile, Profile.eq_self_iff]
    exact ⟨fun ha ↦ ha.1, fun ha ↦ ⟨ha, rfl, rfl, rfl, rfl⟩⟩
  constructor
  · exact fun ha ↦ hiff.mp ha.row
  · refine fun ha ↦ ⟨hiff.mpr ha, fun hab ↦ ?_⟩
    rw [hsession hab, h.session]
    rfl

theorem notModified_atomic_iff (h : Reached now s s') {exc : Exc}
    (hr : handleNotModified up cfg now weekly headers s' = (.error exc, t)) :
    Atomic s t ↔ s'.feed.effectiveUrl = s.feed.effectiveUrl ∧
      s.feed.lastSuccessfulFetchAt = some now := by
  have hmark : t.feed = (s'.mark cfg (.notModified now)).feed ∧ t.session = s'.session := by
    cases hh : parseCacheHint headers now with
    | error e =>
        rw [handleNotModified_of_hint_error hh] at hr
        cases hr
        exact ⟨rfl, rfl⟩
    | ok hint =>
        rw [handleNotModified_of_hint hh] at hr
        cases hc : computeNextFetchAt cfg (s'.mark cfg (.notModified now)).feed now hint weekly
            up.draw with
        | error e =>
            rw [hc] at hr
            cases hr
            exact ⟨rfl, rfl⟩
        | ok next =>
            rw [hc] at hr
            cases hr
  obtain ⟨hfeed, hsession⟩ := hmark
  have hiff : t.feed.profile = s.feed.profile ↔ s'.feed.effectiveUrl = s.feed.effectiveUrl ∧
      s.feed.lastSuccessfulFetchAt = some now := by
    have hprof : t.feed.profile = { s.feed.profile with
        effectiveUrl := s'.feed.effectiveUrl
        lastSuccessfulFetchAt := some now } := by
      rw [hfeed]
      show (s'.feed.withLifecycle _).profile = _
      rw [Feed.profile_withLifecycle, Mark.apply_notModified_lastSuccessfulFetchAt,
        Mark.apply_createdAt, h.profile]
      exact congrArg (Profile.mk _ _ _ _ _ · _ _) (congrArg Feed.createdAt h.feed)
    rw [hprof, Profile.eq_self_iff]
    exact ⟨fun ha ↦ ⟨ha.1, ha.2.2.1.symm⟩, fun ha ↦ ⟨ha.1, rfl, ha.2.symm, rfl, rfl⟩⟩
  constructor
  · exact fun ha ↦ hiff.mp ha.row
  · refine fun ha ↦ ⟨hiff.mpr ha, fun _ ↦ ?_⟩
    rw [hsession, h.session]
    rfl

/-- What marking a success writes into the profile is there already. -/
theorem succeed_row_iff (h : Reached now s s') {d : Session}
    (ht : t = FetchState.succeed cfg now parsed.title headers { s' with session := d }) :
    t.feed.profile = s.feed.profile ↔ s'.feed.effectiveUrl = s.feed.effectiveUrl ∧
      (truthy parsed.title → parsed.title = s.feed.title) ∧
      s.feed.lastSuccessfulFetchAt = some now ∧
      (∀ v ∈ headers.get "etag".toList, s.feed.etag = some v) ∧
      ∀ v ∈ headers.get "last-modified".toList, s.feed.lastModified = some v := by
  have hprof : t.feed.profile = ⟨s.feed.id, s.feed.url, s'.feed.effectiveUrl,
      if truthy parsed.title then parsed.title else s.feed.title, some now, s.feed.createdAt,
      (headers.get "etag".toList).or s.feed.etag,
      (headers.get "last-modified".toList).or s.feed.lastModified⟩ := by
    subst ht
    show (rememberValidators headers ((s'.feed.retitle parsed.title).withLifecycle
      ((Mark.success now).apply _ _ (s'.feed.retitle parsed.title).lifecycle))).profile = _
    rw [Feed.retitle_lifecycle, Mark.apply_success, Feed.retitle_eq]
    conv_lhs => rw [h.feed]
    rfl
  rw [hprof]
  refine (Profile.eq_self_iff (p := s.feed.profile)).trans (and_congr Iff.rfl (and_congr ?_
    (and_congr eq_comm (and_congr (or_eq_self_iff _ _) (or_eq_self_iff _ _)))))
  split
  · rename_i htitle
    exact ⟨fun ha _ ↦ ha, fun ha ↦ ha htitle⟩
  · rename_i htitle
    exact ⟨fun _ ha ↦ absurd ha htitle, fun _ ↦ rfl⟩

/-- What storing a document writes into the table is there already. -/
theorem succeed_entries_iff (h : Reached now s s') (hs : s.session.abortedBy = none) {n : Nat}
    (ht : t = FetchState.succeed cfg now parsed.title headers { s' with
      session := { Session.upsertAll s'.feed.id now up.dbNow (FeedgateFetcher.batchOf cfg s' parsed)
        s'.session with executed := n } }) :
    (t.session.abortedBy = none →
      t.session.ofFeed s.feed.id = s.session.ofFeed s.feed.id) ↔
        s.session.Reflects s.feed.id up.dbNow (FeedgateFetcher.batchOf cfg s parsed) := by
  have hid : s'.feed.id = s.feed.id := by rw [h.feed]
  have hsession : t.session = { Session.upsertAll s.feed.id now up.dbNow
      (FeedgateFetcher.batchOf cfg s parsed) s.session with executed := n } := by
    subst ht
    show { Session.upsertAll s'.feed.id now up.dbNow _ s'.session with executed := n } = _
    rw [h.batchOf, hid, h.session, upsertAll_executed]
  have hab : t.session.abortedBy = none := by
    rw [hsession]
    exact (upsertAll_abortedBy _ _).trans hs
  have hof : t.session.ofFeed s.feed.id = (Session.upsertAll s.feed.id now up.dbNow
      (FeedgateFetcher.batchOf cfg s parsed) s.session).ofFeed s.feed.id := by
    rw [hsession]
    rfl
  rw [hof, ← Session.upsertAll_ofFeed_eq_iff now]
  exact ⟨fun ha ↦ ha hab, fun ha _ ↦ ha⟩

/-- A document that is stored before the branch raises. -/
theorem succeed_atomic_iff (h : Reached now s s') (hs : s.session.abortedBy = none) {n : Nat}
    (ht : t = FetchState.succeed cfg now parsed.title headers { s' with
      session := { Session.upsertAll s'.feed.id now up.dbNow (FeedgateFetcher.batchOf cfg s' parsed)
        s'.session with executed := n } }) :
    Atomic s t ↔ s'.feed.effectiveUrl = s.feed.effectiveUrl ∧
      Repeats up cfg now s headers parsed := by
  constructor
  · rintro ⟨hr, he⟩
    obtain ⟨h₁, h₂, h₃, h₄, h₅⟩ := (h.succeed_row_iff ht).mp hr
    exact ⟨h₁, h₂, h₃, h₄, h₅, (h.succeed_entries_iff hs ht).mp he⟩
  · rintro ⟨h₁, hrep⟩
    exact ⟨(h.succeed_row_iff ht).mpr ⟨h₁, hrep.title, hrep.fetched, hrep.etag,
      hrep.lastModified⟩, (h.succeed_entries_iff hs ht).mpr hrep.entries⟩

theorem document_atomic_iff (h : Reached now s s') (hs : s.session.abortedBy = none) {exc : Exc}
    (hr : storeDocument up cfg now headers body s' = (.error exc, t)) :
    Atomic s t ↔ s'.feed.effectiveUrl = s.feed.effectiveUrl ∧
      Spares up cfg now s (.document headers body) := by
  have hs' : s'.session.abortedBy = none := by
    rw [h.session]
    exact hs
  cases hct : isNotAFeedContentType (headers.get "content-type".toList) with
  | true =>
      rw [storeDocument_of_html hct] at hr
      cases hr
      have hspares : Spares up cfg now s (.document headers body) := by
        intro hf
        rw [hct] at hf
        cases hf
      exact (h.atomic_iff rfl fun _ ↦ rfl).trans (and_iff_left hspares).symm
  | false =>
      cases hp : parseFeed up.feedparser body with
      | error e =>
          rw [storeDocument_of_parse_error hct hp] at hr
          cases hr
          have hspares : Spares up cfg now s (.document headers body) := by
            intro _ parsed hf
            rw [hp] at hf
            cases hf
          exact (h.atomic_iff rfl fun _ ↦ rfl).trans (and_iff_left hspares).symm
      | ok parsed =>
          have hspares : Spares up cfg now s (.document headers body) ↔
              (StoreAccepted up cfg s (s.session.executed + 1) parsed →
                Repeats up cfg now s headers parsed) := by
            refine ⟨fun ha ↦ ha hct parsed hp, fun ha _ p hf ↦ ?_⟩
            obtain rfl : parsed = p := Except.ok.inj (hp.symm.trans hf)
            exact ha
          by_cases hacc : StoreAccepted up cfg s (s.session.executed + 1) parsed
          · obtain ⟨n, hst⟩ := storeEntries_of_accepted now hs' (h.storeAccepted.mpr hacc)
            rw [storeDocument_of_stored hct hp hst] at hr
            cases hh : parseCacheHint headers now with
            | ok hint =>
                rw [hh] at hr
                cases hr
            | error e =>
                rw [hh] at hr
                cases hr
                rw [h.succeed_atomic_iff hs rfl, hspares]
                exact and_congr_right fun _ ↦ ⟨fun ha _ ↦ ha, fun ha ↦ ha hacc⟩
          · obtain ⟨d, hst, hab⟩ := storeEntries_of_rejected now hs'
              (mt h.storeAccepted.mp hacc)
            rw [storeDocument_of_store_error hct hp hst] at hr
            cases hr
            rw [hspares, and_iff_left fun ha ↦ absurd ha hacc]
            exact h.atomic_iff (t := { s' with session := d }) rfl fun ha ↦ absurd ha hab

theorem rateLimited_atomic_iff (h : Reached now s s') {exc : Exc}
    (hr : handleRateLimited cfg now headers s' = (.error exc, t)) :
    Atomic s t ↔ s'.feed.effectiveUrl = s.feed.effectiveUrl := by
  cases hh : parseRetryAfter (headers.get "retry-after".toList) now with
  | error e =>
      rw [handleRateLimited_of_error hh] at hr
      cases hr
      exact h.atomic_iff rfl fun _ ↦ rfl
  | ok retryAfter =>
      rw [handleRateLimited_of_ok hh] at hr
      cases hw : addWholeSeconds now (max (retryAfter.getD 0) cfg.fetchIntervalSeconds) with
      | error e =>
          rw [hw] at hr
          cases hr
          exact h.atomic_iff rfl fun _ ↦ rfl
      | ok next =>
          rw [hw] at hr
          cases hr

/-- A branch that raises leaves the row and the table alone exactly when the address had not
moved and the answer is one that spares them. -/
theorem respond_atomic_iff (h : Reached now s s') (hs : s.session.abortedBy = none) {exc : Exc}
    {x : Exchange} (hr : respond up cfg now weekly x s' = (.error exc, t)) :
    Atomic s t ↔ s'.feed.effectiveUrl = s.feed.effectiveUrl ∧ Spares up cfg now s x := by
  cases x with
  | notModified headers => exact h.notModified_atomic_iff hr
  | rateLimited headers => exact (h.rateLimited_atomic_iff hr).trans (and_iff_left trivial).symm
  | document headers body => exact h.document_atomic_iff hs hr

end Reached

/-! ## The call -/

/-- Recording the failure and scheduling touch neither the profile nor the session. -/
theorem recordFailure_profile {exc : Exc} {r : Except Exc Flow}
    (h : recordFailure cfg now exc s = (r, t)) :
    t.feed.profile = s.feed.profile ∧ t.session = s.session := by
  have hmark : ∀ D : Int, (s.feed.withLifecycle ((Mark.failure now (classifyError exc)).apply
      cfg.brokenThreshold D s.feed.lifecycle)).profile = s.feed.profile := fun D ↦ rfl
  rcases recordFailure_cases cfg now exc s with h' | ⟨e, h'⟩
  · rw [h'] at h
    cases h
    exact ⟨hmark _, rfl⟩
  · rw [h'] at h
    cases h
    exact ⟨hmark _, rfl⟩

theorem schedule_profile {r : Except Exc PUnit} (h : schedule up cfg now weekly s = (r, t)) :
    t.feed.profile = s.feed.profile ∧ t.session = s.session := by
  have hk := (keeps_schedule (p := fun s ↦ (s.feed.profile, s.session)) up cfg now weekly
    fun _ _ ↦ rfl).eq_of_run h
  exact ⟨congrArg Prod.fst hk, congrArg Prod.snd hk⟩

/-- A call that reaches the `except` clause ends as its `try` block left it, as far as the
profile and the session go. -/
theorem fetchOne_of_failure {code : ErrorCode} (h : failureCode up cfg now s = some code) :
    ∃ weekly s₁ exc s₂, prepare up now s = (.ok weekly, s₁) ∧
      attempt up cfg now weekly s₁ = (.error exc, s₂) ∧
      (fetchOne up cfg now s).2.feed.profile = s₂.feed.profile ∧
      (fetchOne up cfg now s).2.session = s₂.session := by
  have hrun := fetchOne_run up cfg now s
  generalize (fetchOne up cfg now s).1 = r at hrun
  generalize (fetchOne up cfg now s).2 = t at hrun ⊢
  unfold failureCode at h
  cases hrun with
  | unprepared hp =>
      rw [hp] at h
      cases h
  | returned hp ha =>
      rw [hp] at h
      simp only [ha] at h
      cases h
  | completed hp ha _ =>
      rw [hp] at h
      simp only [ha] at h
      cases h
  | failed hp ha hf hs =>
      obtain ⟨hprof, hsess⟩ := recordFailure_profile hf
      obtain ⟨hprof', hsess'⟩ := schedule_profile hs
      exact ⟨_, _, _, _, hp, ha, hprof'.trans hprof, hsess'.trans hsess⟩
  | lost hp ha hf =>
      obtain ⟨hprof, hsess⟩ := recordFailure_profile hf
      exact ⟨_, _, _, _, hp, ha, hprof, hsess⟩

/-- A failed fetch leaves everything but the columns of an attempt as it was exactly when the
feed had not moved for good and the answer, if there was one, had nothing new to say. -/
theorem failed_fetch_atomic_iff {code : ErrorCode} (h : failureCode up cfg now s = some code) :
    Atomic s (fetchOne up cfg now s).2 ↔
      (∀ url ∈ (directResponse up cfg s).bind Response.permanentAddress,
        url = s.feed.effectiveUrl) ∧
      ∀ x ∈ answerOf up cfg now s, Spares up cfg now s x := by
  obtain ⟨weekly, s₁, exc, s₂, hp, ha, hprof, hsess⟩ := fetchOne_of_failure h
  have hs : s.session.abortedBy = none := (prepare_ok hp).1
  have hcongr : Atomic s (fetchOne up cfg now s).2 ↔ Atomic s s₂ := by
    constructor
    · exact fun hat ↦ ⟨hprof ▸ hat.row, hsess ▸ hat.entries⟩
    · exact fun hat ↦ ⟨hprof.trans hat.row, hsess.symm ▸ hat.entries⟩
  have haddress : ∀ {r : Except Exc Exchange} {s' : FetchState}, contact up cfg s₁ = (r, s') →
      (s'.feed.effectiveUrl = s.feed.effectiveUrl ↔
        ∀ url ∈ (directResponse up cfg s).bind Response.permanentAddress,
          url = s.feed.effectiveUrl) := by
    intro r s' hc
    have hurl := contact_effectiveUrl hc
    rw [(prepare_ok hp).2] at hurl
    have hurl' : s'.feed.effectiveUrl =
        ((directResponse up cfg s).bind Response.permanentAddress).getD s.feed.effectiveUrl := hurl
    rw [hurl']
    cases (directResponse up cfg s).bind Response.permanentAddress with
    | none => exact iff_of_true rfl nofun
    | some u => exact ⟨fun hu v hv ↦ Option.mem_some.mp hv ▸ hu, fun hu ↦ hu u rfl⟩
  rw [hcongr]
  rw [attempt_eq] at ha
  rcases hc : contact up cfg s₁ with ⟨exc' | x, s'⟩
  · rw [Act.bind_of_error hc] at ha
    cases ha
    have hnone : answerOf up cfg now s = none := by
      unfold answerOf
      rw [hp]
      simp only [hc]
    rw [hnone, ← haddress hc, and_iff_left fun x hx ↦ nomatch hx]
    exact (Reached.of_contact hp hc).atomic_iff rfl fun _ ↦ rfl
  · rw [Act.bind_of_ok hc] at ha
    have hsome : answerOf up cfg now s = some x := by
      unfold answerOf
      rw [hp]
      simp only [hc]
    rw [hsome, ← haddress hc, (Reached.of_contact hp hc).respond_atomic_iff hs ha]
    exact and_congr_right fun _ ↦
      ⟨fun hx y hy ↦ Option.mem_some.mp hy ▸ hx, fun hx ↦ hx x rfl⟩

end

/-- An origin whose document has one entry and an `Expires` date in a year that is no C integer. -/
def farExpires : Upstream :=
  .delivering 200 [("Expires".toList, "Fri, 31 Dec 99999999999 23:59:59 GMT".toList)]
    { title := some ['t'], entries := [{ id := some ['g'] }] }

/-- The document is stored and marked as a success, and then the fetch is counted as a failure. -/
theorem farExpires_not_atomic :
    failureCode farExpires {} .year2000 .firstFetch = some .other ∧
    (fetchOne farExpires {} .year2000 .firstFetch).2.feed.consecutiveFailures = 1 ∧
    (fetchOne farExpires {} .year2000 .firstFetch).2.feed.lastSuccessfulFetchAt =
      some .year2000 ∧
    ¬Atomic .firstFetch (fetchOne farExpires {} .year2000 .firstFetch).2 := by
  have hfetched : (fetchOne farExpires {} .year2000 .firstFetch).2.feed.lastSuccessfulFetchAt =
      some .year2000 := by decide +kernel
  refine ⟨by decide +kernel, by decide +kernel, hfetched, fun h ↦ ?_⟩
  have hrow := congrArg Profile.lastSuccessfulFetchAt h.row
  exact absurd (hfetched.symm.trans hrow) nofun

/-- A fetch that times out is atomic. -/
theorem timeout_atomic : Atomic .firstFetch (fetchOne .silent {} .year2000 .firstFetch).2 := by
  have hfailed : failureCode .silent {} .year2000 .firstFetch = some .timeout := by decide +kernel
  refine (failed_fetch_atomic_iff hfailed).mpr ⟨?_, ?_⟩
  · have h : directResponse .silent {} .firstFetch = none := by decide +kernel
    rw [h]
    exact nofun
  · have h : answerOf .silent {} .year2000 .firstFetch = none := by decide +kernel
    rw [h]
    exact nofun

end FeedgateFetcher
