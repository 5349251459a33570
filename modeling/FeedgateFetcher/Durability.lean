import FeedgateFetcher.Fetcher.EntryTable
import FeedgateFetcher.Runs

/-!
# Failures of the database

A rejected upsert aborts the transaction that also carries the bookkeeping of the
fetch.  `fetch_one` counts the failure on the loaded row, but the update of the
row is rejected with the rest of the transaction, and `_process_feed` rolls it
back: no such failure is ever accounted.
-/

namespace FeedgateFetcher

open Python Logic

/-! ## Aborted transactions -/

theorem upsertEntries_ok {fails : Nat → Bool} {feedId : Int} {now dbNow : Datetime}
    {ps : List ParsedEntry} {d d' : Session}
    (h : upsertEntries fails feedId now dbNow ps d = (.ok ⟨⟩, d')) (hd : d.abortedBy = none) :
    d'.abortedBy = none := by
  induction ps generalizing d with
  | nil =>
      cases h
      exact hd
  | cons p ps ih =>
      unfold upsertEntries at h
      rcases he : Session.execute fails (.upsertEntry p)
          (fun s ↦ ((⟨⟩ : PUnit), upsertEntry feedId now dbNow p s)) d with ⟨exc | _, d₁⟩
      · rw [Act.bind_of_error he] at h
        cases h
      · rw [Act.bind_of_ok he] at h
        obtain ⟨-, -, -, rfl⟩ := Session.execute_ok he
        refine ih h ?_
        simpa using hd

section

variable {up : Upstream} {cfg : Settings} {now : Datetime} {weekly : Nat} {s t : FetchState}

/-- Entries are stored only by a transaction that stays alive. -/
theorem storeEntries_ok {entries : List ParsedEntry}
    (h : storeEntries up cfg now entries s = (.ok ⟨⟩, t)) (hs : s.session.abortedBy = none) :
    t.session.abortedBy = none := by
  unfold storeEntries at h
  split at h
  · cases h
    exact hs
  · rw [Act.get_bind_apply] at h
    rcases he : onSession (Session.execute up.statementFails .existsEntries
        fun d ↦ (d.hasEntries s.feed.id, d)) s with ⟨exc | b, s₁⟩
    · rw [Act.bind_of_error he] at h
      cases h
    · rw [Act.bind_of_ok he] at h
      obtain ⟨-, -, -, hs₁⟩ := Session.execute_ok (onSession_eq he).1
      exact upsertEntries_ok (onSession_eq h).1 (by rw [hs₁]; exact hs)

/-- A branch that ends in an aborted transaction has not come to its bookkeeping. -/
theorem bookkept_of_aborted {x : Exchange} {r : Except Exc Flow}
    (h : respond up cfg now weekly x s = (r, t)) (hs : s.session.abortedBy = none)
    (ht : t.session.abortedBy ≠ none) : bookkept up cfg now s x = false := by
  cases x with
  | notModified headers =>
      exact absurd ((keeps_handleNotModified (p := FetchState.session) (fun _ _ ↦ rfl)
        (fun _ _ ↦ rfl) (fun _ _ ↦ rfl) headers).eq_of_run h ▸ hs) ht
  | rateLimited headers =>
      exact absurd ((keeps_handleRateLimited (p := FetchState.session) (fun _ _ ↦ rfl)
        (fun _ _ ↦ rfl) headers).eq_of_run h ▸ hs) ht
  | document headers body =>
      change storeDocument up cfg now headers body s = (r, t) at h
      unfold bookkept
      dsimp only
      cases hct : isNotAFeedContentType (headers.get "content-type".toList) with
      | true => rfl
      | false =>
          cases hp : parseFeed up.feedparser body with
          | error exc => rfl
          | ok parsed =>
              rcases hst : storeEntries up cfg now parsed.entries s with ⟨exc | _, s₁⟩
              · simp only [hst]
                rfl
              · have hs₁ := storeEntries_ok hst hs
                rw [storeDocument_of_stored hct hp hst] at h
                cases hh : parseCacheHint headers now with
                | error e =>
                    rw [hh] at h
                    cases h
                    exact absurd hs₁ ht
                | ok hint =>
                    rw [hh] at h
                    cases h
                    exact absurd hs₁ ht

/-- A `try` block that ends in an aborted transaction raises before any bookkeeping. -/
theorem attempt_of_aborted {r : Except Exc Flow} (h : attempt up cfg now weekly s = (r, t))
    (hs : s.session.abortedBy = none) (ht : t.session.abortedBy ≠ none) :
    ∃ exc, r = .error exc ∧ attemptOutcome up cfg now weekly s = .failed (classifyError exc) := by
  rw [attempt_eq] at h
  rcases hc : contact up cfg s with ⟨exc | x, s₁⟩
  · rw [Act.bind_of_error hc] at h
    cases h
    exact ⟨exc, rfl, attemptOutcome_of_error hc⟩
  · rw [Act.bind_of_ok hc] at h
    have hs₁ : s₁.session.abortedBy = none := by
      have hk := congrArg Account.session ((keeps_account_contact up cfg).eq_of_run hc)
      exact (congrArg Session.abortedBy hk).trans hs
    have hb := bookkept_of_aborted h hs₁ ht
    have hr := respond_concluded up cfg now weekly x s₁
    rw [Act.ensures_of_run h, hb] at hr
    obtain ⟨⟨exc, rfl⟩, -, -⟩ := hr
    exact ⟨exc, rfl, by rw [attemptOutcome_of_ok hc, respondOutcome_of_error h, hb]; rfl⟩

/-- A call that returns from an aborted transaction has counted one more failure. -/
theorem fetchOne_of_aborted (h : fetchOne up cfg now s = (.ok ⟨⟩, t))
    (hs : s.session.abortedBy = none) (ht : t.session.abortedBy ≠ none) :
    t.feed.consecutiveFailures = s.feed.consecutiveFailures + 1 := by
  have hrun := fetchOne_run up cfg now s
  rw [h] at hrun
  generalize hr : (Except.ok ⟨⟩ : Except Exc PUnit) = r at hrun
  have hprep : ∀ {weekly : Nat} {s₁ : FetchState}, prepare up now s = (.ok weekly, s₁) →
      s₁.session.abortedBy = none := by
    intro weekly s₁ hp
    rw [(prepare_ok hp).2]
    exact hs
  cases hrun with
  | unprepared _ => cases hr
  | lost _ _ _ => cases hr
  | returned hp ha =>
      obtain ⟨_, hn, -⟩ := attempt_of_aborted ha (hprep hp) ht
      cases hn
  | completed hp ha hsch =>
      have hk := (keeps_schedule (p := FetchState.session) up cfg now _
        fun _ _ ↦ rfl).eq_of_run hsch
      obtain ⟨_, hn, -⟩ := attempt_of_aborted ha (hprep hp) (hk ▸ ht)
      cases hn
  | @failed weekly s₁ s₂ s₃ _ exc _ _ hp ha hf hsch =>
      have hk := (keeps_schedule (p := FetchState.session) up cfg now _
        fun _ _ ↦ rfl).eq_of_run hsch
      have hk' := (keeps_recordFailure (p := FetchState.session) (fun _ _ ↦ rfl) (fun _ _ ↦ rfl)
        exc).eq_of_run hf
      obtain ⟨exc', hexc, ho⟩ := attempt_of_aborted ha (hprep hp) (hk' ▸ hk ▸ ht)
      have hlife := (attempt_leaves ha).history
      rw [ho] at hlife
      obtain ⟨-, rfl⟩ := recordFailure_flow hf
      have h₁ := congrArg (fun p : History ↦ p.1.consecutiveFailures) (schedule_history hsch).1
      have h₂ := congrArg (fun p : History ↦ p.1.consecutiveFailures) hlife
      have h₃ := congrArg (fun p : History ↦ p.1.consecutiveFailures) (prepare_history hp).1
      have h₄ : t.feed.consecutiveFailures = s₂.feed.consecutiveFailures + 1 := h₁
      have h₅ : s₂.feed.consecutiveFailures = s₁.feed.consecutiveFailures := h₂
      have h₆ : s₁.feed.consecutiveFailures = s.feed.consecutiveFailures := h₃
      rw [h₄, h₅, h₆]

/-- In an aborted transaction the update of a changed row is rejected. -/
theorem commit_of_aborted (up : Upstream) {loaded : Feed} (hs : s.session.abortedBy ≠ none)
    (hne : s.feed ≠ loaded) : (commit up loaded s).1 = .error .database := by
  unfold commit
  rw [Act.get_bind_apply, if_pos hne]
  rcases he : onSession (Session.execute up.statementFails .updateFeed
      fun d ↦ ((⟨⟩ : PUnit), d)) s with ⟨exc | _, s₁⟩
  · exact congrArg Except.error (Session.execute_error (onSession_eq he).1).1
  · exact absurd (Session.execute_ok (onSession_eq he).1).1 hs

/-- A commit can only be rejected at the update of the row. -/
theorem commit_abortedBy {loaded : Feed} {r : Except Exc PUnit} {st : Statement}
    (h : commit up loaded s = (r, t)) (hs : s.session.abortedBy = none)
    (ht : t.session.abortedBy = some st) : st = .updateFeed := by
  unfold commit at h
  rw [Act.get_bind_apply] at h
  split at h
  · rcases r with exc | _
    · obtain ⟨-, -, hab⟩ := Session.execute_error (onSession_eq h).1
      rw [hs, ht] at hab
      exact Option.some.inj hab
    · obtain ⟨-, -, -, hd⟩ := Session.execute_ok (onSession_eq h).1
      rw [hd] at ht
      exact absurd (hs.symm.trans ht) nofun
  · cases h
    exact absurd (hs.symm.trans ht) nofun

end

/-! ## Rejected upserts -/

/-- The durable effect of a failure on a row: it is counted, with the code and the transition
that `mark_fetch_failure` prescribes, and the next fetch is scheduled. -/
structure Accounted (cfg : Settings) (now : Datetime) (before after : Feed) : Prop where
  counted : after.consecutiveFailures = before.consecutiveFailures + 1
  code : ∃ code, after.lastErrorCode = some code ∧
    after.lifecycle = (Mark.failure now code).apply cfg.brokenThreshold cfg.deadDurationDays
      before.lifecycle
  scheduled : now < after.nextFetchAt

/-- Whenever a statement of `upsert_entries` is rejected, `_process_feed` rolls back: the row and
the entries stay what they were, and the failure is not accounted. -/
theorem rejected_upsert_not_accounted {up : Upstream} {cfg : Settings} {now : Datetime}
    {s : FetchState} {e : ParsedEntry}
    (h : (processing up cfg now s).2.session.abortedBy = some (.upsertEntry e)) :
    (∃ exc, (processing up cfg now s).1 = .error exc) ∧
      (processFeed up cfg now s).feed = s.feed ∧
      (processFeed up cfg now s).session.entries = s.session.entries ∧
      ¬Accounted cfg now s.feed (processFeed up cfg now s).feed := by
  have hraised : ∃ exc, (processing up cfg now s).1 = .error exc := by
    have hrun := processing_run up cfg now s
    generalize (processing up cfg now s).1 = r at hrun
    generalize (processing up cfg now s).2 = t at hrun h
    cases hrun with
    | unloaded _ => exact ⟨_, rfl⟩
    | raised _ _ => exact ⟨_, rfl⟩
    | @finished s₁ s₂ _ _ hl hf hc =>
        have hs₁ : s₁.session.abortedBy = none := by
          obtain ⟨ha, -, -, hd⟩ := Session.execute_ok (onSession_eq hl).1
          rw [hd]
          exact ha
        by_cases hs₂ : s₂.session.abortedBy = none
        · -- what aborted the transaction would be the update of the row
          exact absurd (commit_abortedBy hc hs₂ h) nofun
        · -- the failure has been counted, so the row is written
          have hcount := fetchOne_of_aborted hf hs₁ hs₂
          have hne : s₂.feed ≠ s₁.feed := by
            intro heq
            rw [heq] at hcount
            omega
          have hr := commit_of_aborted up hs₂ hne
          rw [hc] at hr
          exact ⟨_, hr⟩
  have hnot : isDurable (processing up cfg now s) = false := by
    obtain ⟨exc, hexc⟩ := hraised
    unfold isDurable
    rw [hexc]
    rfl
  have hfeed := processFeed_feed_of_not_durable hnot
  refine ⟨hraised, hfeed, ?_, fun hacc ↦ ?_⟩
  · unfold processFeed
    rw [if_neg (by simp [hnot])]
  · have hcount := hacc.counted
    rw [hfeed] at hcount
    omega

/-- An origin whose feed has one entry, with a NUL character in its title, and a server that
rejects it: the upsert is the fourth statement of the transaction. -/
def rejectedEntry : Upstream :=
  { Upstream.delivering 200 [] { entries := [{ id := some ['g'], title := some ['\x00'] }] } with
    statementFails := fun n ↦ n == 3 }

/-- The failure is not accounted: the row still says that no fetch ever failed. -/
theorem rejectedEntry_lost :
    (processing rejectedEntry {} .year2000 .firstFetch).2.session.abortedBy =
      some (.upsertEntry ⟨['g'], ['g'], some ['\x00'], none, none, none⟩) ∧
    (processFeed rejectedEntry {} .year2000 .firstFetch).feed.consecutiveFailures = 0 ∧
    (processFeed rejectedEntry {} .year2000 .firstFetch).feed.lastErrorCode = none ∧
    ¬Accounted {} .year2000 FetchState.firstFetch.feed
      (processFeed rejectedEntry {} .year2000 .firstFetch).feed := by
  have hcount : (processFeed rejectedEntry {} .year2000 .firstFetch).feed.consecutiveFailures =
      0 := by
    decide +kernel
  refine ⟨by decide +kernel, hcount, by decide +kernel, fun h ↦ ?_⟩
  have h' := h.counted
  rw [hcount] at h'
  exact absurd h' (by decide)

theorem rejectedEntry_unchanged :
    (processFeed rejectedEntry {} .year2000 .firstFetch).feed = FetchState.firstFetch.feed :=
  (rejected_upsert_not_accounted
    (e := ⟨['g'], ['g'], some ['\x00'], none, none, none⟩) (by decide +kernel)).2.1

end FeedgateFetcher
