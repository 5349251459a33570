import Mathlib.Data.List.Sort
import FeedgateFetcher.Fetcher.Outcome

/-!
# The scheduler

`_claim_due_feeds` on the `feeds` table, and `_process_feed`, the transaction
around one call of `fetch_one`.

The claim is one `UPDATE … WHERE id IN (SELECT … FOR UPDATE SKIP LOCKED)`.  The
rows the server meets unlocked, in the order it meets them, are a parameter
`scan`: which rows are locked and how ties of `next_fetch_at` are broken is up to
the server.
-/

namespace FeedgateFetcher

open Python Logic

/-! ## The claim -/

/-- `claim_predicate`, for the two instants it is built from. -/
def claimPredicate (now probeCutoff : Datetime) (f : Feed) : Prop :=
  (f.status ≠ .dead ∧ f.nextFetchAt ≤ now) ∨
    (f.status = .dead ∧ (f.lastAttemptAt = none ∨ ∃ t ∈ f.lastAttemptAt, t < probeCutoff))

instance (now probeCutoff : Datetime) (f : Feed) : Decidable (claimPredicate now probeCutoff f) :=
  inferInstanceAs (Decidable (_ ∨ _))

/-- `claim_ids_stmt`: the due rows by `next_fetch_at`, up to the batch size. -/
def claimIds (now probeCutoff : Datetime) (claimBatchSize : Nat) (scan : List Feed) : List Int :=
  let due := scan.filter fun f ↦ claimPredicate now probeCutoff f
  ((due.insertionSort fun f g ↦ f.nextFetchAt ≤ g.nextFetchAt).take claimBatchSize).map Feed.id

/-- The `SET` of the claim. -/
def Feed.lease (now leaseUntil : Datetime) (f : Feed) : Feed :=
  { f with nextFetchAt := leaseUntil, lastAttemptAt := some now }

/-- `_claim_due_feeds`, with the commit that follows it: the ids it returns and the
table it leaves. -/
def claimDueFeeds (now : Datetime) (claimBatchSize : Nat)
    (claimTtlSeconds deadProbeIntervalDays : Int) (scan table : List Feed) :
    Except PyError (List Int × List Feed) := do
  let probeInterval ← Timedelta.ofDays deadProbeIntervalDays
  let probeCutoff ← now.subDelta probeInterval
  let ids := claimIds now probeCutoff claimBatchSize scan
  let ttl ← Timedelta.ofSeconds claimTtlSeconds
  let leaseUntil ← now.add ttl
  pure
    ((table.filter fun f ↦ f.id ∈ ids).map Feed.id,
      table.map fun f ↦ if f.id ∈ ids then f.lease now leaseUntil else f)

/-- Everything there is to know of a claim that does not raise. -/
theorem claimDueFeeds_ok {now : Datetime} {batch : Nat} {ttl probe : Int} {scan table : List Feed}
    {ids : List Int} {table' : List Feed}
    (h : claimDueFeeds now batch ttl probe scan table = .ok (ids, table')) :
    ∃ probeCutoff leaseUntil : Datetime,
      probeCutoff.micros = now.micros - probe * microsPerDay ∧
      leaseUntil.micros = now.micros + ttl * microsPerSecond ∧
      ids = (table.filter fun f ↦ f.id ∈ claimIds now probeCutoff batch scan).map Feed.id ∧
      table' = table.map fun f ↦
        if f.id ∈ claimIds now probeCutoff batch scan then f.lease now leaseUntil else f := by
  unfold claimDueFeeds at h
  cases hp : Timedelta.ofDays probe with
  | error e => rw [hp] at h; cases h
  | ok probeInterval =>
      cases hc : now.subDelta probeInterval with
      | error e => rw [hp] at h; simp only [bind, Except.bind, hc] at h; cases h
      | ok probeCutoff =>
          cases ht : Timedelta.ofSeconds ttl with
          | error e => rw [hp] at h; simp only [bind, Except.bind, hc, ht] at h; cases h
          | ok d =>
              cases hl : now.add d with
              | error e => rw [hp] at h; simp only [bind, Except.bind, hc, ht, hl] at h; cases h
              | ok leaseUntil =>
                  rw [hp] at h
                  simp only [bind, Except.bind, hc, ht, hl, pure, Except.pure] at h
                  cases h
                  have hp' : probeInterval.micros = probe * microsPerDay :=
                    Timedelta.ofMicros_eq_ok_iff.mp hp
                  have ht' : d.micros = ttl * microsPerSecond := Timedelta.ofMicros_eq_ok_iff.mp ht
                  refine ⟨probeCutoff, leaseUntil, ?_, ?_, rfl, rfl⟩
                  · rw [Datetime.subDelta_eq_ok_iff.mp hc, hp']
                  · rw [Datetime.add_eq_ok_iff.mp hl, ht']

/-! ## One claimed feed -/

/-- `session.commit()`: the columns whose value changed since the row was loaded
are written in one `UPDATE`, and nothing is sent when there are none. -/
def commit (up : Upstream) (loaded : Feed) : Fetch PUnit := do
  let s ← Act.get
  if s.feed ≠ loaded then
    onSession (Session.execute up.statementFails .updateFeed fun d ↦ (⟨⟩, d))
  else pure ⟨⟩

/-- The query that loads the row. -/
def load (up : Upstream) : Fetch PUnit :=
  onSession (Session.execute up.statementFails .selectFeed fun d ↦ (⟨⟩, d))

/-- The `try` block of `_process_feed` for an existing feed. -/
def processing (up : Upstream) (cfg : Settings) (now : Datetime) : Fetch PUnit := do
  load up
  let s ← Act.get
  fetchOne up cfg now
  commit up s.feed

/-- The server turns the commit of an aborted transaction into a rollback. -/
def isDurable (run : Except Exc PUnit × FetchState) : Bool :=
  run.1.isOk && run.2.session.abortedBy.isNone

/-- What `_process_feed` leaves: the row and the entries are those of the session
when it was committed, and those of before when it was rolled back.  What the
process remembers, has counted or has sent is not undone. -/
def processFeed (up : Upstream) (cfg : Settings) (now : Datetime) (s : FetchState) : FetchState :=
  let run := processing up cfg now s
  if isDurable run then run.2
  else
    { run.2 with
      row := { run.2.row with feed := s.feed }
      session := s.session }

/-- `UPDATE feeds SET … WHERE id = …`: the columns of `mine` that differ from the row
it was `loaded` from are written over the `current` row. -/
def Feed.writeBack (loaded mine current : Feed) : Feed where
  id := current.id
  url := if mine.url = loaded.url then current.url else mine.url
  effectiveUrl :=
    if mine.effectiveUrl = loaded.effectiveUrl then current.effectiveUrl else mine.effectiveUrl
  title := if mine.title = loaded.title then current.title else mine.title
  status := if mine.status = loaded.status then current.status else mine.status
  lastSuccessfulFetchAt :=
    if mine.lastSuccessfulFetchAt = loaded.lastSuccessfulFetchAt then
      current.lastSuccessfulFetchAt
    else mine.lastSuccessfulFetchAt
  lastAttemptAt :=
    if mine.lastAttemptAt = loaded.lastAttemptAt then current.lastAttemptAt else mine.lastAttemptAt
  lastErrorCode :=
    if mine.lastErrorCode = loaded.lastErrorCode then current.lastErrorCode else mine.lastErrorCode
  createdAt := if mine.createdAt = loaded.createdAt then current.createdAt else mine.createdAt
  nextFetchAt :=
    if mine.nextFetchAt = loaded.nextFetchAt then current.nextFetchAt else mine.nextFetchAt
  consecutiveFailures :=
    if mine.consecutiveFailures = loaded.consecutiveFailures then current.consecutiveFailures
    else mine.consecutiveFailures
  etag := if mine.etag = loaded.etag then current.etag else mine.etag
  lastModified :=
    if mine.lastModified = loaded.lastModified then current.lastModified else mine.lastModified

/-! ### The runs of `_process_feed` -/

section

variable {up : Upstream} {cfg : Settings} {now : Datetime} {s t : FetchState}

/-- The ways through the `try` block of `_process_feed`. -/
inductive ProcessRun (up : Upstream) (cfg : Settings) (now : Datetime) (s : FetchState) :
    Except Exc PUnit → FetchState → Prop
  /-- The row cannot be loaded. -/
  | unloaded {exc : Exc} {t : FetchState} : load up s = (.error exc, t) →
    ProcessRun up cfg now s (.error exc) t
  /-- `fetch_one` raises. -/
  | raised {s₁ t : FetchState} {exc : Exc} : load up s = (.ok ⟨⟩, s₁) →
    fetchOne up cfg now s₁ = (.error exc, t) → ProcessRun up cfg now s (.error exc) t
  /-- `fetch_one` returns, and its changes are flushed. -/
  | finished {s₁ s₂ t : FetchState} {r : Except Exc PUnit} : load up s = (.ok ⟨⟩, s₁) →
    fetchOne up cfg now s₁ = (.ok ⟨⟩, s₂) → commit up s₁.feed s₂ = (r, t) →
    ProcessRun up cfg now s r t

theorem processing_run (up : Upstream) (cfg : Settings) (now : Datetime) (s : FetchState) :
    ProcessRun up cfg now s (processing up cfg now s).1 (processing up cfg now s).2 := by
  change Act.Ensures (processing up cfg now) s (ProcessRun up cfg now s)
  rw [processing, Act.ensures_bind]
  rcases hl : load up s with ⟨exc | _, s₁⟩
  · rw [Act.ensures_of_run hl, Act.through_error]
    exact .unloaded hl
  rw [Act.ensures_of_run hl, Act.through_ok, Act.ensures_bind,
    Act.ensures_of_run (Act.get_apply s₁), Act.through_ok, Act.ensures_bind]
  rcases hf : fetchOne up cfg now s₁ with ⟨exc | _, s₂⟩
  · rw [Act.ensures_of_run hf, Act.through_error]
    exact .raised hl hf
  · rw [Act.ensures_of_run hf, Act.through_ok]
    exact .finished hl hf rfl

/-- Loading and committing touch the session only. -/
theorem load_frame {r : Except Exc PUnit} (h : load up s = (r, t)) :
    t = { s with session := t.session } := (onSession_eq h).2

theorem commit_frame {loaded : Feed} {r : Except Exc PUnit} (h : commit up loaded s = (r, t)) :
    t = { s with session := t.session } := by
  unfold commit at h
  rw [Act.get_bind_apply] at h
  split at h
  · exact (onSession_eq h).2
  · cases h
    rfl

theorem processFeed_of_durable (h : isDurable (processing up cfg now s) = true) :
    processFeed up cfg now s = (processing up cfg now s).2 := by
  unfold processFeed
  rw [if_pos h]

/-- A rollback restores the row. -/
theorem processFeed_feed_of_not_durable (h : isDurable (processing up cfg now s) = false) :
    (processFeed up cfg now s).feed = s.feed := by
  unfold processFeed
  rw [if_neg (by simp [h])]
  rfl

end

end FeedgateFetcher
