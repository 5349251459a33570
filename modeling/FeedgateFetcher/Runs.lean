import FeedgateFetcher.Fetcher.Scheduler
import FeedgateFetcher.Logic.Transition

/-!
# Runs of one feed

The life of one feed from its registration on: it is claimed, processed and
reactivated any number of times, in any order and at any instants.  Each
operation that is committed puts the marks of its outcome on the row, so the
invariants of the lifecycle machine hold in every run.
-/

namespace FeedgateFetcher

open Python Logic

/-! ## One transaction -/

/-- The failure that a `_process_feed` records. -/
def processingFailure (up : Upstream) (cfg : Settings) (now : Datetime) (s : FetchState) :
    Option ErrorCode :=
  match load up s with
  | (.ok _, s₁) => failureCode up cfg now s₁
  | (.error _, _) => none

section

variable {up : Upstream} {cfg : Settings} {now : Datetime} {s t : FetchState}

theorem processingFailure_of_ok {s₁ : FetchState} (h : load up s = (.ok ⟨⟩, s₁)) :
    processingFailure up cfg now s = failureCode up cfg now s₁ := by
  unfold processingFailure
  rw [h]

theorem load_history {r : Except Exc PUnit} (h : load up s = (r, t)) :
    t.history = s.history ∧ t.observed = s.observed := by
  rw [load_frame h]
  exact ⟨rfl, rfl⟩

theorem commit_history {loaded : Feed} {r : Except Exc PUnit} (h : commit up loaded s = (r, t)) :
    t.history = s.history ∧ t.observed = s.observed := by
  rw [commit_frame h]
  exact ⟨rfl, rfl⟩

/-- What a `_process_feed` amounts to, when it reaches the `try` block of `fetch_one`. -/
def processingOutcome (up : Upstream) (cfg : Settings) (now : Datetime) (s : FetchState) :
    Option Outcome :=
  match load up s with
  | (.ok _, s₁) => outcomeOf up cfg now s₁
  | (.error _, _) => none

theorem processingFailure_eq (up : Upstream) (cfg : Settings) (now : Datetime) (s : FetchState) :
    processingFailure up cfg now s = (processingOutcome up cfg now s).bind Outcome.failure := by
  unfold processingFailure processingOutcome
  rcases load up s with ⟨exc | _, s₁⟩
  · rfl
  · exact failureCode_eq up cfg now s₁

/-- A `_process_feed` that is committed has loaded the row, fetched and flushed. -/
theorem processing_of_durable (h : isDurable (processing up cfg now s) = true) :
    ∃ s₁ s₂, load up s = (.ok ⟨⟩, s₁) ∧ fetchOne up cfg now s₁ = (.ok ⟨⟩, s₂) ∧
      commit up s₁.feed s₂ = (.ok ⟨⟩, (processing up cfg now s).2) := by
  have hrun := processing_run up cfg now s
  have hok : (processing up cfg now s).1 = .ok ⟨⟩ := by
    unfold isDurable at h
    rcases hp : (processing up cfg now s).1 with exc | _
    · rw [hp] at h
      cases h
    · rfl
  rw [hok] at hrun
  generalize (processing up cfg now s).2 = t at hrun ⊢
  generalize hres : (Except.ok ⟨⟩ : Except Exc PUnit) = r at hrun
  cases hrun with
  | unloaded _ => cases hres
  | raised _ _ => cases hres
  | finished hl hf hc =>
      cases hres
      exact ⟨_, _, hl, hf, hc⟩

/-- A `_process_feed` that is committed does what its outcome says. -/
theorem processing_outcome (h : isDurable (processing up cfg now s) = true) :
    ∃ o, processingOutcome up cfg now s = some o ∧
      (processing up cfg now s).2.observed = s.observed ++ [o.result] ∧
      (processing up cfg now s).2.history =
        runMarks cfg.brokenThreshold cfg.deadDurationDays (o.marks now) s.history := by
  obtain ⟨s₁, s₂, hl, hf, hc⟩ := processing_of_durable h
  obtain ⟨o, ho, hobs, hlife⟩ := fetchOne_outcome hf
  obtain ⟨hlife₁, hobs₁⟩ := load_history hl
  obtain ⟨hlife₂, hobs₂⟩ := commit_history hc
  refine ⟨o, ?_, ?_, ?_⟩
  · unfold processingOutcome
    rw [hl]
    exact ho
  · rw [hobs₂, hobs, hobs₁]
  · rw [hlife₂, hlife, hlife₁]

/-- Every transition of a `_process_feed` is legal, committed or not. -/
theorem processing_lawful (up : Upstream) (cfg : Settings) (now : Datetime) (s : FetchState) :
    Lawful cfg.deadDurationDays
      ⟨processingFailure up cfg now s, (processing up cfg now s).2.feed.lifecycle.elapsed now⟩
      s.history (processing up cfg now s).2.history := by
  have hrun := processing_run up cfg now s
  generalize (processing up cfg now s).1 = r at hrun
  generalize (processing up cfg now s).2 = t at hrun ⊢
  cases hrun with
  | unloaded hl =>
      rw [(load_history hl).1]
      exact .refl _
  | raised hl hf =>
      rw [processingFailure_of_ok hl, ← (load_history hl).1]
      exact fetchOne_lawful hf
  | finished hl hf hc =>
      have hlife : t.feed.lifecycle = _ := congrArg Prod.fst (commit_history hc).1
      rw [processingFailure_of_ok hl, ← (load_history hl).1, (commit_history hc).1, hlife]
      exact fetchOne_lawful hf

end

/-! ## Operations -/

/-- An operation on the feed, with all that it depends on. -/
inductive Operation where
  /-- A claim by a scheduler that meets the rows `scan`. -/
  | claim (now : Datetime) (scan : List Feed)
  /-- A `_process_feed`, in a process that has cached the hosts `domains`. -/
  | process (up : Upstream) (now : Datetime) (session : Session) (domains : List Text)
  | reactivate (now : Datetime)

namespace Tracked

/-- The history of a row. -/
def history (r : Tracked) : History := (r.feed.lifecycle, r.transitions)

end Tracked

namespace Operation

/-- The row as the operation leaves it in memory, with the transitions it reports. -/
def inMemory (cfg : Settings) (r : Tracked) : Operation → Tracked
  | .claim now scan =>
    match claimDueFeeds now cfg.fetchClaimBatchSize cfg.fetchClaimTtlSeconds
        cfg.deadProbeIntervalDays scan [r.feed] with
    | .ok (_, [f]) => { r with feed := f }
    | _ => r
  | .process up now session domains => (processing up cfg now (r.loaded session domains)).2.row
  | .reactivate now => reactivateFeed now r

/-- The row that the operation leaves in the table. -/
def apply (cfg : Settings) (r : Tracked) : Operation → Tracked
  | .process up now session domains => (processFeed up cfg now (r.loaded session domains)).row
  | op => op.inMemory cfg r

/-- The failure that the operation counts, if any. -/
def failure (cfg : Settings) (r : Tracked) : Operation → Option ErrorCode
  | .process up now session domains => processingFailure up cfg now (r.loaded session domains)
  | _ => none

/-- The instant of the last counted failure after the operation: a failure whose
transaction is rolled back is not counted. -/
def lastFailure (cfg : Settings) (r : Tracked) (before : Option Datetime) :
    Operation → Option Datetime
  | .process up now session domains =>
    if isDurable (processing up cfg now (r.loaded session domains)) ∧
        (processingFailure up cfg now (r.loaded session domains)).isSome then some now
    else before
  | _ => before

/-- What is going on during the transitions of the operation. -/
def circumstance (cfg : Settings) (r : Tracked) : Operation → Circumstance
  | .process up now session domains =>
    ⟨processingFailure up cfg now (r.loaded session domains),
      (processing up cfg now (r.loaded session domains)).2.feed.lifecycle.elapsed now⟩
  | _ => ⟨none, 0⟩

end Operation

section

variable {cfg : Settings} {r : Tracked}

/-- A claim leases the row or leaves it alone. -/
theorem claim_cases (cfg : Settings) (r : Tracked) (now : Datetime) (scan : List Feed) :
    (Operation.claim now scan).inMemory cfg r = r ∨
      ∃ leaseUntil, (Operation.claim now scan).inMemory cfg r =
        { r with feed := r.feed.lease now leaseUntil } := by
  unfold Operation.inMemory
  dsimp only
  split
  · rename_i f h
    obtain ⟨_, leaseUntil, -, -, -, hf⟩ := claimDueFeeds_ok h
    rw [List.map_cons, List.map_nil, List.cons.injEq] at hf
    rw [hf.1]
    split
    · exact .inr ⟨leaseUntil, rfl⟩
    · exact .inl rfl
  · exact .inl rfl

/-- A claim is invisible to the lifecycle. -/
theorem claim_history (now : Datetime) (scan : List Feed) :
    ((Operation.claim now scan).inMemory cfg r).history = r.history := by
  rcases claim_cases cfg r now scan with h | ⟨_, h⟩
  · rw [h]
  · rw [h]
    rfl

theorem reactivate_history (cfg : Settings) (r : Tracked) (now : Datetime) :
    (reactivateFeed now r).history =
      Mark.reactivate.run cfg.brokenThreshold cfg.deadDurationDays r.history := by
  rw [reactivateFeed_eq cfg.brokenThreshold cfg.deadDurationDays]
  rfl

/-- Every transition that an operation reports is legal, committed or not. -/
theorem Operation.lawful (cfg : Settings) (r : Tracked) (op : Operation) :
    Lawful cfg.deadDurationDays (op.circumstance cfg r) r.history (op.inMemory cfg r).history := by
  cases op with
  | claim now scan =>
      rw [claim_history]
      exact .refl _
  | process up now session domains => exact processing_lawful up cfg now (r.loaded session domains)
  | reactivate now =>
      change Lawful _ _ _ (reactivateFeed now r).history
      rw [reactivate_history cfg]
      exact .mark (.inl rfl) nofun

/-- An operation leaves the row it has in memory, or the row of before. -/
theorem Operation.apply_feed (cfg : Settings) (r : Tracked) (op : Operation) :
    (op.apply cfg r).feed = (op.inMemory cfg r).feed ∨ (op.apply cfg r).feed = r.feed := by
  cases op with
  | claim now scan => exact .inl rfl
  | reactivate now => exact .inl rfl
  | process up now session domains =>
      by_cases h : isDurable (processing up cfg now (r.loaded session domains)) = true
      · left
        exact congrArg FetchState.feed (processFeed_of_durable h)
      · right
        exact processFeed_feed_of_not_durable (by simpa using h)

/-! ## The invariant -/

variable {lastFailure : Option Datetime}

theorem Outcome.consistent (hT : 1 ≤ cfg.brokenThreshold) (o : Outcome) (now : Datetime)
    {p : History} (h : p.1.Consistent cfg.brokenThreshold cfg.deadDurationDays lastFailure) :
    (runMarks cfg.brokenThreshold cfg.deadDurationDays (o.marks now) p).1.Consistent
      cfg.brokenThreshold cfg.deadDurationDays
      (if o.failure.isSome then some now else lastFailure) := by
  have hans : ∀ a : Answered, ((a.mark now).apply cfg.brokenThreshold cfg.deadDurationDays
      p.1).Consistent cfg.brokenThreshold cfg.deadDurationDays lastFailure := by
    intro a
    have := (a.mark now).consistent hT h
    cases a <;> exact this
  cases o with
  | answered a => exact hans a
  | failed code => exact (Mark.failure now code).consistent hT h
  | spoiled a => exact (Mark.failure now .other).consistent hT (hans a)

/-- Every operation preserves the invariant. -/
theorem Operation.consistent (hT : 1 ≤ cfg.brokenThreshold) (op : Operation)
    (h : r.feed.lifecycle.Consistent cfg.brokenThreshold cfg.deadDurationDays lastFailure) :
    (op.apply cfg r).feed.lifecycle.Consistent cfg.brokenThreshold cfg.deadDurationDays
      (op.lastFailure cfg r lastFailure) := by
  cases op with
  | claim now scan =>
      have hc : (Operation.apply cfg r (.claim now scan)).feed.lifecycle = r.feed.lifecycle :=
        congrArg Prod.fst (claim_history now scan)
      rw [hc]
      exact h
  | reactivate now =>
      have hc : (Operation.apply cfg r (.reactivate now)).feed.lifecycle =
          Mark.reactivate.apply cfg.brokenThreshold cfg.deadDurationDays r.feed.lifecycle :=
        congrArg Prod.fst (reactivate_history cfg _ now)
      rw [hc]
      exact Mark.reactivate.consistent hT h
  | process up now session domains =>
      simp only [Operation.lastFailure]
      by_cases hd : isDurable (processing up cfg now (r.loaded session domains)) = true
      · obtain ⟨o, ho, -, hlife⟩ := processing_outcome hd
        have hc : (Operation.apply cfg r (.process up now session domains)).feed.lifecycle =
            (runMarks cfg.brokenThreshold cfg.deadDurationDays (o.marks now) r.history).1 := by
          change (processFeed up cfg now (r.loaded session domains)).feed.lifecycle = _
          rw [processFeed_of_durable hd]
          exact congrArg Prod.fst hlife
        rw [hc, processingFailure_eq, ho]
        simp only [hd, true_and, Option.bind_some]
        exact o.consistent hT now h
      · rw [if_neg fun hn ↦ hd hn.1]
        have hf : (Operation.apply cfg r (.process up now session domains)).feed = r.feed :=
          processFeed_feed_of_not_durable (by simpa using hd)
        rw [hf]
        exact h

end

/-! ## Runs -/

/-- The row, and the instant of the last failure counted in it. -/
structure FeedRun where
  row : Tracked
  lastFailure : Option Datetime

namespace FeedRun

def registered (id : Int) (url : Text) (now dbNow : Datetime) : FeedRun where
  row := ⟨Feed.registered id url now dbNow, []⟩
  lastFailure := none

def next (cfg : Settings) (op : Operation) (s : FeedRun) : FeedRun where
  row := op.apply cfg s.row
  lastFailure := op.lastFailure cfg s.row s.lastFailure

/-- One operation after the other. -/
def Step (cfg : Settings) (s : FeedRun) (op : Operation) (s' : FeedRun) : Prop := s' = s.next cfg op

variable {cfg : Settings} {s : FeedRun} {ops : List Operation} {id : Int} {url : Text}
  {now dbNow : Datetime}

theorem consistent (hT : 1 ≤ cfg.brokenThreshold)
    (h : Run (Step cfg) (registered id url now dbNow) ops s) :
    s.row.feed.lifecycle.Consistent cfg.brokenThreshold cfg.deadDurationDays s.lastFailure := by
  refine h.invariant
    (P := fun s ↦ s.row.feed.lifecycle.Consistent cfg.brokenThreshold cfg.deadDurationDays
      s.lastFailure) ?_ ?_
  · rintro t op _ ht rfl
    exact op.consistent hT ht
  · exact Mark.consistent_of_reset hT rfl rfl

/-- In every run an active feed has fewer failures than the threshold, a broken one
has reached it and was not without success for too long at its last failure, and
whatever the next operation is, it assigns statuses along the edges of the state
machine only. -/
theorem lifecycle_invariant (hT : 1 ≤ cfg.brokenThreshold)
    (h : Run (Step cfg) (registered id url now dbNow) ops s) :
    (s.row.feed.status = .active → s.row.feed.consecutiveFailures < cfg.brokenThreshold) ∧
    (s.row.feed.status = .broken → cfg.brokenThreshold ≤ s.row.feed.consecutiveFailures ∧
      ∃ t ∈ s.lastFailure,
        (t.sub s.row.feed.reference).micros < cfg.deadDurationDays * microsPerDay) ∧
    ∀ op : Operation, ∃ ts,
      (op.inMemory cfg s.row).transitions = s.row.transitions ++ ts ∧
      Linked s.row.feed.status ts (op.inMemory cfg s.row).feed.status ∧
      (∀ t ∈ ts, Legal cfg.deadDurationDays (op.circumstance cfg s.row) t.source t.target) ∧
      ((op.apply cfg s.row).feed = (op.inMemory cfg s.row).feed ∨
        (op.apply cfg s.row).feed = s.row.feed) := by
  have hc := consistent hT h
  refine ⟨hc.active, hc.broken, fun op ↦ ?_⟩
  obtain ⟨ts, hts, hlink, hlegal⟩ := op.lawful cfg s.row
  exact ⟨ts, hts, hlink, hlegal, op.apply_feed cfg s.row⟩

/-- A fetch of the feed `http://a.example/feed` that is answered by a server error. -/
def serverError : Operation :=
  .process (.answering ⟨503, [], [], none⟩) .year2000 (.start [] 1) []

/-- A feed that has failed three times in a row. -/
def failedThrice : FeedRun :=
  let s := registered 1 "http://a.example/feed".toList .year2000 .year2000
  ((s.next {} serverError).next {} serverError).next {} serverError

theorem failedThrice_broken : failedThrice.row.feed.status = .broken ∧
    3 ≤ failedThrice.row.feed.consecutiveFailures := by
  have h : Run (Step {}) (registered 1 "http://a.example/feed".toList .year2000 .year2000)
      [serverError, serverError, serverError] failedThrice :=
    ((Run.nil.snoc rfl).snoc rfl).snoc rfl
  have hs : failedThrice.row.feed.status = .broken := by decide +kernel
  exact ⟨hs, ((lifecycle_invariant (by decide) h).2.1 hs).1⟩

end FeedRun

end FeedgateFetcher
