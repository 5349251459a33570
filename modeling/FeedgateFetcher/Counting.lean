import FeedgateFetcher.Runs

/-!
# What the failure counter counts

Success is recorded in two places, by `mark_fetch_success` and by the branch for
304.  The two agree on a broken feed.  On an active one the branch for 304 leaves
the counter and the last error as they are, so `consecutive_failures` counts the
failures since the last success, recovery or reactivation.
-/

namespace FeedgateFetcher

open Python Logic

/-! ## One 304 -/

section

variable {up : Upstream} {cfg : Settings} {now : Datetime} {weekly : Nat} {s t : FetchState}

theorem handleNotModified_flow {headers : Headers} {flow : Flow}
    (h : handleNotModified up cfg now weekly headers s = (.ok flow, t)) : flow = .returned := by
  cases hh : parseCacheHint headers now with
  | error e =>
      rw [handleNotModified_of_hint_error hh] at h
      cases h
  | ok hint =>
      rw [handleNotModified_of_hint hh] at h
      cases hc : computeNextFetchAt cfg (s.mark cfg (.notModified now)).feed now hint weekly
          up.draw with
      | error e =>
          rw [hc] at h
          cases h
      | ok next =>
          rw [hc] at h
          cases h
          rfl

/-- A 304 that is dealt with without an exception puts its mark, and nothing else,
on the lifecycle. -/
theorem fetchOne_notModified {headers : Headers}
    (ha : answerOf up cfg now s = some (.notModified headers))
    (hf : failureCode up cfg now s = none) :
    (fetchOne up cfg now s).1 = .ok ⟨⟩ ∧ (fetchOne up cfg now s).2.feed.lifecycle =
      (Mark.notModified now).apply cfg.brokenThreshold cfg.deadDurationDays s.feed.lifecycle := by
  unfold answerOf at ha
  unfold failureCode at hf
  rcases hp : prepare up now s with ⟨exc | weekly, s₁⟩
  · rw [hp] at ha
    cases ha
  rw [hp] at ha hf
  dsimp only at ha hf
  rcases hx : contact up cfg s₁ with ⟨exc | x, s₂⟩
  · rw [hx] at ha
    cases ha
  rw [hx] at ha
  obtain rfl : x = .notModified headers := Option.some.inj ha
  have hat : attempt up cfg now weekly s₁ = handleNotModified up cfg now weekly headers s₂ := by
    rw [attempt_eq, Act.bind_of_ok hx]
    rfl
  rcases hr : handleNotModified up cfg now weekly headers s₂ with ⟨exc | flow, s₃⟩
  · rw [hat, hr] at hf
    cases hf
  obtain rfl := handleNotModified_flow hr
  have hrun : fetchOne up cfg now s = (.ok ⟨⟩, s₃) := by
    unfold fetchOne
    rw [Act.bind_of_ok hp, Act.bind_of_ok (Act.handle_of_ok (hat.trans hr))]
    rfl
  have hk := keeps_account_contact up cfg s₁
  rw [hx] at hk
  have hm := handleNotModified_recorded up cfg now weekly
    headers s₂
  rw [Act.ensures_of_run hr] at hm
  have hlife : s₃.history = (Mark.notModified now).run cfg.brokenThreshold cfg.deadDurationDays
      s.history := by
    rw [hm.1, history_eq_of_account_eq hk, (prepare_history hp).1]
    rfl
  rw [hrun]
  exact ⟨rfl, congrArg Prod.fst hlife⟩

end

/-! ## Counting in a run -/

/-- The outcome puts the counter of a feed with this status back to zero. -/
def Outcome.resets (status : FeedStatus) (o : Outcome) : Bool :=
  match o.answer with
  | some .success => true
  | some .notModified => status = .broken
  | _ => false

/-- The count after an outcome. -/
def Outcome.failuresAfter (status : FeedStatus) (failures : Int) (o : Outcome) : Int :=
  (if o.resets status then 0 else failures) + if o.failure.isSome then 1 else 0

section

variable {cfg : Settings} {r : Tracked}

theorem answered_consecutiveFailures (cfg : Settings) (a : Answered) (now : Datetime)
    (l : Lifecycle) :
    ((a.mark now).apply cfg.brokenThreshold cfg.deadDurationDays l).consecutiveFailures =
      if (Outcome.answered a).resets l.status then 0 else l.consecutiveFailures := by
  cases a with
  | success => rw [Answered.mark, Mark.apply_success]; rfl
  | rateLimited => rfl
  | notModified =>
      by_cases h : l.status = .broken
      · rw [Answered.mark, Mark.apply_notModified_of_broken now h, if_pos (by simp [Outcome.resets,
          Outcome.answer, h])]
      · rw [Answered.mark, Mark.apply_notModified_of_ne now h, if_neg (by simp [Outcome.resets,
          Outcome.answer, h])]

theorem outcome_consecutiveFailures (o : Outcome) (now : Datetime) (p : History) :
    (runMarks cfg.brokenThreshold cfg.deadDurationDays (o.marks now) p).1.consecutiveFailures =
      o.failuresAfter p.1.status p.1.consecutiveFailures := by
  cases o with
  | answered a =>
      have h := answered_consecutiveFailures cfg a now p.1
      rw [Outcome.failuresAfter, ← h]
      exact (Int.add_zero _).symm
  | failed code => rfl
  | spoiled a =>
      have h := answered_consecutiveFailures cfg a now p.1
      change ((a.mark now).apply _ _ p.1).consecutiveFailures + 1 = _
      rw [h]
      rfl

/-- What a committed operation amounts to, when it is a `_process_feed`. -/
def Operation.outcome (cfg : Settings) (r : Tracked) : Operation → Option Outcome
  | .process up now session domains =>
    if isDurable (processing up cfg now (r.loaded session domains)) then
      processingOutcome up cfg now (r.loaded session domains)
    else none
  | _ => none

/-- The failures since the last success, recovery or reactivation. -/
def Operation.failuresAfter (cfg : Settings) (r : Tracked) (failures : Int) : Operation → Int
  | .reactivate _ => 0
  | op => match op.outcome cfg r with
    | some o => o.failuresAfter r.feed.status failures
    | none => failures

theorem Operation.consecutiveFailures_eq (op : Operation) :
    (op.apply cfg r).feed.consecutiveFailures =
      op.failuresAfter cfg r r.feed.consecutiveFailures := by
  cases op with
  | claim now scan =>
      exact congrArg (fun p : History ↦ p.1.consecutiveFailures) (claim_history now scan)
  | reactivate now =>
      have h := congrArg (fun p : History ↦ p.1.consecutiveFailures)
        (reactivate_history cfg r now)
      exact h
  | process up now session domains =>
      simp only [Operation.failuresAfter, Operation.outcome]
      by_cases hd : isDurable (processing up cfg now (r.loaded session domains)) = true
      · obtain ⟨o, ho, -, hlife⟩ := processing_outcome hd
        rw [if_pos hd, ho]
        have h := congrArg (fun p : History ↦ p.1.consecutiveFailures) hlife
        rw [outcome_consecutiveFailures] at h
        change (processFeed up cfg now (r.loaded session domains)).feed.consecutiveFailures = _
        rw [processFeed_of_durable hd]
        exact h
      · rw [if_neg hd]
        exact congrArg Feed.consecutiveFailures
          (processFeed_feed_of_not_durable (by simpa using hd))

end

/-- The row, and the failures since the last success, recovery or reactivation. -/
structure CountedRun where
  row : Tracked
  failures : Int

namespace CountedRun

def registered (id : Int) (url : Text) (now dbNow : Datetime) : CountedRun where
  row := ⟨Feed.registered id url now dbNow, []⟩
  failures := 0

/-- One operation after the other; the answer to the probe of a dead feed is not a 304. -/
structure Step (cfg : Settings) (s : CountedRun) (op : Operation) (s' : CountedRun) : Prop where
  probe : s.row.feed.status = .dead → ∀ o ∈ op.outcome cfg s.row, o.answer ≠ some .notModified
  result : s' = ⟨op.apply cfg s.row, op.failuresAfter cfg s.row s.failures⟩

/-- The counter of the row is the count of the run. -/
theorem counts {cfg : Settings} {id : Int} {url : Text} {now dbNow : Datetime} {s : CountedRun}
    {ops : List Operation} (h : Run (Step cfg) (registered id url now dbNow) ops s) :
    s.row.feed.consecutiveFailures = s.failures := by
  refine h.invariant (P := fun s ↦ s.row.feed.consecutiveFailures = s.failures) ?_ rfl
  rintro t op _ ht ⟨-, rfl⟩
  exact ht ▸ op.consecutiveFailures_eq

end CountedRun

/-- A 304 is for a broken feed what a successful fetch without a title is; for an active one it
sets the instant of the last success only.  In every run `consecutive_failures` counts the
failures since the last success, recovery or reactivation. -/
theorem notModified_agrees :
    (∀ (up : Upstream) (cfg : Settings) (now : Datetime) (s : FetchState) (headers : Headers),
      answerOf up cfg now s = some (.notModified headers) → failureCode up cfg now s = none →
      (fetchOne up cfg now s).1 = .ok ⟨⟩ ∧
      (s.feed.status = .broken → (fetchOne up cfg now s).2.feed.lifecycle =
        (markFetchSuccess now none s.row).feed.lifecycle) ∧
      (s.feed.status = .active → (fetchOne up cfg now s).2.feed.lifecycle =
        { s.feed.lifecycle with lastSuccessfulFetchAt := some now })) ∧
    ∀ (cfg : Settings) (id : Int) (url : Text) (now dbNow : Datetime) (ops : List Operation)
      (s : CountedRun), Run (CountedRun.Step cfg) (.registered id url now dbNow) ops s →
      s.row.feed.consecutiveFailures = s.failures := by
  refine ⟨fun up cfg now s headers ha hf ↦ ?_, fun _ _ _ _ _ _ _ h ↦ CountedRun.counts h⟩
  obtain ⟨hok, hlife⟩ := fetchOne_notModified ha hf
  refine ⟨hok, fun hs ↦ ?_, fun hs ↦ ?_⟩
  · rw [hlife, Mark.apply_notModified_of_broken now hs,
      markFetchSuccess_eq cfg.brokenThreshold cfg.deadDurationDays]
    exact (Mark.apply_success now s.feed.lifecycle).symm
  · have hne : s.feed.lifecycle.status ≠ .broken := fun hb ↦ nomatch hs.symm.trans hb
    rw [hlife, Mark.apply_notModified_of_ne now hne]

/-- An origin that answers 304. -/
def unmodified : Upstream := .answering ⟨304, [], [], none⟩

/-- A feed of this status after one timeout. -/
def onceFailed (status : FeedStatus) : Tracked :=
  ⟨{ Feed.registered 1 "http://a.example/feed".toList .year2000 .year2000 with
      status := status
      consecutiveFailures := 1
      lastErrorCode := some .timeout }, []⟩

/-- An active feed keeps its failure and its error after a 304. -/
theorem notModified_active_differs :
    answerOf unmodified {} .year2000 ((onceFailed .active).loaded (.start [] 1) []) =
      some (.notModified []) ∧
    (fetchOne unmodified {} .year2000
      ((onceFailed .active).loaded (.start [] 1) [])).2.feed.lifecycle
      ≠ (markFetchSuccess .year2000 none (onceFailed .active)).feed.lifecycle :=
  ⟨rfl, by decide +kernel⟩

theorem notModified_broken_recovers :
    (fetchOne unmodified {} .year2000
      ((onceFailed .broken).loaded (.start [] 1) [])).2.feed.lifecycle
      = ⟨.active, 0, none, some .year2000, .year2000⟩ :=
  (notModified_agrees.1 unmodified {} .year2000 ((onceFailed .broken).loaded (.start [] 1) []) []
    rfl (by decide +kernel)).2.1 rfl

end FeedgateFetcher
