import FeedgateFetcher.Fetcher.Loops

/-!
# The pace of the background loops

A loop waits its interval after a tick that returns, and a clipped exponential of it
after ticks that raise.  The clip is at 300 seconds whatever the interval is: a loop
with a longer interval is sped up by its first failure.
-/

namespace FeedgateFetcher

open Python Logic

/-! ## The rounds of a run -/

/-- The tick of the round counts as an error. -/
def Round.failed {α : Type} (round : Round α) : Bool :=
  match round.tick with
  | .raised _ => true
  | _ => false

/-- The rounds in which a loop gets as far as its wait. -/
def waits {α : Type} (stopped : Bool) (rounds : List (Round α)) : List (Round α) :=
  match stopped, rounds with
  | true, _ => []
  | false, [] => []
  | false, round :: rounds =>
    match round.tick, round.wait with
    | .cancelled, _ => []
    | _, .cancelled => [round]
    | _, .timedOut => round :: waits false rounds
    | _, .stopped => round :: waits true rounds

namespace BackgroundLoop

variable {σ α : Type} (loop : BackgroundLoop σ α) {round : Round α} {s s' : LoopState σ}

variable {loop} in
/-- The `try` statement moves the counter on. -/
theorem attempt_counter (h : loop.attempt round s = some s') :
    s'.consecutiveErrors = if round.failed then s.consecutiveErrors + 1 else 0 := by
  unfold attempt at h
  unfold Round.failed
  split at h
  case h_1 result htick =>
    cases h
    simp [htick]
  case h_2 exc htick =>
    cases h
    simp [htick]
  case h_3 => cases h

theorem attempt_eq_none_iff : loop.attempt round s = none ↔ round.tick = .cancelled := by
  unfold attempt
  split <;> simp [*]

@[simp] theorem waits_true (rounds : List (Round α)) : waits true rounds = [] := by simp [waits]

@[simp] theorem run_true (rounds : List (Round α)) (s : LoopState σ) :
    loop.run true rounds s = ([], s) := by simp [run]

/-- A round either ends the run before its wait, or waits and goes on with the rest of the
rounds. -/
theorem run_cons (round : Round α) (rounds : List (Round α)) (s : LoopState σ) :
    (waits false (round :: rounds) = [] ∧ loop.run false (round :: rounds) s = ([], s)) ∨
    ∃ s' stopped, loop.attempt round s = some s' ∧
      waits false (round :: rounds) = round :: waits stopped rounds ∧
      loop.run false (round :: rounds) s =
        (loop.timeout s'.consecutiveErrors :: (loop.run stopped rounds s').1,
          (loop.run stopped rounds s').2) := by
  cases htick : loop.attempt round s with
  | none =>
      have hcancelled := (attempt_eq_none_iff loop).mp htick
      exact .inl ⟨by simp [waits, hcancelled], by simp [run, htick]⟩
  | some s' =>
      have hne : round.tick ≠ .cancelled := by
        rw [ne_eq, ← attempt_eq_none_iff loop (s := s), htick]
        exact Option.some_ne_none _
      cases hwait : round.wait with
      | timedOut =>
          exact .inr ⟨s', false, rfl, by simp [waits, hwait], by simp [run, htick, hwait]⟩
      | stopped =>
          exact .inr ⟨s', true, rfl, by simp [waits, hwait], by simp [run, htick, hwait]⟩
      | cancelled =>
          exact .inr ⟨s', true, rfl, by simp [waits, hwait], by simp [run, htick, hwait]⟩

/-- The timeouts of a run follow the counter of its errors. -/
theorem run_timeouts (stopped : Bool) (rounds : List (Round α)) (s : LoopState σ) :
    (loop.run stopped rounds s).1 =
      (counters Round.failed s.consecutiveErrors (waits stopped rounds)).map loop.timeout := by
  induction rounds generalizing stopped s with
  | nil => cases stopped <;> simp [run, waits, counters]
  | cons round rounds ih =>
      cases stopped with
      | true => simp [counters]
      | false =>
          rcases loop.run_cons round rounds s with
            ⟨hwaits, hrun⟩ | ⟨s', stopped, htick, hwaits, hrun⟩
          · rw [hwaits, hrun]
            rfl
          · rw [hwaits, hrun, counters, List.map_cons, ih, attempt_counter htick]

/-- What a loop does with the outcome of one tick. -/
def record (metrics : σ) (round : Round α) : σ :=
  match round.tick with
  | .returned result => loop.onResult round result metrics
  | .raised _ => loop.onError metrics
  | .cancelled => metrics

variable {loop} in
theorem attempt_metrics (h : loop.attempt round s = some s') :
    s'.metrics = loop.record s.metrics round := by
  rw [attempt] at h
  rw [record]
  cases htick : round.tick with
  | returned result =>
      rw [htick] at h
      cases h
      rfl
  | raised exc =>
      rw [htick] at h
      cases h
      rfl
  | cancelled =>
      rw [htick] at h
      cases h

/-- The metrics of a run are those of its rounds, one after the other. -/
theorem run_metrics (stopped : Bool) (rounds : List (Round α)) (s : LoopState σ) :
    (loop.run stopped rounds s).2.metrics =
      (waits stopped rounds).foldl loop.record s.metrics := by
  induction rounds generalizing stopped s with
  | nil => cases stopped <;> simp [run, waits]
  | cons round rounds ih =>
      cases stopped with
      | true => simp
      | false =>
          rcases loop.run_cons round rounds s with
            ⟨hwaits, hrun⟩ | ⟨s', stopped, htick, hwaits, hrun⟩
          · rw [hwaits, hrun]
            rfl
          · rw [hwaits, hrun, List.foldl_cons, ih, attempt_metrics htick]

/-- The timeout is a clipped exponential of the interval. -/
theorem timeout_eq_clipped (n : Nat) : loop.timeout n = clipped loop.interval 300 5 n := rfl

/-- A loop whose interval is longer than the cap slows down only as long as nothing fails. -/
theorem slowsDown_iff (hpos : 0 < loop.interval) (stopped : Bool) (rounds : List (Round α))
    (metrics : σ) :
    SlowsDown Round.failed loop.interval (max loop.interval 300) (waits stopped rounds)
        (loop.run stopped rounds ⟨0, metrics⟩).1 ↔
      loop.interval ≤ 300 ∨ ∀ round ∈ waits stopped rounds, ¬round.failed := by
  rw [run_timeouts, funext loop.timeout_eq_clipped]
  exact slowsDown_clipped_iff hpos.le

end BackgroundLoop

/-! ## The metrics of the scheduler -/

/-- The results of the ticks that returned. -/
def Round.result? {α : Type} (round : Round α) : Option α :=
  match round.tick with
  | .returned result => some result
  | _ => none

theorem schedulerRun_record (interval : ℚ) (rounds : List (Round SchedulerTickResult))
    (m : SchedulerMetrics) :
    let results := rounds.filterMap Round.result?
    let m' := rounds.foldl (schedulerRun interval).record m
    m'.tickTotalOk = m.tickTotalOk + results.length ∧
      m'.tickTotalError = m.tickTotalError + rounds.countP Round.failed ∧
      m'.tickDurations = m.tickDurations ++ results.map SchedulerTickResult.durationSeconds ∧
      m'.claimedFeedsTotal =
        m.claimedFeedsTotal + (results.map SchedulerTickResult.claimed).sum := by
  induction rounds generalizing m with
  | nil => simp
  | cons round rounds ih =>
      obtain ⟨hok, herror, hdurations, hclaimed⟩ := ih ((schedulerRun interval).record m round)
      simp only [List.foldl_cons, hok, herror, hdurations, hclaimed]
      cases hround : round.tick with
      | returned result =>
          have hresult : round.result? = some result := by simp [Round.result?, hround]
          have hfailed : round.failed = false := by simp [Round.failed, hround]
          simp [hresult, hfailed, BackgroundLoop.record, hround, schedulerRun]
          omega
      | raised exc =>
          have hresult : round.result? = none := by simp [Round.result?, hround]
          have hfailed : round.failed = true := by simp [Round.failed, hround]
          simp [hresult, hfailed, BackgroundLoop.record, hround, schedulerRun]
          omega
      | cancelled =>
          have hresult : round.result? = none := by simp [Round.result?, hround]
          have hfailed : round.failed = false := by simp [Round.failed, hround]
          simp [hresult, hfailed, BackgroundLoop.record, hround]

/-- Every tick the scheduler survives is counted once, by its outcome, with the feeds it claimed. -/
theorem schedulerRun_metrics (interval : ℚ) (stopped : Bool)
    (rounds : List (Round SchedulerTickResult)) (s : LoopState SchedulerMetrics) :
    let m := ((schedulerRun interval).run stopped rounds s).2.metrics
    let results := (waits stopped rounds).filterMap Round.result?
    m.tickTotalOk = s.metrics.tickTotalOk + results.length ∧
      m.tickTotalError = s.metrics.tickTotalError + (waits stopped rounds).countP Round.failed ∧
      m.tickDurations =
        s.metrics.tickDurations ++ results.map SchedulerTickResult.durationSeconds ∧
      m.claimedFeedsTotal =
        s.metrics.claimedFeedsTotal + (results.map SchedulerTickResult.claimed).sum := by
  rw [BackgroundLoop.run_metrics]
  exact schedulerRun_record interval (waits stopped rounds) s.metrics

/-! ## The two loops -/

/-- Neither loop is sped up by its failures, as long as its interval is within the cap. -/
theorem loops_slowDown_iff (interval : ℚ) (hpos : 0 < interval) :
    (∀ stopped rounds metrics,
      SlowsDown Round.failed interval (max interval 300) (waits stopped rounds)
          ((schedulerRun interval).run stopped rounds ⟨0, metrics⟩).1 ↔
        interval ≤ 300 ∨ ∀ round ∈ waits stopped rounds, ¬round.failed) ∧
    ∀ stopped rounds metrics,
      SlowsDown Round.failed interval (max interval 300) (waits stopped rounds)
          ((retentionRun interval).run stopped rounds ⟨0, metrics⟩).1 ↔
        interval ≤ 300 ∨ ∀ round ∈ waits stopped rounds, ¬round.failed :=
  ⟨fun stopped rounds metrics ↦
      BackgroundLoop.slowsDown_iff (schedulerRun interval) hpos stopped rounds metrics,
    fun stopped rounds metrics ↦
      BackgroundLoop.slowsDown_iff (retentionRun interval) hpos stopped rounds metrics⟩

/-- Two ticks that raise and one that returns. -/
def twoFailures : List (Round SchedulerTickResult) :=
  [⟨.raised .database, .timedOut, 0⟩, ⟨.raised .database, .timedOut, 60⟩,
    ⟨.returned ⟨0, 0, 0, 1⟩, .stopped, 180⟩]

/-- A scheduler with the default interval. -/
theorem scheduler_slowsDown :
    SlowsDown Round.failed 60 (max 60 300) (waits false twoFailures)
      ((schedulerRun 60).run false twoFailures ⟨0, {}⟩).1 :=
  ((loops_slowDown_iff 60 (by norm_num)).1 false twoFailures {}).mpr (.inl (by norm_num))

/-- One tick that raises. -/
def oneFailure : List (Round Nat) := [⟨.raised .database, .timedOut, 0⟩]

/-- The retention sweeper with its default interval of an hour: after one failure it is back in
five minutes. -/
theorem retention_sped_up :
    ((retentionRun 3600).run false oneFailure ⟨0, ()⟩).1 = [300] ∧
      ¬SlowsDown Round.failed 3600 (max 3600 300) (waits false oneFailure)
        ((retentionRun 3600).run false oneFailure ⟨0, ()⟩).1 := by
  have hrun : ((retentionRun 3600).run false oneFailure ⟨0, ()⟩).1 = [300] := by
    norm_num [BackgroundLoop.run, BackgroundLoop.attempt, BackgroundLoop.timeout, retentionRun,
      oneFailure]
  refine ⟨hrun, fun h ↦ ?_⟩
  have hone : streakAt Round.failed (waits false oneFailure) 0 = 1 := by decide
  have hle := h.first_failure 0 300 (by rw [hrun]; rfl) hone
  norm_num at hle

end FeedgateFetcher
