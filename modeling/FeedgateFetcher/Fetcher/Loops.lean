import Mathlib.Algebra.Order.Ring.Rat
import FeedgateFetcher.Fetcher.Errors
import FeedgateFetcher.Logic.Backoff

/-!
# The background loops

`scheduler.run` and `retention.run` call their `tick_once` until they are told to
stop.  The two loops differ in what they do with the result of a tick and share
everything else, the waiting in particular.  What a tick returns, when the stop
event is set and when the task is cancelled is up to the outside; log lines are left
out.
-/

namespace FeedgateFetcher

open Python Logic

/-! ## A round of a loop -/

/-- How `await tick_once(app)` ends. -/
inductive TickOutcome (α : Type) where
  | returned (result : α)
  | raised (exc : Exc)
  /-- `CancelledError`, which `except Exception` lets through. -/
  | cancelled
deriving DecidableEq, Repr

/-- How `asyncio.wait_for(stop.wait(), timeout=timeout)` ends. -/
inductive WaitOutcome where
  | timedOut
  | stopped
  | cancelled
deriving DecidableEq, Repr

/-- What a loop meets in one round. -/
structure Round (α : Type) where
  tick : TickOutcome α
  wait : WaitOutcome
  /-- The wall clock at the end of the tick. -/
  unixtime : ℚ

/-- The state of a loop: its counter, and whatever it keeps outside. -/
structure LoopState (σ : Type) where
  consecutiveErrors : Nat := 0
  metrics : σ

/-- What is particular to a loop: its interval, and what it does in the two branches of its
`try`. -/
structure BackgroundLoop (σ α : Type) where
  interval : ℚ
  onResult : Round α → α → σ → σ
  onError : σ → σ

namespace BackgroundLoop

variable {σ α : Type} (loop : BackgroundLoop σ α)

/-- The `timeout` of the wait. -/
def timeout (consecutiveErrors : Nat) : ℚ :=
  if 0 < consecutiveErrors then
    min (loop.interval * 2 ^ min (consecutiveErrors - 1) 5) 300
  else loop.interval

/-- The `try` statement around the tick, unless the task is cancelled in it. -/
def attempt (round : Round α) (s : LoopState σ) : Option (LoopState σ) :=
  match round.tick with
  | .returned result => some ⟨0, loop.onResult round result s.metrics⟩
  | .raised _ => some ⟨s.consecutiveErrors + 1, loop.onError s.metrics⟩
  | .cancelled => none

/-- The `while` loop: the timeouts of its waits, and the state it is left in.  The rounds are
those there is time for; the loop may end before. -/
def run (stopped : Bool) (rounds : List (Round α)) (s : LoopState σ) : List ℚ × LoopState σ :=
  match stopped, rounds with
  | true, _ => ([], s)
  | false, [] => ([], s)
  | false, round :: rounds =>
    match loop.attempt round s with
    | none => ([], s)
    | some s' =>
      let timeout := loop.timeout s'.consecutiveErrors
      match round.wait with
      | .cancelled => ([timeout], s')
      | .timedOut =>
        let (timeouts, s'') := run false rounds s'
        (timeout :: timeouts, s'')
      | .stopped =>
        let (timeouts, s'') := run true rounds s'
        (timeout :: timeouts, s'')

end BackgroundLoop

/-! ## The two loops -/

/-- `SchedulerTickResult`. -/
structure SchedulerTickResult where
  claimed : Nat
  processed : Nat
  fatalErrors : Nat
  durationSeconds : ℚ
deriving DecidableEq, Repr

/-- The metrics of `scheduler.run`. -/
structure SchedulerMetrics where
  /-- `SCHEDULER_TICK_TOTAL`, by its label. -/
  tickTotalOk : Nat := 0
  tickTotalError : Nat := 0
  /-- The observations of `SCHEDULER_TICK_DURATION`. -/
  tickDurations : List ℚ := []
  /-- `SCHEDULER_LAST_TICK_UNIXTIME`. -/
  lastTickUnixtime : ℚ := 0
  claimedFeedsTotal : Nat := 0
deriving DecidableEq, Repr

/-- `scheduler.run`, for `app.state.fetch_interval_seconds`. -/
def schedulerRun (fetchIntervalSeconds : ℚ) :
    BackgroundLoop SchedulerMetrics SchedulerTickResult where
  interval := fetchIntervalSeconds
  onResult round result m :=
    { m with
      tickTotalOk := m.tickTotalOk + 1
      tickDurations := m.tickDurations ++ [result.durationSeconds]
      lastTickUnixtime := round.unixtime
      claimedFeedsTotal := m.claimedFeedsTotal + result.claimed }
  onError m := { m with tickTotalError := m.tickTotalError + 1 }

/-- `retention.run`, for `app.state.retention_sweep_interval_seconds`: all it does with the number
of deleted entries is to log it. -/
def retentionRun (retentionSweepIntervalSeconds : ℚ) : BackgroundLoop Unit Nat where
  interval := retentionSweepIntervalSeconds
  onResult _ _ m := m
  onError m := m

end FeedgateFetcher
