import FeedgateFetcher.Fetcher.Errors
import FeedgateFetcher.Logic.Effect

/-!
# Feed lifecycle transitions

`mark_fetch_success` and `mark_fetch_failure` on a loaded row.  Every change of
status goes through `transition_feed`, which counts it in a metric; `Tracked`
carries the row together with the transitions counted so far, so that statements
about *which* transitions happen are statements about the code's own record.
-/

namespace FeedgateFetcher

open Python Logic

inductive TransitionReason where
  | fetchSucceeded
  | http410
  | failuresReached (threshold : Int)
  | noSuccessFor (days : Int)
  | http304Recovery
  | manualReactivate
deriving DecidableEq, Repr

structure Transition where
  source : FeedStatus
  target : FeedStatus
  reason : TransitionReason
deriving DecidableEq, Repr

/-- A loaded row and the transitions reported about it. -/
@[ext]
structure Tracked where
  feed : Feed
  transitions : List Transition
deriving DecidableEq, Repr

namespace Tracked

/-- Assign columns of the row. -/
def update (f : Feed → Feed) (r : Tracked) : Tracked := { r with feed := f r.feed }

@[simp] theorem update_feed (f : Feed → Feed) (r : Tracked) : (r.update f).feed = f r.feed := rfl

@[simp] theorem update_transitions (f : Feed → Feed) (r : Tracked) :
    (r.update f).transitions = r.transitions := rfl

/-- `transition_feed`. -/
def transitionFeed (new : FeedStatus) (reason : TransitionReason) (r : Tracked) : Tracked :=
  { r with transitions := r.transitions ++ [⟨r.feed.status, new, reason⟩] }

/-- `transition_feed` followed by the assignment that it announces. -/
def moveTo (new : FeedStatus) (reason : TransitionReason) (r : Tracked) : Tracked :=
  (r.transitionFeed new reason).update fun f ↦ { f with status := new }

@[simp] theorem moveTo_feed (new : FeedStatus) (reason : TransitionReason) (r : Tracked) :
    (r.moveTo new reason).feed = { r.feed with status := new } := rfl

@[simp] theorem moveTo_transitions (new : FeedStatus) (reason : TransitionReason) (r : Tracked) :
    (r.moveTo new reason).transitions = r.transitions ++ [⟨r.feed.status, new, reason⟩] := rfl

end Tracked

/-- `if title:` for an optional string. -/
def truthy (s : Option Text) : Bool := s.any fun t ↦ !t.isEmpty

/-- `mark_fetch_success`. -/
def markFetchSuccess (now : Datetime) (title : Option Text) (r : Tracked) : Tracked :=
  let r := if truthy title then r.update fun f ↦ { f with title := title } else r
  let r := r.update fun f ↦
    { f with
      lastSuccessfulFetchAt := some now
      lastErrorCode := none
      consecutiveFailures := 0 }
  if r.feed.status ≠ .active then r.moveTo .active .fetchSucceeded else r

/-- The last success of a feed, or its registration when it never had one. -/
def Feed.reference (f : Feed) : Datetime := f.lastSuccessfulFetchAt.getD f.createdAt

/-- The end of `mark_fetch_failure`: a broken feed without success for too long dies.
It raises when `dead_duration_days` is no `timedelta`. -/
def expireBroken (now : Datetime) (deadDurationDays : Int) : Act Tracked Exc PUnit := do
  let r ← Act.get
  if r.feed.status = .broken then do
    let duration ← Act.ofExcept ((Timedelta.ofDays deadDurationDays).mapError .builtin)
    if duration.micros ≤ (now.sub r.feed.reference).micros then
      Act.modify fun r ↦ r.moveTo .dead (.noSuccessFor deadDurationDays)
    else pure ⟨⟩
  else pure ⟨⟩

/-- `mark_fetch_failure`. -/
def markFetchFailure (now : Datetime) (code : ErrorCode) (brokenThreshold deadDurationDays : Int) :
    Act Tracked Exc PUnit := do
  Act.modify fun r ↦ r.update fun f ↦
    { f with lastErrorCode := some code, consecutiveFailures := f.consecutiveFailures + 1 }
  let r ← Act.get
  if code = .http410 then
    if r.feed.status ≠ .dead then
      Act.modify fun r ↦ r.moveTo .dead .http410
    else pure ⟨⟩
  else do
    if r.feed.status = .active ∧ brokenThreshold ≤ r.feed.consecutiveFailures then
      Act.modify fun r ↦ r.moveTo .broken (.failuresReached brokenThreshold)
    else pure ⟨⟩
    expireBroken now deadDurationDays

theorem expireBroken_of_ne {now : Datetime} {deadDurationDays : Int} {r : Tracked}
    (h : r.feed.status ≠ .broken) : expireBroken now deadDurationDays r = (.ok ⟨⟩, r) := by
  unfold expireBroken
  rw [Act.get_bind_apply, if_neg h]
  rfl

theorem expireBroken_of_error {now : Datetime} {deadDurationDays : Int} {r : Tracked} {e : PyError}
    (h : r.feed.status = .broken) (hd : Timedelta.ofDays deadDurationDays = .error e) :
    expireBroken now deadDurationDays r = (.error (.builtin e), r) := by
  unfold expireBroken
  rw [Act.get_bind_apply, if_pos h, hd]
  rfl

theorem expireBroken_of_ok {now : Datetime} {deadDurationDays : Int} {r : Tracked} {d : Timedelta}
    (h : r.feed.status = .broken) (hd : Timedelta.ofDays deadDurationDays = .ok d) :
    expireBroken now deadDurationDays r =
      (.ok ⟨⟩, if deadDurationDays * microsPerDay ≤ now.micros - r.feed.reference.micros then
        r.moveTo .dead (.noSuccessFor deadDurationDays) else r) := by
  have hm : d.micros = deadDurationDays * microsPerDay := Timedelta.ofMicros_eq_ok_iff.mp hd
  unfold expireBroken
  rw [Act.get_bind_apply, if_pos h, hd]
  change (if d.micros ≤ now.micros - r.feed.reference.micros then _ else _ : Act _ _ _) r = _
  rw [hm]
  split <;> rfl

end FeedgateFetcher
