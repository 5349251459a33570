import FeedgateFetcher.Api.Feeds

/-!
# The lifecycle of a feed

An abstract machine for the four columns that decide whether and how a feed is
polled.  Its steps are the `Mark`s that the application puts on a row; each mark
passes through a list of transitions, at most two.  The last sections show that
the functions of the application refine the machine, transition by transition.
-/

namespace FeedgateFetcher

open Python Logic

/-- The lifecycle columns of a feed. -/
@[ext]
structure Lifecycle where
  status : FeedStatus
  consecutiveFailures : Int
  lastErrorCode : Option ErrorCode
  lastSuccessfulFetchAt : Option Datetime
  createdAt : Datetime
deriving DecidableEq, Repr

inductive Mark where
  | success (now : Datetime)
  | notModified (now : Datetime)
  | rateLimited
  | failure (now : Datetime) (code : ErrorCode)
  | reactivate
deriving DecidableEq, Repr

namespace Lifecycle

/-- The last success of a feed, or its registration when it never had one. -/
def reference (l : Lifecycle) : Datetime := l.lastSuccessfulFetchAt.getD l.createdAt

/-- The microseconds without a success. -/
def elapsed (now : Datetime) (l : Lifecycle) : Int := now.micros - l.reference.micros

/-- One more failure with this code, before any change of status. -/
def count (code : ErrorCode) (l : Lifecycle) : Lifecycle :=
  { l with
    lastErrorCode := some code
    consecutiveFailures := l.consecutiveFailures + 1 }

@[simp] theorem count_status (code : ErrorCode) (l : Lifecycle) :
    (l.count code).status = l.status := rfl

@[simp] theorem count_consecutiveFailures (code : ErrorCode) (l : Lifecycle) :
    (l.count code).consecutiveFailures = l.consecutiveFailures + 1 := rfl

@[simp] theorem count_elapsed (now : Datetime) (code : ErrorCode) (l : Lifecycle) :
    (l.count code).elapsed now = l.elapsed now := rfl

end Lifecycle

/-! ## The transitions of a mark -/

/-- A counted failure breaks the feed. -/
def Lifecycle.Breaks (brokenThreshold : Int) (l : Lifecycle) : Prop :=
  l.status = .active ∧ brokenThreshold ≤ l.consecutiveFailures

instance (brokenThreshold : Int) (l : Lifecycle) : Decidable (l.Breaks brokenThreshold) :=
  inferInstanceAs (Decidable (_ ∧ _))

/-- A counted failure finds a broken feed without success for too long. -/
def Lifecycle.Expires (brokenThreshold deadDurationDays : Int) (now : Datetime) (l : Lifecycle) :
    Prop :=
  (l.status = .broken ∨ l.Breaks brokenThreshold) ∧ deadDurationDays * microsPerDay ≤ l.elapsed now

instance (brokenThreshold deadDurationDays : Int) (now : Datetime) (l : Lifecycle) :
    Decidable (l.Expires brokenThreshold deadDurationDays now) :=
  inferInstanceAs (Decidable (_ ∧ _))

/-- The status in which one more failure leaves a feed. -/
def Lifecycle.fate (brokenThreshold deadDurationDays : Int) (now : Datetime) (code : ErrorCode)
    (l : Lifecycle) : FeedStatus :=
  if code = .http410 ∨ (l.count code).Expires brokenThreshold deadDurationDays now then .dead
  else if (l.count code).Breaks brokenThreshold then .broken
  else l.status

/-- A failure does not revive a feed. -/
theorem Lifecycle.fate_ne_active {brokenThreshold deadDurationDays : Int} {now : Datetime}
    {code : ErrorCode} {l : Lifecycle} (h : l.status ≠ .active) :
    l.fate brokenThreshold deadDurationDays now code ≠ .active := by
  unfold fate
  split
  · exact nofun
  split
  · exact nofun
  · exact h

namespace Mark

variable (brokenThreshold deadDurationDays : Int)

/-- The transitions of a mark, in the order in which they happen. -/
def transitions (l : Lifecycle) : Mark → List Transition
  | .success _ => if l.status ≠ .active then [⟨l.status, .active, .fetchSucceeded⟩] else []
  | .notModified _ => if l.status = .broken then [⟨.broken, .active, .http304Recovery⟩] else []
  | .rateLimited => []
  | .failure now code =>
    if code = .http410 then if l.status ≠ .dead then [⟨l.status, .dead, .http410⟩] else []
    else
      (if (l.count code).Breaks brokenThreshold then
        [⟨.active, .broken, .failuresReached brokenThreshold⟩] else []) ++
      if (l.count code).Expires brokenThreshold deadDurationDays now then
        [⟨.broken, .dead, .noSuccessFor deadDurationDays⟩] else []
  | .reactivate => if l.status ≠ .active then [⟨l.status, .active, .manualReactivate⟩] else []

/-- The other columns after a mark. -/
def record (l : Lifecycle) : Mark → Lifecycle
  | .success now =>
    { l with
      consecutiveFailures := 0
      lastErrorCode := none
      lastSuccessfulFetchAt := some now }
  | .notModified now =>
    if l.status = .broken then
      { l with
        consecutiveFailures := 0
        lastErrorCode := none
        lastSuccessfulFetchAt := some now }
    else { l with lastSuccessfulFetchAt := some now }
  | .rateLimited => { l with lastErrorCode := some .rateLimited }
  | .failure _ code => l.count code
  | .reactivate =>
    { l with
      consecutiveFailures := 0
      lastErrorCode := none }

/-- The step of the machine. -/
def apply (m : Mark) (l : Lifecycle) : Lifecycle :=
  { record l m with
    status := ((transitions brokenThreshold deadDurationDays l m).map Transition.target).getLastD
      l.status }

variable {brokenThreshold deadDurationDays}

@[simp] theorem apply_createdAt (m : Mark) (l : Lifecycle) :
    (apply brokenThreshold deadDurationDays m l).createdAt = l.createdAt := by
  cases m with
  | notModified now =>
      simp only [apply, record]
      split <;> rfl
  | _ => rfl

@[simp] theorem apply_success (now : Datetime) (l : Lifecycle) :
    apply brokenThreshold deadDurationDays (.success now) l =
      ⟨.active, 0, none, some now, l.createdAt⟩ := by
  by_cases h : l.status = .active <;> simp [apply, record, transitions, h]

@[simp] theorem apply_reactivate (l : Lifecycle) :
    apply brokenThreshold deadDurationDays .reactivate l =
      ⟨.active, 0, none, l.lastSuccessfulFetchAt, l.createdAt⟩ := by
  by_cases h : l.status = .active <;> simp [apply, record, transitions, h]

@[simp] theorem apply_rateLimited (l : Lifecycle) :
    apply brokenThreshold deadDurationDays .rateLimited l =
      { l with lastErrorCode := some .rateLimited } := rfl

theorem apply_notModified_of_broken {l : Lifecycle} (now : Datetime) (h : l.status = .broken) :
    apply brokenThreshold deadDurationDays (.notModified now) l =
      ⟨.active, 0, none, some now, l.createdAt⟩ := by
  simp [apply, record, transitions, h]

theorem apply_notModified_of_ne {l : Lifecycle} (now : Datetime) (h : l.status ≠ .broken) :
    apply brokenThreshold deadDurationDays (.notModified now) l =
      { l with lastSuccessfulFetchAt := some now } := by
  simp [apply, record, transitions, h]

/-! ### The status after a failure -/

variable {l : Lifecycle} {now : Datetime} {code : ErrorCode}

theorem apply_gone (l : Lifecycle) (now : Datetime) :
    apply brokenThreshold deadDurationDays (.failure now .http410) l =
      { l.count .http410 with status := .dead } := by
  by_cases h : l.status = .dead <;> simp [apply, record, transitions, h]

theorem apply_failure_of_expires (hne : code ≠ .http410)
    (h : (l.count code).Expires brokenThreshold deadDurationDays now) :
    apply brokenThreshold deadDurationDays (.failure now code) l =
      { l.count code with status := .dead } := by
  simp [apply, record, transitions, hne, h]

theorem apply_failure_of_breaks (hne : code ≠ .http410) (hb : (l.count code).Breaks brokenThreshold)
    (h : ¬(l.count code).Expires brokenThreshold deadDurationDays now) :
    apply brokenThreshold deadDurationDays (.failure now code) l =
      { l.count code with status := .broken } := by
  simp [apply, record, transitions, hne, h, hb]

theorem apply_failure_of_stays (hne : code ≠ .http410)
    (hb : ¬(l.count code).Breaks brokenThreshold)
    (h : ¬(l.count code).Expires brokenThreshold deadDurationDays now) :
    apply brokenThreshold deadDurationDays (.failure now code) l = l.count code := by
  simp [apply, record, transitions, hne, h, hb]
  rfl

theorem apply_failure (brokenThreshold deadDurationDays : Int) (now : Datetime) (code : ErrorCode)
    (l : Lifecycle) : apply brokenThreshold deadDurationDays (.failure now code) l =
      { l.count code with status := l.fate brokenThreshold deadDurationDays now code } := by
  unfold Lifecycle.fate
  by_cases hcode : code = .http410
  · rw [if_pos (.inl hcode), hcode, apply_gone]
  by_cases he : (l.count code).Expires brokenThreshold deadDurationDays now
  · rw [if_pos (.inr he), apply_failure_of_expires hcode he]
  rw [if_neg (not_or.mpr ⟨hcode, he⟩)]
  by_cases hb : (l.count code).Breaks brokenThreshold
  · rw [if_pos hb, apply_failure_of_breaks hcode hb he]
  · rw [if_neg hb, apply_failure_of_stays hcode hb he]
    rfl

end Mark

/-! ## Legal transitions -/

/-- What was going on during a transition: the failure being recorded, if any, and
how long the feed had then been without success. -/
structure Circumstance where
  failure : Option ErrorCode
  elapsed : Int

/-- The edges of the state machine, each with what it takes to use it. -/
inductive Legal (deadDurationDays : Int) (c : Circumstance) : FeedStatus → FeedStatus → Prop
  | activeToBroken {code : ErrorCode} (h : c.failure = some code) (hne : code ≠ .http410) :
    Legal deadDurationDays c .active .broken
  | activeToDead (h : c.failure = some .http410) : Legal deadDurationDays c .active .dead
  | brokenToDead (h : c.failure = some .http410 ∨
      c.failure.isSome ∧ deadDurationDays * microsPerDay ≤ c.elapsed) :
    Legal deadDurationDays c .broken .dead
  | brokenToActive : Legal deadDurationDays c .broken .active
  | deadToActive : Legal deadDurationDays c .dead .active

/-- Transitions that lead from one status to another, each where the last one ended. -/
inductive Linked : FeedStatus → List Transition → FeedStatus → Prop
  | nil (s : FeedStatus) : Linked s [] s
  | cons {s u : FeedStatus} {t : Transition} {ts : List Transition} (h : t.source = s) :
    Linked t.target ts u → Linked s (t :: ts) u

namespace Linked

theorem append {s t u : FeedStatus} {ts us : List Transition} (h : Linked s ts t)
    (h' : Linked t us u) : Linked s (ts ++ us) u := by
  induction h with
  | nil => exact h'
  | cons hs _ ih => exact .cons hs (ih h')

/-- A transition that happens only under a condition. -/
theorem ite {c : Prop} [Decidable c] {s : FeedStatus} {t : Transition} (h : c → t.source = s) :
    Linked s (if c then [t] else []) (if c then t.target else s) := by
  split
  · exact .cons (h ‹_›) (.nil _)
  · exact .nil _

/-- Linked transitions end at the target of the last one. -/
theorem eq_last {s u : FeedStatus} {ts : List Transition} (h : Linked s ts u) :
    u = (ts.map Transition.target).getLastD s := by
  induction h with
  | nil => rfl
  | cons _ _ ih => rw [ih, List.map_cons, List.getLastD_cons]

end Linked

theorem Legal.toActive {deadDurationDays : Int} {c : Circumstance} {s : FeedStatus}
    (h : s ≠ .active) : Legal deadDurationDays c s .active := by
  cases s with
  | active => exact absurd rfl h
  | broken => exact .brokenToActive
  | dead => exact .deadToActive

namespace Mark

variable {brokenThreshold deadDurationDays : Int}

theorem exists_linked (m : Mark) (l : Lifecycle) :
    ∃ u, Linked l.status (transitions brokenThreshold deadDurationDays l m) u := by
  cases m with
  | success now => exact ⟨_, .ite fun _ ↦ rfl⟩
  | notModified now => exact ⟨_, .ite fun h ↦ h.symm⟩
  | rateLimited => exact ⟨_, .nil _⟩
  | reactivate => exact ⟨_, .ite fun _ ↦ rfl⟩
  | failure now code =>
      simp only [transitions]
      split
      · exact ⟨_, .ite fun _ ↦ rfl⟩
      · refine ⟨_, (Linked.ite fun hb ↦ hb.1.symm).append (.ite fun he ↦ ?_)⟩
        -- the feed was broken before, or the first transition has just broken it
        split
        · rfl
        · exact (he.1.resolve_right ‹_›).symm

/-- The transitions of a mark lead from the status before it to the one after it. -/
theorem linked (m : Mark) (l : Lifecycle) :
    Linked l.status (transitions brokenThreshold deadDurationDays l m)
      (apply brokenThreshold deadDurationDays m l).status := by
  obtain ⟨u, h⟩ := exists_linked m l
  have hu : (apply brokenThreshold deadDurationDays m l).status = u := h.eq_last.symm
  exact hu ▸ h

/-- Every transition of a mark is an edge of the state machine. -/
theorem legal (brokenThreshold : Int) {m : Mark} {l : Lifecycle} {c : Circumstance}
    (hc : ∀ now code, m = .failure now code → c = ⟨some code, l.elapsed now⟩) {t : Transition}
    (ht : t ∈ transitions brokenThreshold deadDurationDays l m) :
    Legal deadDurationDays c t.source t.target := by
  cases m with
  | success now =>
      obtain ⟨h, rfl⟩ : l.status ≠ .active ∧ t = _ := by simpa [transitions] using ht
      exact .toActive h
  | notModified now =>
      obtain ⟨-, rfl⟩ : l.status = .broken ∧ t = _ := by simpa [transitions] using ht
      exact .brokenToActive
  | rateLimited => cases ht
  | reactivate =>
      obtain ⟨h, rfl⟩ : l.status ≠ .active ∧ t = _ := by simpa [transitions] using ht
      exact .toActive h
  | failure now code =>
      obtain rfl := hc now code rfl
      by_cases hcode : code = .http410
      · subst hcode
        obtain ⟨h, rfl⟩ : l.status ≠ .dead ∧ t = _ := by simpa [transitions] using ht
        cases hs : l.status with
        | active => exact .activeToDead rfl
        | broken => exact .brokenToDead (.inl rfl)
        | dead => exact absurd hs h
      · simp only [transitions, hcode, if_false, List.mem_append] at ht
        rcases ht with ht | ht
        · obtain ⟨-, rfl⟩ : _ ∧ t = _ := by simpa using ht
          exact .activeToBroken rfl hcode
        · obtain ⟨he, rfl⟩ : _ ∧ t = _ := by simpa using ht
          exact .brokenToDead (.inr ⟨rfl, he.2⟩)

end Mark

/-! ## The invariant -/

/-- What holds of the lifecycle columns between two marks, `lastFailure` being the
instant of the last counted failure. -/
structure Lifecycle.Consistent (brokenThreshold deadDurationDays : Int)
    (lastFailure : Option Datetime) (l : Lifecycle) : Prop where
  active : l.status = .active → l.consecutiveFailures < brokenThreshold
  broken : l.status = .broken → brokenThreshold ≤ l.consecutiveFailures ∧
    ∃ now ∈ lastFailure, l.elapsed now < deadDurationDays * microsPerDay

namespace Mark

variable {brokenThreshold deadDurationDays : Int} {lastFailure : Option Datetime}

/-- The instant of the last counted failure after a mark. -/
def lastFailureAfter (lastFailure : Option Datetime) : Mark → Option Datetime
  | .failure now _ => some now
  | _ => lastFailure

theorem consistent_of_reset {l : Lifecycle} (hT : 1 ≤ brokenThreshold) (hs : l.status = .active)
    (hc : l.consecutiveFailures = 0) :
    l.Consistent brokenThreshold deadDurationDays lastFailure where
  active _ := by omega
  broken h := by simp [hs] at h

theorem consistent_failure {now : Datetime} {code : ErrorCode} {l : Lifecycle}
    (h : l.Consistent brokenThreshold deadDurationDays lastFailure) :
    (apply brokenThreshold deadDurationDays (.failure now code) l).Consistent brokenThreshold
      deadDurationDays (some now) := by
  by_cases hcode : code = .http410
  · subst hcode
    rw [apply_gone]
    exact ⟨nofun, nofun⟩
  by_cases he : (l.count code).Expires brokenThreshold deadDurationDays now
  · rw [apply_failure_of_expires hcode he]
    exact ⟨nofun, nofun⟩
  by_cases hb : (l.count code).Breaks brokenThreshold
  · rw [apply_failure_of_breaks hcode hb he]
    refine ⟨nofun, fun _ ↦ ⟨hb.2, now, rfl, ?_⟩⟩
    by_contra hle
    exact he ⟨.inr hb, not_lt.mp hle⟩
  · rw [apply_failure_of_stays hcode hb he]
    constructor
    · intro hs
      by_contra hle
      exact hb ⟨hs, by simpa using hle⟩
    · intro hs
      refine ⟨?_, now, rfl, ?_⟩
      · have := (h.broken hs).1
        simp only [Lifecycle.count_consecutiveFailures]
        omega
      · by_contra hle
        exact he ⟨.inl hs, not_lt.mp hle⟩

/-- Every mark preserves the invariant. -/
theorem consistent (hT : 1 ≤ brokenThreshold) (m : Mark) {l : Lifecycle}
    (h : l.Consistent brokenThreshold deadDurationDays lastFailure) :
    (apply brokenThreshold deadDurationDays m l).Consistent brokenThreshold deadDurationDays
      (lastFailureAfter lastFailure m) := by
  cases m with
  | success now =>
      rw [apply_success]
      exact consistent_of_reset hT rfl rfl
  | notModified now =>
      by_cases hs : l.status = .broken
      · rw [apply_notModified_of_broken now hs]
        exact consistent_of_reset hT rfl rfl
      · rw [apply_notModified_of_ne now hs]
        exact ⟨h.active, fun hb ↦ absurd hb hs⟩
  | rateLimited => exact ⟨h.active, h.broken⟩
  | failure now code => exact consistent_failure h
  | reactivate =>
      rw [apply_reactivate]
      exact consistent_of_reset hT rfl rfl

end Mark

/-! ## The rows refine the machine -/

/-- The lifecycle columns of a row. -/
def Feed.lifecycle (f : Feed) : Lifecycle where
  status := f.status
  consecutiveFailures := f.consecutiveFailures
  lastErrorCode := f.lastErrorCode
  lastSuccessfulFetchAt := f.lastSuccessfulFetchAt
  createdAt := f.createdAt

/-- A row with other lifecycle columns. -/
def Feed.withLifecycle (l : Lifecycle) (f : Feed) : Feed :=
  { f with
    status := l.status
    consecutiveFailures := l.consecutiveFailures
    lastErrorCode := l.lastErrorCode
    lastSuccessfulFetchAt := l.lastSuccessfulFetchAt
    createdAt := l.createdAt }

@[simp] theorem Feed.lifecycle_withLifecycle (l : Lifecycle) (f : Feed) :
    (f.withLifecycle l).lifecycle = l := rfl

@[simp] theorem Feed.withLifecycle_lifecycle (f : Feed) : f.withLifecycle f.lifecycle = f := rfl

@[simp] theorem Feed.withLifecycle_withLifecycle (l l' : Lifecycle) (f : Feed) :
    (f.withLifecycle l).withLifecycle l' = f.withLifecycle l' := rfl

/-- A row that goes through transitions. -/
def Tracked.follow (ts : List Transition) (r : Tracked) : Tracked where
  feed := { r.feed with status := (ts.map Transition.target).getLastD r.feed.status }
  transitions := r.transitions ++ ts

/-- A row that receives a mark. -/
def Tracked.mark (brokenThreshold deadDurationDays : Int) (m : Mark) (r : Tracked) : Tracked where
  feed := r.feed.withLifecycle (m.apply brokenThreshold deadDurationDays r.feed.lifecycle)
  transitions := r.transitions ++ m.transitions brokenThreshold deadDurationDays r.feed.lifecycle

namespace Tracked

theorem follow_append (ts us : List Transition) (r : Tracked) :
    r.follow (ts ++ us) = (r.follow ts).follow us := by
  have h : ((ts ++ us).map Transition.target).getLastD r.feed.status =
      (us.map Transition.target).getLastD ((ts.map Transition.target).getLastD r.feed.status) := by
    rw [List.map_append]
    cases us with
    | nil => rw [List.map_nil, List.append_nil]; rfl
    | cons u us => simp [List.getLastD_eq_getLast?, List.getLast?_append]
  simp only [follow, h, List.append_assoc]

theorem follow_ite {c : Prop} [Decidable c] {t : Transition} {r : Tracked}
    (h : c → r.feed.status = t.source) :
    r.follow (if c then [t] else []) = if c then r.moveTo t.target t.reason else r := by
  split
  · simp [follow, moveTo, transitionFeed, update, h ‹_›]
  · simp [follow]

/-- A mark sets its columns and goes through its transitions. -/
theorem mark_eq_follow (brokenThreshold deadDurationDays : Int) (m : Mark) (r : Tracked) :
    r.mark brokenThreshold deadDurationDays m =
      (r.update fun f ↦ f.withLifecycle (m.record f.lifecycle)).follow
        (m.transitions brokenThreshold deadDurationDays r.feed.lifecycle) := by
  have hs : (m.record r.feed.lifecycle).status = r.feed.status := by
    cases m with
    | notModified now =>
        simp only [Mark.record]
        split <;> rfl
    | _ => rfl
  simp only [mark, follow, update, Mark.apply, Feed.withLifecycle, hs]
  rfl

end Tracked

/-- A title is replaced only by a non-empty one. -/
def Feed.retitle (title : Option Text) (f : Feed) : Feed :=
  if truthy title then { f with title := title } else f

@[simp] theorem Feed.retitle_lifecycle (title : Option Text) (f : Feed) :
    (f.retitle title).lifecycle = f.lifecycle := by
  unfold Feed.retitle
  split <;> rfl

theorem markFetchSuccess_eq (brokenThreshold deadDurationDays : Int) (now : Datetime)
    (title : Option Text) (r : Tracked) :
    markFetchSuccess now title r =
      (r.update (Feed.retitle title)).mark brokenThreshold deadDurationDays (.success now) := by
  have hr : (if truthy title then r.update fun f ↦ { f with title := title } else r) =
      r.update (Feed.retitle title) := by
    unfold Feed.retitle
    split <;> rfl
  rw [Tracked.mark_eq_follow, Mark.transitions, Tracked.follow_ite fun _ ↦ rfl]
  unfold markFetchSuccess
  rw [hr]
  rfl

theorem reactivateFeed_eq (brokenThreshold deadDurationDays : Int) (now : Datetime) (r : Tracked) :
    reactivateFeed now r =
      (r.mark brokenThreshold deadDurationDays .reactivate).update fun f ↦
        { f with nextFetchAt := now } := by
  by_cases hs : r.feed.status = .active <;>
    simp [reactivateFeed, Tracked.mark, Tracked.update, Tracked.transitionFeed,
      Feed.withLifecycle, Feed.lifecycle, Mark.transitions, hs]

theorem Tracked.mark_rateLimited (brokenThreshold deadDurationDays : Int) (r : Tracked) :
    r.mark brokenThreshold deadDurationDays .rateLimited =
      r.update fun f ↦ { f with lastErrorCode := some .rateLimited } := by
  simp [Tracked.mark, Tracked.update, Feed.withLifecycle, Feed.lifecycle, Mark.transitions]

/-! ### Failures -/

/-- A number of days that is a `timedelta`. -/
def DaysFit (days : Int) : Prop := -999999999 ≤ days ∧ days ≤ 999999999

instance (days : Int) : Decidable (DaysFit days) := inferInstanceAs (Decidable (_ ∧ _))

theorem daysFit_iff {days : Int} : DaysFit days ↔ ∃ d, Timedelta.ofDays days = .ok d := by
  rw [DaysFit, Timedelta.ofDays, Timedelta.ofMicros_isOk_iff]
  simp only [microsPerDay]
  omega

/-- More days than lie between any two instants. -/
abbrev unreachableDays : Int := 1000000000

theorem not_expires_unreachableDays (brokenThreshold : Int) (now : Datetime) (l : Lifecycle) :
    ¬l.Expires brokenThreshold unreachableDays now := by
  intro h
  have h₁ := now.le_max
  have h₂ := l.reference.nonneg
  have h₃ : unreachableDays * microsPerDay ≤ now.micros - l.reference.micros := h.2
  simp only [maxMicros, unreachableDays, microsPerDay] at h₁ h₃
  omega

theorem Mark.transitions_unreachableDays_subset {brokenThreshold deadDurationDays : Int} (m : Mark)
    (l : Lifecycle) :
    m.transitions brokenThreshold unreachableDays l ⊆
      m.transitions brokenThreshold deadDurationDays l := by
  cases m with
  | failure now code =>
      simp only [transitions, not_expires_unreachableDays, if_false, List.append_nil]
      split
      · exact List.Subset.refl _
      · exact List.subset_append_left _ _
  | _ => exact List.Subset.refl _

/-- A row with one more failure counted. -/
def Tracked.count (code : ErrorCode) (r : Tracked) : Tracked :=
  r.update fun f ↦
    { f with lastErrorCode := some code, consecutiveFailures := f.consecutiveFailures + 1 }

/-- The row before the question whether it has been broken for too long. -/
def Tracked.countAndBreak (code : ErrorCode) (brokenThreshold : Int) (r : Tracked) : Tracked :=
  if (r.feed.lifecycle.count code).Breaks brokenThreshold then
    (r.count code).moveTo .broken (.failuresReached brokenThreshold)
  else r.count code

section

variable {now : Datetime} {code : ErrorCode} {brokenThreshold deadDurationDays : Int}

theorem Tracked.mark_gone (r : Tracked) :
    r.mark brokenThreshold deadDurationDays (.failure now .http410) =
      if r.feed.status ≠ .dead then (r.count .http410).moveTo .dead .http410
      else r.count .http410 := by
  rw [mark_eq_follow, Mark.transitions, if_pos rfl, follow_ite fun _ ↦ rfl]
  rfl

theorem Tracked.mark_failure (hne : code ≠ .http410) (r : Tracked) :
    r.mark brokenThreshold deadDurationDays (.failure now code) =
      if (r.feed.lifecycle.count code).Expires brokenThreshold deadDurationDays now then
        (r.countAndBreak code brokenThreshold).moveTo .dead (.noSuccessFor deadDurationDays)
      else r.countAndBreak code brokenThreshold := by
  have hb : ((r.update fun f ↦ f.withLifecycle ((Mark.failure now code).record f.lifecycle)).follow
      (if (r.feed.lifecycle.count code).Breaks brokenThreshold then
        [⟨.active, .broken, .failuresReached brokenThreshold⟩] else [])) =
      r.countAndBreak code brokenThreshold := by
    rw [follow_ite fun hb ↦ hb.1]
    rfl
  rw [mark_eq_follow, Mark.transitions, if_neg hne, follow_append, hb, follow_ite fun he ↦ ?_]
  unfold Tracked.countAndBreak
  split
  · rfl
  · exact he.1.resolve_right ‹_›

theorem markFetchFailure_gone (r : Tracked) :
    markFetchFailure now .http410 brokenThreshold deadDurationDays r =
      (.ok ⟨⟩, r.mark brokenThreshold deadDurationDays (.failure now .http410)) := by
  rw [Tracked.mark_gone]
  exact Act.modify_if_apply (r.feed.status ≠ .dead) _ (r.count .http410)

theorem markFetchFailure_of_ne (hne : code ≠ .http410) (r : Tracked) :
    markFetchFailure now code brokenThreshold deadDurationDays r =
      expireBroken now deadDurationDays (r.countAndBreak code brokenThreshold) := by
  unfold markFetchFailure
  rw [Act.modify_bind_apply, Act.get_bind_apply, if_neg hne]
  by_cases hb : (r.feed.lifecycle.count code).Breaks brokenThreshold
  · rw [Tracked.countAndBreak, if_pos hb]
    exact congrFun (if_pos hb) (r.count code)
  · rw [Tracked.countAndBreak, if_neg hb]
    exact congrFun (if_neg hb) (r.count code)

theorem countAndBreak_status_eq_broken_iff {r : Tracked} :
    (r.countAndBreak code brokenThreshold).feed.status = .broken ↔
      r.feed.status = .broken ∨ (r.feed.lifecycle.count code).Breaks brokenThreshold := by
  unfold Tracked.countAndBreak
  split
  · exact iff_of_true rfl (.inr ‹_›)
  · exact (or_iff_left ‹_›).symm

theorem countAndBreak_reference (r : Tracked) :
    (r.countAndBreak code brokenThreshold).feed.reference = r.feed.reference := by
  unfold Tracked.countAndBreak
  split <;> rfl

/-- `mark_fetch_failure` is the mark of a failure, unless it comes to compare with a
`dead_duration_days` that is no `timedelta`. -/
theorem markFetchFailure_of_ok {d : Timedelta} (hd : Timedelta.ofDays deadDurationDays = .ok d)
    (r : Tracked) :
    markFetchFailure now code brokenThreshold deadDurationDays r =
      (.ok ⟨⟩, r.mark brokenThreshold deadDurationDays (.failure now code)) := by
  by_cases hne : code = .http410
  · subst hne
    exact markFetchFailure_gone r
  rw [markFetchFailure_of_ne hne, Tracked.mark_failure hne]
  by_cases hb : (r.countAndBreak code brokenThreshold).feed.status = .broken
  · rw [expireBroken_of_ok hb hd, countAndBreak_reference]
    rw [countAndBreak_status_eq_broken_iff] at hb
    refine congrArg (Prod.mk _) (if_congr ?_ rfl rfl)
    exact ⟨fun h ↦ ⟨hb, h⟩, fun h ↦ h.2⟩
  · rw [expireBroken_of_ne hb, if_neg]
    intro he
    exact hb (countAndBreak_status_eq_broken_iff.mpr he.1)

/-- Otherwise it raises, with the feed counted and left broken. -/
theorem markFetchFailure_of_error (now : Datetime) (code : ErrorCode) (brokenThreshold : Int)
    {e : PyError} (hd : Timedelta.ofDays deadDurationDays = .error e) (r : Tracked) :
    markFetchFailure now code brokenThreshold deadDurationDays r =
      if code ≠ .http410 ∧ (r.feed.status = .broken ∨
          (r.feed.lifecycle.count code).Breaks brokenThreshold) then
        (.error (.builtin e), r.mark brokenThreshold unreachableDays (.failure now code))
      else (.ok ⟨⟩, r.mark brokenThreshold deadDurationDays (.failure now code)) := by
  by_cases hne : code = .http410
  · subst hne
    rw [if_neg fun h ↦ h.1 rfl]
    exact markFetchFailure_gone r
  rw [markFetchFailure_of_ne hne]
  by_cases hb : (r.countAndBreak code brokenThreshold).feed.status = .broken
  · rw [expireBroken_of_error hb hd, if_pos ⟨hne, countAndBreak_status_eq_broken_iff.mp hb⟩,
      Tracked.mark_failure hne, if_neg (not_expires_unreachableDays _ _ _)]
  · have hn := fun h ↦ hb (countAndBreak_status_eq_broken_iff.mpr h)
    rw [expireBroken_of_ne hb, if_neg fun h ↦ hn h.2, Tracked.mark_failure hne,
      if_neg fun he ↦ hn he.1]

end

end FeedgateFetcher
