import FeedgateFetcher.Fleet

/-!
# Shutting down

`_drain_background_task`: when a process is told to stop, its scheduler loop gets
`shutdown_drain_seconds` to come to its end, and is cancelled when it has not.  A loop that has been
told to stop still finishes the tick that it is in.  When a tick fits into this time nothing is
ever cancelled: processes can be stopped and replaced at any instants, and none leaves a feed behind
that has to wait for the end of its lease.

The deployment is sized as for the workers in real time: the limits on a claim and on each
`_process_feed` are assumed, and a tick fits into its lease.  A tick may raise before its claim is
committed, but not after: a rollback that fails in `_process_feed` would end it, and the loop with
it, while the tasks beside it run on.
-/

namespace FeedgateFetcher

open Python Logic

/-! ## The loop of a process -/

/-- Where `scheduler.run` is. -/
inductive LoopPhase where
  /-- Between two ticks, or before the first. -/
  | waiting
  /-- It has found the stop event unset, and has not committed a claim since. -/
  | entered (since : Int)
  /-- In `tick_once`, after the claim. -/
  | ticking
  | ended
deriving DecidableEq

/-- A deployment that gives a loop the time for what it may still have to do. -/
structure Drain {cfg : Settings} (z : Sizing cfg) where
  /-- The longest time from the look at the stop event to the commit of the claim. -/
  entryLatency : Int
  /-- `shutdown_drain_seconds`, in microseconds. -/
  drainSeconds : Int
  entry_nonneg : 0 ≤ entryLatency
  fits : entryLatency + (z.claimLatency +
    rounds cfg.fetchClaimBatchSize z.fetchConcurrency * z.processLimit) < drainSeconds

/-- The longest time that a loop may need once it has been told to stop. -/
def Drain.longest {cfg : Settings} {z : Sizing cfg} (d : Drain z) : Int :=
  d.entryLatency + (z.claimLatency +
    rounds cfg.fetchClaimBatchSize z.fetchConcurrency * z.processLimit)

theorem Drain.entry_le_longest {cfg : Settings} {z : Sizing cfg} (d : Drain z) :
    d.entryLatency ≤ d.longest := by
  have hlimit : 0 ≤ (rounds cfg.fetchClaimBatchSize z.fetchConcurrency : Int) * z.processLimit :=
    Int.mul_nonneg (Int.natCast_nonneg _) z.limit_nonneg
  exact Int.le_add_of_nonneg_right (Int.add_nonneg z.latency_nonneg hlimit)

theorem Drain.longest_nonneg {cfg : Settings} {z : Sizing cfg} (d : Drain z) : 0 ≤ d.longest :=
  d.entry_nonneg.trans d.entry_le_longest

/-- The defaults of the settings, for claims that are committed within a half second. -/
def Drain.ofBatch (batch : ℕ) (h : batch ≤ 8) : Drain (Sizing.ofBatch batch h) where
  entryLatency := 500000
  drainSeconds := 90 * microsPerSecond
  entry_nonneg := by decide
  fits := by
    have hrounds : rounds batch 4 ≤ 2 := rounds_mono 4 h
    simp only [Sizing.ofBatch, microsPerSecond]
    omega

/-- The replicas of the service: their fleet, where their loops are, and when they were told to
stop. -/
structure Replicas where
  fleet : Fleet
  phases : ℕ → LoopPhase
  stops : ℕ → Option Int

/-- What happens to the replicas. -/
inductive ReplicaAction where
  | fleet (a : FleetAction)
  /-- The loop begins a tick. -/
  | enter (worker : ℕ)
  /-- `tick_once` raises before its claim is committed. -/
  | fail (worker : ℕ)
  /-- The stop event is set. -/
  | stop (worker : ℕ)
  /-- The loop finds the stop event set. -/
  | exit (worker : ℕ)
  /-- The task is cancelled. -/
  | cancel (worker : ℕ)
  /-- Another process takes the place of one that has stopped. -/
  | replace (worker : ℕ)

/-- The action belongs to the processing of claimed feeds. -/
def FleetAction.isProcessing : FleetAction → Bool
  | .database (.load _ _ _) => true
  | .database (.finish _ _ _ _ _) => true
  | .database (.abandon _ _) => true
  | .gather _ => true
  | .start _ _ => true
  | _ => false

/-- A statement on the database takes place at its instant. -/
theorem Cluster.Step.clock_eq {cfg : Settings} {s s' : Cluster} {a : Action}
    (h : s.Step cfg a s') : s'.clock = a.now := by
  cases h with
  | claim _ _ _ _ hnow => exact hnow
  | load _ _ _ _ _ _ hnow => exact hnow
  | finish _ _ _ _ _ hnow => exact hnow
  | abandon _ _ _ hnow => exact hnow
  | crash _ _ _ hnow => exact hnow

namespace Fleet

variable {cfg : Settings} {z : Sizing cfg} {s s' : Fleet} {a : FleetAction} {worker : ℕ}

@[simp]
theorem ticks_advance_self (cluster : Cluster) (worker : ℕ) (t : Tick) :
    (s.advance cluster worker t).ticks worker = t := Function.update_self _ _ _

theorem ticks_advance_of_ne (cluster : Cluster) (t : Tick) {w : ℕ} (h : w ≠ worker) :
    (s.advance cluster worker t).ticks w = s.ticks w := Function.update_of_ne h _ _

theorem claimedAt_advance {cluster : Cluster} {t : Tick}
    (h : t.claimedAt = (s.ticks worker).claimedAt) (w : ℕ) :
    ((s.advance cluster worker t).ticks w).claimedAt = (s.ticks w).claimedAt := by
  by_cases hw : w = worker
  · rw [hw, ticks_advance_self, h]
  · rw [ticks_advance_of_ne _ _ hw]

/-- While claimed feeds are processed, the claims of the ticks and the clock stay as they are. -/
theorem Step.processing (hs : s.Step z a s') (ha : a.isProcessing = true) :
    s'.cluster.clock = s.cluster.clock ∧
      ∀ w, (s'.ticks w).claimedAt = (s.ticks w).claimedAt := by
  cases hs with
  | gather htick => exact ⟨rfl, claimedAt_advance (by rw [htick]; rfl)⟩
  | start htick _ _ => exact ⟨rfl, claimedAt_advance (by rw [htick]; rfl)⟩
  | load _ _ hstep => exact ⟨hstep.clock_eq, fun _ ↦ rfl⟩
  | finish htick _ _ _ hstep => exact ⟨hstep.clock_eq, claimedAt_advance (by rw [htick]; rfl)⟩
  | abandon _ htick _ _ hstep => exact ⟨hstep.clock_eq, claimedAt_advance (by rw [htick]; rfl)⟩
  | _ => cases ha

end Fleet

namespace Replicas

/-- Time may pass until `t` for the loop of a worker: one that has been told to stop does not wait,
a claim is committed soon, a tick returns when all of its tasks have ended, and `wait_for` does not
wait longer than it has to. -/
def MayPass {cfg : Settings} {z : Sizing cfg} (d : Drain z) (s : Replicas) (worker : ℕ) (t : Int) :
    Prop :=
  (∀ stop, s.stops worker = some stop → s.phases worker ≠ .ended → t ≤ stop + d.drainSeconds) ∧
  match s.phases worker with
  | .waiting => s.stops worker = none
  | .entered since => t ≤ since + d.entryLatency
  | .ticking => ∀ now pool, s.fleet.ticks worker = .gathering now pool → pool.unfinished ≠ []
  | .ended => True

/-- The loop of a worker gets to another point. -/
def advance (s : Replicas) (fleet : Fleet) (worker : ℕ) (phase : LoopPhase) : Replicas :=
  { s with fleet := fleet, phases := Function.update s.phases worker phase }

/-- A new process runs as this worker. -/
def begin (s : Replicas) (fleet : Fleet) (worker : ℕ) : Replicas :=
  ⟨fleet, Function.update s.phases worker .waiting, Function.update s.stops worker none⟩

/-- The present time. -/
def clock (s : Replicas) : Int := s.fleet.cluster.clock.micros

/-- The steps of the replicas. -/
inductive Step {cfg : Settings} {z : Sizing cfg} (d : Drain z) (s : Replicas) :
    ReplicaAction → Replicas → Prop
  | claim {now : Datetime} {worker : ℕ} {since : Int} {scan : List Feed} {feedIds : List Int}
    {fleet : Fleet} (hphase : s.phases worker = .entered since)
    (hstep : s.fleet.Step z (.database (.claim now worker scan feedIds)) fleet) :
    Step d s (.fleet (.database (.claim now worker scan feedIds))) (s.advance fleet worker .ticking)
  | process {a : FleetAction} {fleet : Fleet} (hstep : s.fleet.Step z a fleet)
    (ha : a.isProcessing = true) : Step d s (.fleet a) { s with fleet := fleet }
  | done {worker : ℕ} {fleet : Fleet} (hstep : s.fleet.Step z (.done worker) fleet) :
    Step d s (.fleet (.done worker)) (s.advance fleet worker .waiting)
  /-- A process that dies is replaced. -/
  | crash {now : Datetime} {worker : ℕ} {fleet : Fleet}
    (hstep : s.fleet.Step z (.database (.crash now worker)) fleet) :
    Step d s (.fleet (.database (.crash now worker))) (s.begin fleet worker)
  | pass {t : Datetime} {fleet : Fleet} (hstep : s.fleet.Step z (.pass t) fleet)
    (hpass : ∀ worker, s.MayPass d worker t.micros) :
    Step d s (.fleet (.pass t)) { s with fleet := fleet }
  | enter {worker : ℕ} (hphase : s.phases worker = .waiting) (hstop : s.stops worker = none) :
    Step d s (.enter worker) (s.advance s.fleet worker (.entered s.clock))
  | fail {worker : ℕ} {since : Int} (hphase : s.phases worker = .entered since) :
    Step d s (.fail worker) (s.advance s.fleet worker .waiting)
  | stop {worker : ℕ} (hstop : s.stops worker = none) :
    Step d s (.stop worker) { s with stops := Function.update s.stops worker (some s.clock) }
  | exit {worker : ℕ} {stop : Int} (hphase : s.phases worker = .waiting)
    (hstop : s.stops worker = some stop) : Step d s (.exit worker) (s.advance s.fleet worker .ended)
  /-- What the tasks of the tick have not committed is lost. -/
  | cancel {now : Datetime} {worker : ℕ} {stop : Int} {fleet : Fleet}
    (hphase : s.phases worker ≠ .ended) (hstop : s.stops worker = some stop)
    (hlate : stop + d.drainSeconds ≤ s.clock)
    (hstep : s.fleet.Step z (.database (.crash now worker)) fleet) :
    Step d s (.cancel worker) (s.advance fleet worker .ended)
  | replace {worker : ℕ} (hphase : s.phases worker = .ended) :
    Step d s (.replace worker) (s.begin s.fleet worker)

/-! ## The invariant -/

section

variable {cfg : Settings} {z : Sizing cfg} {d : Drain z} {s s' : Replicas} {a : ReplicaAction}
  {worker : ℕ}

/-- The loop is where its tick is, and looked at the stop event before it was set. -/
def Punctual (d : Drain z) (clock : Int) (stop : Option Int) (claimedAt : Option Datetime) :
    LoopPhase → Prop
  | .waiting => claimedAt = none
  | .entered since => claimedAt = none ∧ since ≤ clock ∧ clock ≤ since + d.entryLatency ∧
    ∀ t, stop = some t → since ≤ t
  | .ticking => ∃ now, claimedAt = some now ∧ now.micros ≤ clock ∧
    ∀ t, stop = some t → now.micros ≤ t + d.entryLatency
  | .ended => claimedAt = none

/-- The invariant of the replicas. -/
structure Sound (d : Drain z) (s : Replicas) : Prop where
  fleet : s.fleet.Sound z
  loops : ∀ worker, Punctual d s.clock (s.stops worker) (s.fleet.ticks worker).claimedAt
    (s.phases worker)
  inTime : ∀ worker stop, s.stops worker = some stop → s.phases worker ≠ .ended →
    s.clock ≤ stop + d.longest

/-- A loop that is at a tick has not ended. -/
theorem Sound.not_ended (h : s.Sound d) (htick : s.fleet.ticks worker ≠ .idle) :
    s.phases worker ≠ .ended := by
  intro hended
  have hloop := h.loops worker
  rw [hended] at hloop
  cases ht : s.fleet.ticks worker with
  | idle => exact htick ht
  | _ =>
      rw [ht] at hloop
      cases hloop

/-- A step of one loop, all others staying where they are. -/
theorem Sound.advance {fleet : Fleet} {phase : LoopPhase} (h : s.Sound d) (hfleet : fleet.Sound z)
    (hclock : fleet.cluster.clock = s.fleet.cluster.clock)
    (hothers : ∀ w, w ≠ worker → fleet.ticks w = s.fleet.ticks w)
    (hloop : Punctual d s.clock (s.stops worker) (fleet.ticks worker).claimedAt phase)
    (hphase : phase ≠ .ended → s.phases worker ≠ .ended) :
    (s.advance fleet worker phase).Sound d := by
  refine ⟨hfleet, fun w ↦ ?_, fun w stop hstop hne ↦ ?_⟩
  all_goals
    rw [show (s.advance fleet worker phase).clock = s.clock from congrArg Datetime.micros hclock]
    by_cases hw : w = worker
  · rw [hw, show (s.advance fleet worker phase).phases worker = phase from
      Function.update_self _ _ _]
    exact hloop
  · rw [show (s.advance fleet worker phase).phases w = s.phases w from
      Function.update_of_ne hw _ _, show (s.advance fleet worker phase).fleet.ticks w = _ from
      hothers w hw]
    exact h.loops w
  · rw [hw, show (s.advance fleet worker phase).phases worker = phase from
      Function.update_self _ _ _] at hne
    exact h.inTime w stop hstop (hw ▸ hphase hne)
  · rw [show (s.advance fleet worker phase).phases w = s.phases w from
      Function.update_of_ne hw _ _] at hne
    exact h.inTime w stop hstop hne

/-- A new process has claimed nothing. -/
theorem Sound.begin {fleet : Fleet} (h : s.Sound d) (hfleet : fleet.Sound z)
    (hclock : fleet.cluster.clock = s.fleet.cluster.clock)
    (hothers : ∀ w, w ≠ worker → fleet.ticks w = s.fleet.ticks w)
    (hidle : (fleet.ticks worker).claimedAt = none) : (s.begin fleet worker).Sound d := by
  have hnew : (s.begin fleet worker).stops worker = none := Function.update_self _ _ _
  refine ⟨hfleet, fun w ↦ ?_, fun w stop hstop hne ↦ ?_⟩
  all_goals
    rw [show (s.begin fleet worker).clock = s.clock from congrArg Datetime.micros hclock]
    by_cases hw : w = worker
  · rw [hw, show (s.begin fleet worker).phases worker = .waiting from Function.update_self _ _ _]
    exact hidle
  · rw [show (s.begin fleet worker).phases w = s.phases w from Function.update_of_ne hw _ _,
      show (s.begin fleet worker).stops w = s.stops w from Function.update_of_ne hw _ _,
      show (s.begin fleet worker).fleet.ticks w = _ from hothers w hw]
    exact h.loops w
  · rw [hw, hnew] at hstop
    cases hstop
  · rw [show (s.begin fleet worker).phases w = s.phases w from Function.update_of_ne hw _ _] at hne
    rw [show (s.begin fleet worker).stops w = s.stops w from Function.update_of_ne hw _ _] at hstop
    exact h.inTime w stop hstop hne

/-- Nobody has claimed anything or been told to stop. -/
structure Fresh (s : Replicas) : Prop where
  fleet : s.fleet.Idle
  phases : ∀ worker, s.phases worker = .waiting
  stops : ∀ worker, s.stops worker = none

theorem sound_of_fresh (d : Drain z) (h : s.Fresh) : s.Sound d where
  fleet := Fleet.sound_of_idle z h.fleet
  loops worker := by
    rw [h.phases worker, h.fleet.ticks worker]
    rfl
  inTime worker stop hstop := by
    rw [h.stops worker] at hstop
    cases hstop

/-- A loop is cancelled when it has had the longest time that it may need. -/
theorem Sound.not_late (h : s.Sound d) {stop : Int} (hstop : s.stops worker = some stop)
    (hphase : s.phases worker ≠ .ended) : s.clock < stop + d.drainSeconds := by
  have htime := h.inTime worker stop hstop hphase
  have hfits := d.fits
  unfold Drain.longest at htime
  omega

/-- A loop that is told to stop has looked at its stop event before. -/
theorem Punctual.stop {clock : Int} {claimedAt : Option Datetime} {phase : LoopPhase}
    (h : Punctual d clock none claimedAt phase) :
    Punctual d clock (some clock) claimedAt phase := by
  cases phase with
  | waiting => exact h
  | entered since =>
      obtain ⟨hidle, hsince, hclock, -⟩ := h
      refine ⟨hidle, hsince, hclock, fun t ht ↦ ?_⟩
      cases ht
      exact hsince
  | ticking =>
      obtain ⟨now, hnow, hclock, -⟩ := h
      refine ⟨now, hnow, hclock, fun t ht ↦ ?_⟩
      cases ht
      exact hclock.trans (Int.le_add_of_nonneg_right d.entry_nonneg)
  | ended => exact h

theorem Sound.stop (h : s.Sound d) (hstop : s.stops worker = none) :
    Sound d { s with stops := Function.update s.stops worker (some s.clock) } := by
  refine ⟨h.fleet, fun w ↦ ?_, fun w stop hw hne ↦ ?_⟩
  · dsimp only
    by_cases hw : w = worker
    · rw [hw, Function.update_self]
      have hloop := h.loops worker
      rw [hstop] at hloop
      exact hloop.stop
    · rw [Function.update_of_ne hw]
      exact h.loops w
  · dsimp only at hw
    by_cases heq : w = worker
    · rw [heq, Function.update_self] at hw
      cases hw
      exact Int.le_add_of_nonneg_right d.longest_nonneg
    · rw [Function.update_of_ne heq] at hw
      exact h.inTime w stop hw hne

theorem Sound.pass {t : Datetime} {fleet : Fleet} (h : s.Sound d)
    (hstep : s.fleet.Step z (.pass t) fleet) (hpass : ∀ worker, s.MayPass d worker t.micros) :
    Sound d { s with fleet := fleet } := by
  have hsound := h.fleet.step hstep
  cases hstep with
  | pass hclock hticks =>
      have hle : s.clock ≤ t.micros := hclock
      refine ⟨hsound, fun w ↦ ?_, fun w stop hstop hne ↦ ?_⟩
      all_goals
        have hloop := h.loops w
        obtain ⟨-, hmay⟩ := hpass w
      · dsimp only
        rw [Tick.claimedAt_pass]
        cases hphase : s.phases w with
        | waiting =>
            rw [hphase] at hloop
            exact hloop
        | entered since =>
            rw [hphase] at hloop hmay
            exact ⟨hloop.1, hloop.2.1.trans hle, hmay, hloop.2.2.2⟩
        | ticking =>
            rw [hphase] at hloop
            obtain ⟨now, hnow, hclaimed, hstopped⟩ := hloop
            exact ⟨now, hnow, hclaimed.trans hle, hstopped⟩
        | ended =>
            rw [hphase] at hloop
            exact hloop
      · show t.micros ≤ stop + d.longest
        cases hphase : s.phases w with
        | waiting =>
            rw [hphase] at hmay
            cases hmay.symm.trans hstop
        | entered since =>
            rw [hphase] at hloop hmay
            have hsince := hloop.2.2.2 stop hstop
            have hentry := d.entry_le_longest
            omega
        | ticking =>
            rw [hphase] at hloop hmay
            obtain ⟨now, hnow, -, hstopped⟩ := hloop
            have hbefore := hstopped stop hstop
            have hwork : ∀ now pool, (s.fleet.ticks w).pass t.micros = .gathering now pool →
                pool.unfinished ≠ [] := by
              intro now pool hgathering
              rcases htick : s.fleet.ticks w with _ | _ | ⟨now', pool'⟩
              all_goals
                rw [htick] at hgathering
                cases hgathering
              exact hmay now pool' htick
            have hclaimed : t.micros ≤ _ := (hsound.ticks w).clock_le
              ((Tick.claimedAt_pass _ _).trans hnow) hwork
            unfold Drain.longest
            omega
        | ended => exact absurd hphase hne

theorem Sound.step (h : s.Sound d) (hs : s.Step d a s') : s'.Sound d := by
  cases hs with
  | @claim now worker since scan feedIds fleet hphase hstep =>
      have hsound := h.fleet.step hstep
      have hloop := h.loops worker
      rw [hphase] at hloop
      obtain ⟨-, -, hclock, hstopped⟩ := hloop
      cases hstep with
      | claim hidle hstep =>
          refine h.advance hsound hstep.clock_eq (fun w ↦ Fleet.ticks_advance_of_ne _ _)
            ⟨s.fleet.cluster.clock, ?_, le_refl _, fun t ht ↦ ?_⟩ fun _ ↦ ?_
          · rw [Fleet.ticks_advance_self]
            rfl
          · exact hclock.trans (Int.add_le_add_right (hstopped t ht) _)
          · rw [hphase]
            exact LoopPhase.noConfusion
  | process hstep ha =>
      obtain ⟨hclock, hticks⟩ := hstep.processing ha
      refine ⟨h.fleet.step hstep, fun w ↦ ?_, fun w ↦ ?_⟩
      all_goals rw [clock, hclock]
      · rw [hticks w]
        exact h.loops w
      · exact h.inTime w
  | @done worker fleet hstep =>
      have hsound := h.fleet.step hstep
      cases hstep with
      | done htick hdone =>
          have hphase : s.phases worker ≠ .ended :=
            h.not_ended (by rw [htick]; exact Tick.noConfusion)
          refine h.advance hsound rfl (fun w ↦ Fleet.ticks_advance_of_ne _ _) ?_ fun _ ↦ hphase
          rw [Fleet.ticks_advance_self]
          rfl
  | @crash now worker fleet hstep =>
      have hsound := h.fleet.step hstep
      cases hstep with
      | crash hstep =>
          refine h.begin hsound hstep.clock_eq (fun w ↦ Fleet.ticks_advance_of_ne _ _) ?_
          rw [Fleet.ticks_advance_self]
          rfl
  | @pass t fleet hstep hpass => exact h.pass hstep hpass
  | @enter worker hphase hstop =>
      have hloop := h.loops worker
      rw [hphase] at hloop
      refine h.advance h.fleet rfl (fun _ _ ↦ rfl) ⟨hloop, le_refl _,
        Int.le_add_of_nonneg_right d.entry_nonneg, fun t ht ↦ ?_⟩ fun _ ↦ ?_
      · cases ht.symm.trans hstop
      · rw [hphase]
        exact LoopPhase.noConfusion
  | @fail worker since hphase =>
      have hloop := h.loops worker
      rw [hphase] at hloop
      refine h.advance h.fleet rfl (fun _ _ ↦ rfl) hloop.1 fun _ ↦ ?_
      rw [hphase]
      exact LoopPhase.noConfusion
  | @stop worker hstop => exact h.stop hstop
  | @exit worker stop hphase hstop =>
      have hloop := h.loops worker
      rw [hphase] at hloop
      exact h.advance h.fleet rfl (fun _ _ ↦ rfl) hloop (absurd rfl)
  | @cancel now worker stop fleet hphase hstop hlate hstep =>
      exact absurd hlate (not_le.mpr (h.not_late hstop hphase))
  | @replace worker hphase =>
      have hloop := h.loops worker
      rw [hphase] at hloop
      exact h.begin h.fleet rfl (fun _ _ ↦ rfl) hloop

/-- When a tick fits into the time for the drain, and none raises after its claim, processes can be
told to stop at any instants: no loop is ever cancelled, every loop has ended when it has had the
longest time that a tick may take, and a loop that has ended has left no feed behind that is still
claimed. -/
theorem drained {s₀ : Replicas} {as : List ReplicaAction} (d : Drain z) (h₀ : s₀.Fresh)
    (hr : Run (Step d) s₀ as s) (worker : ℕ) :
    .cancel worker ∉ as ∧
    (∀ stop, s.stops worker = some stop → stop + d.longest < s.clock →
      s.phases worker = .ended) ∧
    (s.phases worker = .ended → ∀ c ∈ s.fleet.cluster.held, c.worker ≠ worker) := by
  have hrun : s.Sound d ∧ .cancel worker ∉ as := by
    induction hr with
    | nil => exact ⟨sound_of_fresh d h₀, List.not_mem_nil⟩
    | snoc _ hs ih =>
        obtain ⟨hsound, hnone⟩ := ih
        refine ⟨hsound.step hs, fun hmem ↦ ?_⟩
        rcases List.mem_append.mp hmem with hmem | hmem
        · exact hnone hmem
        · cases List.mem_singleton.mp hmem
          cases hs with
          | cancel hphase hstop hlate hstep =>
              exact absurd hlate (not_le.mpr (hsound.not_late hstop hphase))
  obtain ⟨hsound, hnone⟩ := hrun
  refine ⟨hnone, fun stop hstop hlate ↦ ?_, ?_⟩
  · by_contra hphase
    exact absurd (hsound.inTime worker stop hstop hphase) (not_le.mpr hlate)
  · rintro hphase c hc rfl
    have hloop := hsound.loops c.worker
    rw [hphase] at hloop
    cases hloop.symm.trans (hsound.fleet.owned c hc).claimedAt

/-- Two workers between their ticks. -/
def idle : Replicas := ⟨Fleet.idle, fun _ ↦ .waiting, fun _ ↦ none⟩

/-- A worker that is told to stop when it has claimed a feed comes to its end with the tick. -/
theorem claimed_drained : ∃ s, Run (Step (Drain.ofBatch 1 (by decide))) idle
      [.enter 1, .fleet (.database (.claim .year2000 1 [Cluster.fresh 1, Cluster.fresh 2] [1])),
        .stop 1, .fleet (.gather 1), .fleet (.start 1 1),
        .fleet (.database (.abandon .year2000 ⟨1, 1, .year2000, none⟩)), .fleet (.done 1),
        .exit 1] s ∧
    ∀ c ∈ s.fleet.cluster.held, c.worker ≠ 1 := by
  have hclaim : Cluster.idle.Step { fetchClaimBatchSize := 1 }
      (.claim .year2000 1 [Cluster.fresh 1, Cluster.fresh 2] [1]) Cluster.oneClaimed :=
    .claim (le_refl _) (List.Subperm.refl _) (by decide +kernel) rfl rfl
  have habandon : Cluster.oneClaimed.Step { fetchClaimBatchSize := 1 }
      (.abandon .year2000 ⟨1, 1, .year2000, none⟩) { Cluster.oneClaimed with held := [] } :=
    .abandon (le_refl _) rfl (by decide) rfl
  have hclaimed := (Run.single (@Step.enter _ _ (Drain.ofBatch 1 (by decide)) idle 1 rfl rfl)).snoc
    (.claim rfl (.claim rfl hclaim))
  have hstopped := hclaimed.snoc (@Step.stop _ _ _ _ 1 rfl)
  have hgathering := hstopped.snoc (.process (@Fleet.Step.gather _ _ _ 1 _ _ rfl) rfl)
  have hstarted := hgathering.snoc (.process (@Fleet.Step.start _ _ _ 1 _ _ _ _ rfl rfl
    (by decide)) rfl)
  have hprocessed := hstarted.snoc (.process (@Fleet.Step.abandon _ _ _ ⟨1, 1, .year2000, none⟩ _ _
    ⟨1, 0, Datetime.year2000.micros⟩ true _ List.mem_cons_self rfl List.mem_cons_self rfl habandon)
    rfl)
  have hended := (hprocessed.snoc (.done (@Fleet.Step.done _ _ _ 1 _ _ rfl rfl))).snoc
    (@Step.exit _ _ _ _ 1 _ rfl rfl)
  exact ⟨_, hended, (drained _ ⟨⟨rfl, fun _ ↦ rfl⟩, fun _ ↦ rfl, fun _ ↦ rfl⟩ hended 1).2.2 rfl⟩

end

end Replicas

end FeedgateFetcher
