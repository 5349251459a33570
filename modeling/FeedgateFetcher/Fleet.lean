import Mathlib.Data.Int.ConditionallyCompleteOrder
import FeedgateFetcher.Fetcher.Tick

/-!
# Workers in real time

The scheduler loops of any number of workers, each at its current tick, on one cluster
and under one clock.  A worker claims, hands the claimed feeds to its tasks, and claims
again when all of them have ended.  When the batch, the concurrency and the longest time
that one feed takes fit into the lease, no feed is ever processed twice at once: that every
worker is in time is not assumed of the ticks but follows from these limits.

A worker may die at any instant; otherwise its ticks come to their ends.  A tick that raises after
its claim, because a rollback in `_process_feed` fails, leaves the tasks beside it running and
begins to wait: it is not among the steps.
-/

namespace FeedgateFetcher

open Python Logic

/-- A deployment whose ticks fit into their leases.  The two limits are assumed of it: no setting
bounds the statement of a claim, nor, beyond the transfer that `fetch_total_budget_seconds` is for,
what a `_process_feed` does, such as resolving the host, parsing and writing. -/
structure Sizing (cfg : Settings) where
  fetchConcurrency : ℕ
  /-- The longest time from the instant of a claim to the start of its tasks. -/
  claimLatency : Int
  /-- The longest time that one `_process_feed` takes once it has its permit. -/
  processLimit : Int
  concurrency_pos : 0 < fetchConcurrency
  latency_nonneg : 0 ≤ claimLatency
  limit_nonneg : 0 ≤ processLimit
  fits : claimLatency + rounds cfg.fetchClaimBatchSize fetchConcurrency * processLimit <
    cfg.fetchClaimTtlSeconds * microsPerSecond
  probe : cfg.fetchClaimTtlSeconds * microsPerSecond ≤ cfg.deadProbeIntervalDays * microsPerDay

/-- The defaults with any batch up to the default one, if a claim takes less than thirty seconds and
a `_process_feed` no longer than that. -/
def Sizing.ofBatch (batch : ℕ) (h : batch ≤ 8) : Sizing { fetchClaimBatchSize := batch } where
  fetchConcurrency := 4
  claimLatency := 29 * microsPerSecond
  processLimit := 30 * microsPerSecond
  concurrency_pos := by decide
  latency_nonneg := by decide
  limit_nonneg := by decide
  fits := by
    have hrounds : rounds batch 4 ≤ 2 := rounds_mono 4 h
    simp only [microsPerSecond]
    omega
  probe := by
    simp only [microsPerSecond, microsPerDay]
    decide

/-! ## Ticks -/

/-- How far a worker has come in `tick_once`. -/
inductive Tick where
  | idle
  /-- The claim is committed. -/
  | claimed (now : Datetime) (feedIds : List Int)
  | gathering (now : Datetime) (pool : TickPool)

namespace Tick

variable {cfg : Settings} (z : Sizing cfg)

/-- The feeds that the tick still has to process or is processing. -/
def unfinished : Tick → List Int
  | .idle => []
  | .claimed _ feedIds => feedIds
  | .gathering _ pool => pool.unfinished

/-- The instant of the claim. -/
def claimedAt : Tick → Option Datetime
  | .idle => none
  | .claimed now _ => some now
  | .gathering now _ => some now

/-- The tick still has to process the feed of the claim. -/
def Owns (c : Claim) : Tick → Prop
  | .idle => False
  | .claimed now feedIds => c.now = now ∧ c.feedId ∈ feedIds
  | .gathering now pool => c.now = now ∧ c.feedId ∈ pool.unfinished

/-- Time may pass until `t`. -/
def MayPass (t : Int) : Tick → Prop
  | .idle => True
  | .claimed now _ => t ≤ now.micros + z.claimLatency
  | .gathering _ pool => pool.MayPass z.fetchConcurrency z.processLimit t

/-- Time has passed until `t`. -/
def pass (t : Int) : Tick → Tick
  | .idle => .idle
  | .claimed now feedIds => .claimed now feedIds
  | .gathering now pool => .gathering now { pool with clock := t }

/-- A pool that was opened in time for at most a batch of feeds, and what it has come to. -/
structure PoolSound (now : Datetime) (pool : TickPool) (clock : Int) : Prop where
  clock_eq : pool.clock = clock
  ran : ∃ (feedIds : List Int) (begun : Int), feedIds.Nodup ∧
    feedIds.length ≤ cfg.fetchClaimBatchSize ∧ begun ≤ now.micros + z.claimLatency ∧
    pool.Conserves z.fetchConcurrency feedIds ∧ pool.Paced z.fetchConcurrency z.processLimit begun

/-- The invariant of one tick. -/
def Sound (clock : Int) : Tick → Prop
  | .idle => True
  | .claimed now feedIds =>
    feedIds.Nodup ∧ feedIds.length ≤ cfg.fetchClaimBatchSize ∧
      clock ≤ now.micros + z.claimLatency
  | .gathering now pool => PoolSound z now pool clock

variable {z} {c : Claim} {t : Tick} {clock : Int}

theorem owns_pass {u : Int} : (t.pass u).Owns c ↔ t.Owns c := by
  cases t <;> exact Iff.rfl

@[simp]
theorem unfinished_pass (t : Tick) (u : Int) : (t.pass u).unfinished = t.unfinished := by
  cases t <;> rfl

/-- No tick processes a feed twice. -/
theorem Sound.nodup (h : t.Sound z clock) : t.unfinished.Nodup := by
  cases t with
  | idle => exact List.nodup_nil
  | claimed now feedIds => exact h.1
  | gathering now pool =>
      obtain ⟨-, feedIds, -, hnodup, -, -, hcons, -⟩ := h
      have hall := hcons.perm.nodup_iff.mpr hnodup
      exact hall.of_append_right

@[simp]
theorem claimedAt_pass (t : Tick) (u : Int) : (t.pass u).claimedAt = t.claimedAt := by
  cases t <;> rfl

/-- A tick that still has something to do was begun not long ago. -/
theorem Sound.clock_le {now : Datetime} (h : t.Sound z clock) (hnow : t.claimedAt = some now)
    (hwork : ∀ now pool, t = .gathering now pool → pool.unfinished ≠ []) :
    clock ≤ now.micros + (z.claimLatency +
      rounds cfg.fetchClaimBatchSize z.fetchConcurrency * z.processLimit) := by
  have hlimit := z.limit_nonneg
  have hround : 0 ≤ (rounds cfg.fetchClaimBatchSize z.fetchConcurrency : Int) * z.processLimit :=
    Int.mul_nonneg (Int.natCast_nonneg _) hlimit
  cases t with
  | idle => cases hnow
  | claimed now feedIds =>
      cases hnow
      have hclock := h.2.2
      omega
  | gathering now pool =>
      cases hnow
      obtain ⟨hclock, feedIds, begun, -, hbatch, hbegun, hcons, hpaced⟩ := h
      have hle := hpaced.clock_le hlimit z.concurrency_pos hcons.length_eq (hwork now pool rfl)
      rw [nsmul_eq_mul, hclock] at hle
      have hrounds : (rounds feedIds.length z.fetchConcurrency : Int) * z.processLimit ≤
          rounds cfg.fetchClaimBatchSize z.fetchConcurrency * z.processLimit :=
        Int.mul_le_mul_of_nonneg_right
          (Int.ofNat_le.mpr (rounds_mono z.fetchConcurrency hbatch)) hlimit
      unfold rounds at hrounds ⊢
      omega

theorem Owns.claimedAt (h : t.Owns c) : t.claimedAt = some c.now := by
  cases t with
  | idle => exact h.elim
  | claimed now feedIds => exact congrArg some h.1.symm
  | gathering now pool => exact congrArg some h.1.symm

/-- What a tick still has to process is within its lease. -/
theorem Sound.inTime (h : t.Sound z clock) (hc : t.Owns c) :
    clock < c.now.micros + cfg.fetchClaimTtlSeconds * microsPerSecond := by
  have hclock := h.clock_le hc.claimedAt fun now pool ht ↦ by
    rw [ht] at hc
    exact List.ne_nil_of_mem hc.2
  have hfits := z.fits
  omega

theorem Sound.pass {u : Int} (h : t.Sound z clock) (hpass : t.MayPass z u) :
    (t.pass u).Sound z u := by
  cases t with
  | idle => trivial
  | claimed now feedIds => exact ⟨h.1, h.2.1, hpass⟩
  | gathering now pool =>
      obtain ⟨-, feedIds, begun, hnodup, hbatch, hbegun, hcons, hpaced⟩ := h
      exact ⟨rfl, feedIds, begun, hnodup, hbatch, hbegun, ⟨hcons.perm, hcons.inLine, hcons.bounded⟩,
        hpaced.pass z.limit_nonneg z.concurrency_pos hpass⟩

/-- The pool of a claim is opened. -/
theorem Sound.opened {now : Datetime} {feedIds : List Int}
    (h : (Tick.claimed now feedIds).Sound z clock) :
    (Tick.gathering now (.opened feedIds clock)).Sound z clock :=
  ⟨rfl, feedIds, clock, h.1, h.2.1, h.2.2, WorkPool.conserves_opened _ _ _,
    WorkPool.paced_opened _ _ _ _⟩

/-- A task is started or ends. -/
theorem Sound.step {now : Datetime} {pool pool' : TickPool} {e : WorkPool.Event Int Int Bool}
    (h : (Tick.gathering now pool).Sound z clock)
    (hs : pool.Step z.fetchConcurrency z.processLimit e pool') (hclock : pool'.clock = pool.clock) :
    (Tick.gathering now pool').Sound z clock := by
  obtain ⟨heq, feedIds, begun, hnodup, hbatch, hbegun, hcons, hpaced⟩ := h
  exact ⟨hclock.trans heq, feedIds, begun, hnodup, hbatch, hbegun, hcons.step hs,
    hpaced.step z.limit_nonneg z.concurrency_pos hs⟩

end Tick

/-! ## The fleet -/

/-- A cluster, and how far each of its workers has come. -/
structure Fleet where
  cluster : Cluster
  ticks : ℕ → Tick

/-- What happens in a fleet. -/
inductive FleetAction where
  /-- A statement of a worker on the database, or its crash. -/
  | database (a : Action)
  | gather (worker : ℕ)
  | start (worker : ℕ) (feedId : Int)
  /-- `tick_once` returns. -/
  | done (worker : ℕ)
  | pass (t : Datetime)

namespace Fleet

/-- The worker gets to another point of its tick. -/
def advance (s : Fleet) (cluster : Cluster) (worker : ℕ) (t : Tick) : Fleet :=
  ⟨cluster, Function.update s.ticks worker t⟩

/-- The steps of a fleet; what it does to the database happens at its present time. -/
inductive Step {cfg : Settings} (z : Sizing cfg) (s : Fleet) : FleetAction → Fleet → Prop
  | claim {worker : ℕ} {scan : List Feed} {feedIds : List Int} {cluster : Cluster}
    (hidle : s.ticks worker = .idle)
    (hstep : s.cluster.Step cfg (.claim s.cluster.clock worker scan feedIds) cluster) :
    Step z s (.database (.claim s.cluster.clock worker scan feedIds))
      (s.advance cluster worker (.claimed s.cluster.clock feedIds))
  | gather {worker : ℕ} {now : Datetime} {feedIds : List Int}
    (htick : s.ticks worker = .claimed now feedIds) :
    Step z s (.gather worker)
      (s.advance s.cluster worker (.gathering now (.opened feedIds s.cluster.clock.micros)))
  | start {worker : ℕ} {now : Datetime} {pool : TickPool} {feedId : Int} {rest : List Int}
    (htick : s.ticks worker = .gathering now pool) (hwaiting : pool.waiting = feedId :: rest)
    (hfree : pool.running.length < z.fetchConcurrency) :
    Step z s (.start worker feedId)
      (s.advance s.cluster worker (.gathering now (pool.start feedId rest)))
  | load {c : Claim} {row : Feed} {now : Datetime} {pool : TickPool} {cluster : Cluster}
    (htick : s.ticks c.worker = .gathering now pool)
    (hrunning : c.feedId ∈ pool.running.map Task.job)
    (hstep : s.cluster.Step cfg (.load s.cluster.clock c row) cluster) :
    Step z s (.database (.load s.cluster.clock c row)) ⟨cluster, s.ticks⟩
  | finish {c : Claim} {row : Feed} {now : Datetime} {pool : TickPool} {task : Task Int Int}
    {up : Upstream} {session : Session} {domains : List Text} {cluster : Cluster}
    (htick : s.ticks c.worker = .gathering now pool) (htask : task ∈ pool.running)
    (hjob : task.job = c.feedId) (hrow : c.loaded = some row)
    (hstep : s.cluster.Step cfg (.finish s.cluster.clock c up session domains) cluster) :
    Step z s (.database (.finish s.cluster.clock c up session domains))
      (s.advance cluster c.worker (.gathering now (pool.finish task
        (processing up cfg c.now (Tracked.loaded session domains ⟨row, []⟩)).1.isOk)))
  /-- The feed is gone, or its row cannot be loaded. -/
  | abandon {c : Claim} {now : Datetime} {pool : TickPool} {task : Task Int Int} {ok : Bool}
    {cluster : Cluster} (hc : c ∈ s.cluster.held)
    (htick : s.ticks c.worker = .gathering now pool) (htask : task ∈ pool.running)
    (hjob : task.job = c.feedId)
    (hstep : s.cluster.Step cfg (.abandon s.cluster.clock c) cluster) :
    Step z s (.database (.abandon s.cluster.clock c))
      (s.advance cluster c.worker (.gathering now (pool.finish task ok)))
  | done {worker : ℕ} {now : Datetime} {pool : TickPool}
    (htick : s.ticks worker = .gathering now pool) (hdone : pool.unfinished = []) :
    Step z s (.done worker) (s.advance s.cluster worker .idle)
  | crash {worker : ℕ} {cluster : Cluster}
    (hstep : s.cluster.Step cfg (.crash s.cluster.clock worker) cluster) :
    Step z s (.database (.crash s.cluster.clock worker)) (s.advance cluster worker .idle)
  | pass {t : Datetime} (hclock : s.cluster.clock ≤ t)
    (hticks : ∀ worker, (s.ticks worker).MayPass z t.micros) :
    Step z s (.pass t) ⟨{ s.cluster with clock := t }, fun worker ↦ (s.ticks worker).pass t.micros⟩

/-- Nobody has claimed anything. -/
structure Idle (s : Fleet) : Prop where
  held : s.cluster.held = []
  ticks : ∀ worker, s.ticks worker = .idle

/-- The invariant of a fleet. -/
structure Sound {cfg : Settings} (z : Sizing cfg) (s : Fleet) : Prop where
  exclusive : (s.cluster.pool cfg).Exclusive (leaseEnd cfg)
  owned : ∀ c ∈ s.cluster.held, (s.ticks c.worker).Owns c
  covered : ∀ worker, ∀ feedId ∈ (s.ticks worker).unfinished,
    ∃ c ∈ s.cluster.held, c.worker = worker ∧ c.feedId = feedId
  ticks : ∀ worker, (s.ticks worker).Sound z s.cluster.clock.micros

section

variable {cfg : Settings} {z : Sizing cfg} {s s' : Fleet} {a : FleetAction}

theorem sound_of_idle (z : Sizing cfg) (h : s.Idle) : s.Sound z where
  exclusive := Cluster.exclusive_of_idle cfg h.held
  owned c hc := by
    rw [h.held] at hc
    exact absurd hc List.not_mem_nil
  covered worker feedId hid := by
    rw [h.ticks worker] at hid
    exact absurd hid List.not_mem_nil
  ticks worker := by
    rw [h.ticks worker]
    trivial

/-- In a fleet that fits, every worker is in time. -/
theorem Sound.timely (h : s.Sound z) : s.cluster.Timely cfg s.cluster.clock := fun c hc ↦
  (h.ticks c.worker).inTime (h.owned c hc)

/-- A step of one worker, all others staying where they are. -/
theorem Sound.advance {cluster : Cluster} {worker : ℕ} {t : Tick} (h : s.Sound z)
    (hex : (cluster.pool cfg).Exclusive (leaseEnd cfg)) (hclock : cluster.clock = s.cluster.clock)
    (hothers : ∀ c : Claim, c.worker ≠ worker → (c ∈ cluster.held ↔ c ∈ s.cluster.held))
    (hown : ∀ c ∈ cluster.held, c.worker = worker → t.Owns c)
    (hcover : ∀ feedId ∈ t.unfinished, ∃ c ∈ cluster.held, c.worker = worker ∧ c.feedId = feedId)
    (ht : t.Sound z s.cluster.clock.micros) : (s.advance cluster worker t).Sound z := by
  refine ⟨hex, fun c hc ↦ ?_, fun w ↦ ?_, fun w ↦ ?_⟩
  all_goals rw [Fleet.advance]; dsimp only
  · by_cases hw : c.worker = worker
    · rw [hw, Function.update_self]
      exact hown c hc hw
    · rw [Function.update_of_ne hw]
      exact h.owned c ((hothers c hw).mp hc)
  · intro feedId hid
    by_cases hw : w = worker
    · rw [hw, Function.update_self] at hid
      rw [hw]
      exact hcover feedId hid
    · rw [Function.update_of_ne hw] at hid
      obtain ⟨c, hc, rfl, rfl⟩ := h.covered w feedId hid
      exact ⟨c, (hothers c hw).mpr hc, rfl, rfl⟩
  · rw [hclock]
    by_cases hw : w = worker
    · rw [hw, Function.update_self]
      exact ht
    · rw [Function.update_of_ne hw]
      exact h.ticks w

/-- A step that changes neither the claims nor which feeds a tick still has to process. -/
theorem Sound.advance_tick {worker : ℕ} {t : Tick} (h : s.Sound z)
    (hown : ∀ c, (s.ticks worker).Owns c → t.Owns c)
    (hunfinished : t.unfinished = (s.ticks worker).unfinished)
    (ht : t.Sound z s.cluster.clock.micros) : (s.advance s.cluster worker t).Sound z := by
  refine h.advance h.exclusive rfl (fun _ _ ↦ Iff.rfl) ?_ ?_ ht
  · rintro c hc rfl
    exact hown c (h.owned c hc)
  · intro feedId hid
    exact h.covered worker feedId (hunfinished ▸ hid)

theorem Sound.exclusive_step (h : s.Sound z) {a : Action} {cluster : Cluster}
    (hstep : s.cluster.Step cfg a cluster) (hnow : a.now = s.cluster.clock) :
    (cluster.pool cfg).Exclusive (leaseEnd cfg) := by
  have htimely : (s.cluster.pool cfg).Timely (leaseEnd cfg) a.now.micros := by
    rw [hnow]
    exact h.timely.pool
  exact h.exclusive.step ⟨htimely, hstep.refines z.probe h.exclusive⟩

/-- The claim of a feed ends with its task. -/
theorem Sound.advance_finish (h : s.Sound z) {c : Claim} {cluster : Cluster} {now : Datetime}
    {pool : TickPool} {task : Task Int Int} (ok : Bool)
    (hex : (cluster.pool cfg).Exclusive (leaseEnd cfg)) (hclock : cluster.clock = s.cluster.clock)
    (hheld : cluster.held = s.cluster.held.erase c)
    (htick : s.ticks c.worker = .gathering now pool) (hc : c ∈ s.cluster.held)
    (htask : task ∈ pool.running) (hjob : task.job = c.feedId) :
    (s.advance cluster c.worker (.gathering now (pool.finish task ok))).Sound z := by
  have hsound := h.ticks c.worker
  rw [htick] at hsound
  have hne : ∀ d ∈ s.cluster.held.erase c, d.feedId ≠ c.feedId := fun _ hd ↦
    Cluster.feedId_ne_of_mem_erase h.exclusive hc hd
  refine h.advance hex hclock ?_ ?_ ?_ (hsound.step (.finish htask ok) rfl)
  · intro d hd
    rw [hheld]
    exact List.mem_erase_of_ne fun heq ↦ hd (heq ▸ rfl)
  · intro d hd hworker
    rw [hheld] at hd
    have hown := h.owned d (List.mem_of_mem_erase hd)
    rw [hworker, htick] at hown
    refine ⟨hown.1, ?_⟩
    rcases List.mem_append.mp hown.2 with hrunning | hwaiting
    · obtain ⟨task', htask', hid⟩ := List.mem_map.mp hrunning
      refine List.mem_append_left _ (List.mem_map.mpr ⟨task', ?_, hid⟩)
      refine (List.mem_erase_of_ne ?_).mpr htask'
      rintro rfl
      exact hne d hd (hid.symm.trans hjob)
    · exact List.mem_append_right _ hwaiting
  · intro feedId hid
    have hperm : pool.unfinished.Perm (c.feedId :: (pool.finish task ok).unfinished) := by
      rw [← hjob]
      exact ((List.perm_cons_erase htask).map Task.job).append_right pool.waiting
    obtain ⟨d, hd, hworker, rfl⟩ := h.covered c.worker feedId (by
      rw [htick]
      exact hperm.mem_iff.mpr (List.mem_cons_of_mem _ hid))
    refine ⟨d, ?_, hworker, rfl⟩
    rw [hheld]
    refine (List.mem_erase_of_ne ?_).mpr hd
    rintro rfl
    exact (List.nodup_cons.mp (hperm.nodup_iff.mp hsound.nodup)).1 hid

/-! ### What each action preserves -/

variable {worker : ℕ} {now : Datetime} {pool : TickPool} {cluster : Cluster}

/-- A claim is owned by the tick that has made it. -/
theorem Sound.claim {scan : List Feed} {feedIds : List Int} (h : s.Sound z)
    (hidle : s.ticks worker = .idle)
    (hstep : s.cluster.Step cfg (.claim s.cluster.clock worker scan feedIds) cluster) :
    (s.advance cluster worker (.claimed s.cluster.clock feedIds)).Sound z := by
  have hex := h.exclusive_step hstep rfl
  cases hstep with
  | claim hclock hscan htable hheld hnow =>
      obtain ⟨hbatch, hnodup, -⟩ := claimDueFeeds_spec s.cluster.keys hscan htable
      have hlatency := z.latency_nonneg
      refine h.advance hex hnow ?_ ?_ ?_ ⟨hnodup, hbatch, by omega⟩
      · intro c hne
        rw [hheld, List.mem_append]
        refine or_iff_left fun hc ↦ ?_
        obtain ⟨id, -, rfl⟩ := List.mem_map.mp hc
        exact hne rfl
      · intro c hc hworker
        rw [hheld] at hc
        rcases List.mem_append.mp hc with hc | hc
        · have hown := h.owned c hc
          rw [hworker, hidle] at hown
          exact hown.elim
        · obtain ⟨id, hid, rfl⟩ := List.mem_map.mp hc
          exact ⟨rfl, hid⟩
      · intro feedId hid
        rw [hheld]
        exact ⟨_, List.mem_append_right _ (List.mem_map_of_mem hid), rfl, rfl⟩

theorem Sound.gather {feedIds : List Int} (h : s.Sound z)
    (htick : s.ticks worker = .claimed now feedIds) :
    (s.advance s.cluster worker
      (.gathering now (.opened feedIds s.cluster.clock.micros))).Sound z := by
  have hsound := h.ticks worker
  rw [htick] at hsound
  refine h.advance_tick ?_ ?_ hsound.opened
  · intro c hown
    rw [htick] at hown
    exact hown
  · rw [htick]
    rfl

/-- A feed that gets its permit is still to be processed. -/
theorem Sound.start {feedId : Int} {rest : List Int} (h : s.Sound z)
    (htick : s.ticks worker = .gathering now pool) (hwaiting : pool.waiting = feedId :: rest)
    (hfree : pool.running.length < z.fetchConcurrency) :
    (s.advance s.cluster worker (.gathering now (pool.start feedId rest))).Sound z := by
  have hsound := h.ticks worker
  rw [htick] at hsound
  have heq : (pool.start feedId rest).unfinished = pool.unfinished := by
    rw [WorkPool.unfinished, WorkPool.unfinished, hwaiting, WorkPool.start, List.map_append,
      List.append_assoc]
    rfl
  refine h.advance_tick ?_ ?_ (hsound.step (.start hwaiting hfree) rfl)
  · intro c hown
    rw [htick] at hown
    exact ⟨hown.1, heq ▸ hown.2⟩
  · rw [htick]
    exact heq

/-- A claim that loads its row remains the claim of its worker. -/
theorem Sound.load {c : Claim} {row : Feed} (h : s.Sound z)
    (hstep : s.cluster.Step cfg (.load s.cluster.clock c row) cluster) :
    (⟨cluster, s.ticks⟩ : Fleet).Sound z := by
  have hex := h.exclusive_step hstep rfl
  cases hstep with
  | load hclock hc hrow hid htable hheld hnow =>
      refine ⟨hex, fun d hd ↦ ?_, fun w feedId hid ↦ ?_, fun w ↦ ?_⟩
      · dsimp only at hd
        rw [hheld] at hd
        obtain ⟨d', hd', rfl⟩ := List.mem_map.mp hd
        split
        · exact h.owned c hc
        · exact h.owned d' hd'
      · obtain ⟨d, hd, hworker, hfeed⟩ := h.covered w feedId hid
        dsimp only
        rw [hheld]
        refine ⟨_, List.mem_map_of_mem hd, ?_⟩
        split
        · rename_i heq
          exact heq ▸ ⟨hworker, hfeed⟩
        · exact ⟨hworker, hfeed⟩
      · dsimp only
        rw [hnow]
        exact h.ticks w

theorem Sound.done (h : s.Sound z) (htick : s.ticks worker = .gathering now pool)
    (hdone : pool.unfinished = []) : (s.advance s.cluster worker .idle).Sound z := by
  refine h.advance_tick ?_ ?_ trivial
  · intro c hown
    rw [htick] at hown
    have hmem := hown.2
    rw [hdone] at hmem
    exact absurd hmem List.not_mem_nil
  · rw [htick]
    exact hdone.symm

/-- The claims of a worker are lost with its tick. -/
theorem Sound.crash (h : s.Sound z)
    (hstep : s.cluster.Step cfg (.crash s.cluster.clock worker) cluster) :
    (s.advance cluster worker .idle).Sound z := by
  have hex := h.exclusive_step hstep rfl
  cases hstep with
  | crash hclock htable hheld hnow =>
      refine h.advance hex hnow ?_ ?_ (fun _ hid ↦ absurd hid List.not_mem_nil) trivial
      · intro c hne
        rw [hheld, List.mem_filter]
        exact and_iff_left (decide_eq_true hne)
      · intro c hc hworker
        rw [hheld] at hc
        exact absurd hworker (of_decide_eq_true (List.mem_filter.mp hc).2)

/-- Time passes no lease that is in use. -/
theorem Sound.pass {t : Datetime} (h : s.Sound z) (hclock : s.cluster.clock ≤ t)
    (hticks : ∀ worker, (s.ticks worker).MayPass z t.micros) :
    (⟨{ s.cluster with clock := t },
      fun worker ↦ (s.ticks worker).pass t.micros⟩ : Fleet).Sound z := by
  refine ⟨?_, fun c hc ↦ Tick.owns_pass.mpr (h.owned c hc), fun w feedId hid ↦ ?_,
    fun w ↦ (h.ticks w).pass (hticks w)⟩
  · have htimely : (s.cluster.pool cfg).Timely (leaseEnd cfg) t.micros := by
      intro g hg
      obtain ⟨c, hc, rfl⟩ := List.mem_map.mp hg
      exact ((h.ticks c.worker).pass (hticks c.worker)).inTime
        (Tick.owns_pass.mpr (h.owned c hc))
    exact h.exclusive.step ⟨htimely, Cluster.release_step s.cluster.held hclock
      (List.Sublist.refl _) (fun _ _ _ _ ↦ Iff.rfl) rfl rfl⟩
  · rw [Tick.unfinished_pass] at hid
    exact h.covered w feedId hid

theorem Sound.step (h : s.Sound z) (hs : s.Step z a s') : s'.Sound z := by
  cases hs with
  | claim hidle hstep => exact h.claim hidle hstep
  | gather htick => exact h.gather htick
  | start htick hwaiting hfree => exact h.start htick hwaiting hfree
  | load _ _ hstep => exact h.load hstep
  | finish htick htask hjob _ hstep =>
      have hex := h.exclusive_step hstep rfl
      cases hstep with
      | finish _ hc _ _ hheld hnow => exact h.advance_finish _ hex hnow hheld htick hc htask hjob
  | abandon hc htick htask hjob hstep =>
      have hex := h.exclusive_step hstep rfl
      cases hstep with
      | abandon _ _ hheld hnow => exact h.advance_finish _ hex hnow hheld htick hc htask hjob
  | done htick hdone => exact h.done htick hdone
  | crash hstep => exact h.crash hstep
  | pass hclock hticks => exact h.pass hclock hticks

/-- No two workers process the same feed. -/
theorem Sound.disjoint (h : s.Sound z) {w w' : ℕ} (hne : w ≠ w') :
    (s.ticks w).unfinished.Disjoint (s.ticks w').unfinished := by
  intro feedId hid hid'
  obtain ⟨c, hc, rfl, rfl⟩ := h.covered w feedId hid
  obtain ⟨c', hc', rfl, heq⟩ := h.covered w' _ hid'
  exact hne (congrArg Claim.worker (List.inj_on_of_nodup_map
    (Cluster.nodup_of_exclusive h.exclusive) hc' hc heq).symm)

/-- When the batches fit into the leases, in every run of a fleet that starts idle no feed is
processed by two tasks at once, neither by two workers nor by one, and no lease ends before the
processing of its feed. -/
theorem processes_once {s₀ : Fleet} {as : List FleetAction} (z : Sizing cfg) (h₀ : s₀.Idle)
    (h : Run (Step z) s₀ as s) :
    (∀ worker, (s.ticks worker).unfinished.Nodup) ∧
    (∀ w w', w ≠ w' → (s.ticks w).unfinished.Disjoint (s.ticks w').unfinished) ∧
    s.cluster.Timely cfg s.cluster.clock := by
  have hsound : s.Sound z :=
    h.invariant (P := Sound z) (fun _ _ _ hP hstep ↦ hP.step hstep) (sound_of_idle z h₀)
  exact ⟨fun worker ↦ (hsound.ticks worker).nodup, fun _ _ hne ↦ hsound.disjoint hne,
    hsound.timely⟩

/-! ### Two workers -/

/-- Two workers who take one feed at a time. -/
def idle : Fleet := ⟨Cluster.idle, fun _ ↦ .idle⟩

/-- The first worker is processing the first feed, and the second worker has claimed the second
one. -/
def bothClaimed : Fleet :=
  ((⟨Cluster.idle, fun _ ↦ .idle⟩ : Fleet).advance Cluster.oneClaimed 1 (.claimed .year2000 [1])
    |>.advance Cluster.oneClaimed 1 (.gathering .year2000 (.opened [1] Datetime.year2000.micros))
    |>.advance Cluster.oneClaimed 1
      (.gathering .year2000 ((WorkPool.opened [1] Datetime.year2000.micros).start 1 []))
    |>.advance Cluster.bothClaimed 2 (.claimed .year2000 [2]))

theorem bothClaimed_once : (bothClaimed.ticks 1).unfinished = [1] ∧
    (bothClaimed.ticks 2).unfinished = [2] ∧
    (bothClaimed.ticks 1).unfinished.Disjoint (bothClaimed.ticks 2).unfinished := by
  refine ⟨by decide, by decide, ?_⟩
  have h₁ : Cluster.idle.Step { fetchClaimBatchSize := 1 }
      (.claim .year2000 1 [Cluster.fresh 1, Cluster.fresh 2] [1]) Cluster.oneClaimed :=
    .claim (le_refl _) (List.Subperm.refl _) (by decide +kernel) rfl rfl
  have h₂ : Cluster.oneClaimed.Step { fetchClaimBatchSize := 1 }
      (.claim .year2000 2 [Cluster.leased (Cluster.fresh 1), Cluster.fresh 2] [2])
      Cluster.bothClaimed :=
    .claim (le_refl _) (List.Subperm.refl _) (by decide +kernel) rfl rfl
  have hrun : Run (Step (Sizing.ofBatch 1 (by decide))) idle
      [.database (.claim .year2000 1 [Cluster.fresh 1, Cluster.fresh 2] [1]), .gather 1,
        .start 1 1,
        .database (.claim .year2000 2 [Cluster.leased (Cluster.fresh 1), Cluster.fresh 2] [2])]
      bothClaimed :=
    (((Run.single (.claim rfl h₁)).snoc (.gather rfl)).snoc (.start rfl rfl (by decide))).snoc
      (.claim rfl h₂)
  exact (processes_once _ ⟨rfl, fun _ ↦ rfl⟩ hrun).2.1 1 2 (by decide)

end

end Fleet

end FeedgateFetcher
